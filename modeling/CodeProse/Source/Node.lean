/-
# Nodes

The pieces of a source file that hold prose: comments, string literals, the literal fragments of
templates, text between tags, and identifiers.
-/
import CodeProse.Issue

namespace CodeProse.Source

/-- One piece of a file that holds text. -/
structure Node where
  kind : UnitKind
  /-- The text as written between the delimiters. -/
  value : Text
  /-- Where the node starts, delimiters included. -/
  start : Nat
  /-- Where the node stops, delimiters included. -/
  stop : Nat
  /-- Where the text starts. -/
  contentStart : Nat
  /-- Whether the node names the module of an import or export. -/
  isModuleSpecifier : Bool := false
  deriving DecidableEq, Repr, Inhabited

namespace Node

/-- Where the text stops. -/
def contentStop (n : Node) : Nat :=
  n.contentStart + n.value.byteLength

/-- Names of modules are not prose. -/
def isCheckable (n : Node) : Bool :=
  !(n.kind == .string && n.isModuleSpecifier)

/-- The node as a list, which is empty if the node holds no text. -/
def ifAny (n : Node) : List Node :=
  if n.value.isEmpty then [] else [n]

end Node

end CodeProse.Source

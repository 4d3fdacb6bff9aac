/-
# Source languages
-/
import CodeProse.Path
import CodeProse.Unicode.CaseMap

namespace CodeProse.Source

/-- The languages whose files are read. -/
inductive Language where
  | javaScript
  | typeScript
  | jsx
  | tsx
  deriving DecidableEq, Repr, Inhabited

namespace Language

/-- Whether files of the language may hold elements with text between tags. -/
def hasElements : Language → Bool
  | jsx | tsx => true
  | javaScript | typeScript => false

/-- The extensions of file names, each with its language. -/
def extensions : List (Text × Language) :=
  [("js", javaScript), ("mjs", javaScript), ("cjs", javaScript), ("ts", typeScript),
    ("mts", typeScript), ("cts", typeScript), ("jsx", jsx), ("tsx", tsx)].map
    fun p => (p.1.toList, p.2)

/-- The language of a file, by the extension of its name in lower case. -/
def ofPath? (path : Text) : Option Language :=
  (Path.extension? path).bind fun ext => extensions.lookup (Unicode.lowercase ext)

end Language

end CodeProse.Source

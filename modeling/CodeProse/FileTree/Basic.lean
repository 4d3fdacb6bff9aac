/-
# File trees

A file tree is a file, or a directory with the names of what is in it. A place is a spot in a tree
together with the directories above it, so that a path may also lead upwards.

* `FileTree.find?` is the place that a path leads to.
* `FileTree.read` is what can be read there.
* `FileTree.write` gives a file another content.
-/
import CodeProse.Path

namespace CodeProse

/-- What a file holds: a text, or bytes that are the UTF-8 form of none. -/
inductive FileContent where
  | text (t : Text)
  | binary
  deriving DecidableEq, Repr, Inhabited

/-- A file, or a directory. -/
inductive FileTree where
  | file (content : FileContent)
  | directory (entries : List (Text × FileTree))
  deriving Repr, Inhabited

namespace FileTree

/-- Whether the tree is a directory. -/
def isDirectory : FileTree → Bool
  | file _ => false
  | directory _ => true

/-- What is in a directory; nothing is in a file. -/
def entries : FileTree → List (Text × FileTree)
  | file _ => []
  | directory entries => entries

/-- What a directory has under a name. -/
def child? (tree : FileTree) (name : Text) : Option FileTree :=
  tree.entries.lookup name

/-- Puts something under a name, in place of what is there. -/
def putChild (tree : FileTree) (name : Text) (child : FileTree) : FileTree :=
  if (tree.child? name).isSome then
    directory (tree.entries.map fun e => if e.1 = name then (name, child) else e)
  else directory (tree.entries ++ [(name, child)])

/-- Puts something where names lead; missing directories come about. -/
def put (new : FileTree) : List Text → FileTree → FileTree
  | [], _ => new
  | name :: names, tree =>
    tree.putChild name (put new names ((tree.child? name).getD (directory [])))

end FileTree

/-! ## Places -/

/-- A spot in a tree. -/
structure Place where
  tree : FileTree
  /-- The directories above, the nearest first, each with the name that leads downwards. -/
  above : List (Text × FileTree) := []
  deriving Repr, Inhabited

namespace Place

/-- The place that one component of a path leads to. Only a directory can be left. -/
def step? (place : Place) : PathComponent → Option Place
  | .root => none
  | .current => if place.tree.isDirectory then some place else none
  | .parent =>
    match place.tree, place.above with
    | .directory _, (_, tree) :: above => some ⟨tree, above⟩
    | _, _ => none
  | .name name => (place.tree.child? name).map fun tree => ⟨tree, (name, place.tree) :: place.above⟩

/-- The names that lead to a place from the top of the tree. -/
def names (place : Place) : List Text :=
  (place.above.map (·.1)).reverse

end Place

/-- Whether a path can only mean a directory: it ends with a slash, or with a dot after one. -/
def Path.meansDirectory (path : Text) : Bool :=
  match (Text.splitOn '/' path).reverse with
  | last :: _ :: _ => last.isEmpty || last == ['.']
  | _ => false

/-- What there is to read at a path. -/
inductive Readable where
  /-- Nothing is there. -/
  | missing
  /-- Something is there, but it holds no text. -/
  | unreadable
  | text (t : Text)
  deriving DecidableEq, Repr, Inhabited

/-- The text that can be read, if there is one. -/
def Readable.text? : Readable → Option Text
  | text t => some t
  | _ => none

namespace FileTree

/-- The place that a path leads to from the top of a tree. -/
def find? (tree : FileTree) (path : Text) : Option Place :=
  if path.isEmpty then none
  else
    ((Path.components path).foldlM Place.step? ⟨tree, []⟩).filter fun place =>
      !Path.meansDirectory path || place.tree.isDirectory

/-- What can be read at a path. -/
def read (tree : FileTree) (path : Text) : Readable :=
  match tree.find? path with
  | none => .missing
  | some ⟨.file (.text t), _⟩ => .text t
  | some _ => .unreadable

/-- Gives the file that a path leads to another content. -/
def write (tree : FileTree) (path content : Text) : FileTree :=
  match tree.find? path with
  | some place => put (.file (.text content)) place.names tree
  | none => tree

end FileTree

end CodeProse

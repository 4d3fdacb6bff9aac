/-
# Paths

A path is a text whose components are separated by slashes. Empty components do not count, nor does a
single dot, unless it is the first component.
-/
import CodeProse.Text.Order
import CodeProse.Text.Search

namespace CodeProse

/-- One component of a path. -/
inductive PathComponent where
  | root
  | current
  | parent
  | name (text : Text)
  deriving DecidableEq, Repr, Inhabited

namespace Path

/-- The component that is written as `piece`; `first` says whether it may be a leading dot. -/
def component? (first : Bool) (piece : Text) : Option PathComponent :=
  if piece.isEmpty then none
  else if piece = ['.'] then (if first then some .current else none)
  else if piece = ['.', '.'] then some .parent
  else some (.name piece)

/-- The components of a path. -/
def components (path : Text) : List PathComponent :=
  match Text.splitOn '/' path with
  | [] => []
  | first :: rest =>
    let later := rest.filterMap (component? false)
    if first.isEmpty then (if rest.isEmpty then [] else .root :: later)
    else (component? true first).toList ++ later

/-- The name of the file that a path leads to, if its last component is a name. -/
def fileName? (path : Text) : Option Text :=
  match (components path).getLast? with
  | some (.name text) => some text
  | _ => none

/-- The part of a file name after its last dot. A name that has no dot but a leading one has no
extension. -/
def extension? (path : Text) : Option Text :=
  (fileName? path).bind fun name =>
    match (Text.splitOn '.' name).reverse with
    | ext :: stem :: more => if stem.isEmpty && more.isEmpty then none else some ext
    | _ => none

/-! ## Order -/

/-- The rank of a kind of component. -/
def rank : PathComponent → Nat
  | .root => 0
  | .current => 1
  | .parent => 2
  | .name _ => 3

/-- Compares components: by kind, names by their characters. -/
def compareComponent : PathComponent → PathComponent → Ordering
  | .name s, .name t => Text.compare s t
  | a, b => compare (rank a) (rank b)

/-- Compares rows of components, the first difference deciding. -/
def compareComponents : List PathComponent → List PathComponent → Ordering
  | [], [] => .eq
  | [], _ :: _ => .lt
  | _ :: _, [] => .gt
  | a :: s, b :: t => (compareComponent a b).then (compareComponents s t)

/-- Whether the first path comes before the second, or is the same path written otherwise. -/
def le (a b : Text) : Bool :=
  compareComponents (components a) (components b) != .gt

/-- Appends a name to a path. -/
def append (dir name : Text) : Text :=
  if name.head? = some '/' then name
  else if dir.isEmpty || dir.getLast? = some '/' then dir ++ name
  else dir ++ '/' :: name

end Path

end CodeProse

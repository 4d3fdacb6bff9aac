/-
# Finding one text in another
-/
import CodeProse.Text.Offset

namespace CodeProse.Text

/-- What follows `start` in a text that begins with it. -/
def dropStart? : (start : Text) → Text → Option Text
  | [], t => some t
  | _ :: _, [] => none
  | c :: p, d :: t => if c = d then dropStart? p t else none

/-- The text before and the text after the first occurrence of `pattern`. -/
def splitFirst? (pattern : Text) : Text → Option (Text × Text)
  | [] => (dropStart? pattern []).map fun rest => ([], rest)
  | c :: t =>
    match dropStart? pattern (c :: t) with
    | some rest => some ([], rest)
    | none => (splitFirst? pattern t).map fun p => (c :: p.1, p.2)

/-- The pieces between the occurrences of a separating character. -/
def splitOn (sep : Char) : Text → List Text
  | [] => [[]]
  | c :: t =>
    if c = sep then [] :: splitOn sep t
    else
      match splitOn sep t with
      | [] => [[c]]
      | p :: ps => (c :: p) :: ps

/-- The characters of a number in decimal digits. -/
def ofNat (n : Nat) : Text :=
  (toString n).toList

end CodeProse.Text

/-
# Runs of a class of characters

The maximal runs of the characters of a class, each with the text between it and the run before.
-/
import CodeProse.Text.Offset

namespace CodeProse

/-- A maximal run of the characters of some class. -/
structure Run where
  /-- What stands between the run before, or the start of the text, and this run. -/
  gap : Text
  text : Text
  start : Nat
  stop : Nat
  deriving DecidableEq, Repr, Inhabited

namespace Text

/-- The run that ends at `offset`; gap and characters are given last one first. -/
def closeRun (offset : Nat) (gap reversed : Text) : List Run :=
  if reversed.isEmpty then []
  else [⟨gap.reverse, reversed.reverse, offset - byteLength reversed, offset⟩]

/-- The runs of a text that starts at `offset`, after an open gap and an open run. -/
def runsFrom (p : Char → Bool) (offset : Nat) (gap reversed : Text) : Text → List Run
  | [] => closeRun offset gap reversed
  | c :: t =>
    let next := offset + c.utf8Size
    if p c then runsFrom p next gap (c :: reversed) t
    else if reversed.isEmpty then runsFrom p next (c :: gap) [] t
    else closeRun offset gap reversed ++ runsFrom p next [c] [] t

/-- The maximal runs of the characters of a text that satisfy `p`. -/
def runs (p : Char → Bool) (t : Text) : List Run :=
  runsFrom p 0 [] [] t

end Text

end CodeProse

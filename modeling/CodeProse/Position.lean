/-
# Lines and columns
-/
import CodeProse.Text.Offset
import CodeProse.Unicode.Grapheme

namespace CodeProse

/-- A place in a text as an editor shows it: both numbers count from one. -/
structure Position where
  line : Nat
  column : Nat
  deriving DecidableEq, Repr, Inhabited

/-- What a text holds after its last line break. -/
def Text.lastLine (t : Text) : Text :=
  (t.reverse.takeWhile (· != '\n')).reverse

/-- The position at the end of a text. Columns count the pieces that `segment` cuts a line into. -/
def Position.after (segment : Text → List Text) (t : Text) : Position :=
  ⟨t.count '\n' + 1, (segment t.lastLine).length + 1⟩

/-- The position of a byte offset. An offset past the end, or inside a character, counts as the
end. Columns count grapheme clusters, unless a line is to be cut in another way. -/
def Position.ofOffset (content : Text) (offset : Nat)
    (segment : Text → List Text := Unicode.clusters) : Position :=
  match Text.cutAt? offset content with
  | some (before, _) => .after segment before
  | none => .after segment content

end CodeProse

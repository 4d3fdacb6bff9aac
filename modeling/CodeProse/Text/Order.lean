/-
# The order of texts
-/
import CodeProse.Text.Offset

namespace CodeProse.Text

/-- Compares texts by their code points, which is the order of their UTF-8 bytes. -/
def compare : Text → Text → Ordering
  | [], [] => .eq
  | [], _ :: _ => .lt
  | _ :: _, [] => .gt
  | c :: s, d :: t => (Ord.compare c.toNat d.toNat).then (compare s t)

/-- Whether the first text comes before the second or equals it. -/
def precedes (a b : Text) : Bool :=
  compare a b != .gt

/-- Leaves one of several equal neighbours. -/
def dropRepeats : List Text → List Text
  | a :: b :: rest => if a = b then dropRepeats (b :: rest) else a :: dropRepeats (b :: rest)
  | texts => texts

/-- The texts of a list in order, each once. -/
def sortDistinct (texts : List Text) : List Text :=
  dropRepeats (texts.mergeSort precedes)

end CodeProse.Text

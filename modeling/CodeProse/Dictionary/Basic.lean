/-
# Dictionaries
-/
import CodeProse.Text.Order
import CodeProse.Unicode.CaseMap

namespace CodeProse

/-- What spelling is checked against. -/
structure Dictionary where
  /-- Whether a word is known. -/
  accepts : Text → Bool
  /-- Proposals for an unknown word, best first. -/
  suggestions : Text → List Text := fun _ => []

instance : Inhabited Dictionary := ⟨{ accepts := fun _ => true }⟩

/-- A dictionary that knows the given words, whatever their case. -/
def Dictionary.ofWords (words : List Text) (suggestions : Text → List Text := fun _ => []) :
    Dictionary :=
  let known := words.map Unicode.lowercase
  { accepts := fun word => known.contains (Unicode.lowercase word), suggestions }

end CodeProse

/-
# Grammar services

A grammar service is asked about one sentence at a time and answers with what it found. It counts in
UTF-16 code units.
-/
import CodeProse.Error

namespace CodeProse

/-- A question about one sentence. -/
structure GrammarRequest where
  text : Text
  language : Text
  /-- Words that the service must accept. -/
  dictionary : List Text
  /-- Patterns of what must not be reported. -/
  skipIfMatch : List Text
  deriving DecidableEq, Repr, Inhabited

/-- The rule that a finding goes by. -/
structure MatchRule where
  id : Text := []
  description : Text := []
  confidence : Option Float32 := none
  deriving Inhabited

/-- One finding: `length` code units from `offset` on. -/
structure GrammarMatch where
  offset : Nat
  length : Nat
  /-- What may be put in place of the finding, best first. -/
  replacements : List Text := []
  rule : Option MatchRule := none
  shortMessage : Text := []
  message : Text := []
  deriving Inhabited

/-- An answer: all findings in a sentence. -/
structure GrammarResponse where
  found : List GrammarMatch := []
  deriving Inhabited

/-- Something that answers questions about sentences. -/
abbrev GrammarService := GrammarRequest → Except GrammarError GrammarResponse

end CodeProse

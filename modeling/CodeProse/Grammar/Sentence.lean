/-
# Grammar of a sentence

Only what looks like a sentence is sent to the service. Of the answer, findings that do not fit the
sentence, that the settings skip, or that are not confident enough are dropped; the others become
issues.
-/
import CodeProse.Grammar.Basic
import CodeProse.Settings
import CodeProse.Text.Sentence

namespace CodeProse.Grammar

open Unicode

/-- Whether a text looks like a sentence: it starts with a capital letter of ASCII, ends with a mark
that ends sentences, and has a word. -/
def isValidSentence (t : Text) : Bool :=
  let core := Text.trim t
  core.head?.any Char.isUpper && core.getLast?.any Text.endsSentence
    && core.any fun c => isAlphanumeric c || c == '_'

/-- The byte range that a finding covers in its sentence, if it covers whole characters and at least
one. Offset and length are 64-bit numbers, and so is their sum. -/
def matchRange? (t : Text) (m : GrammarMatch) : Option (Nat × Nat) := do
  let start ← Text.byteOfUnit? m.offset t
  let stop ← Text.byteOfUnit? ((m.offset + m.length) % 0x10000000000000000) t
  if start < stop then some (start, stop) else none

/-- The question about a sentence. -/
def request (s : Settings) (sentence : Text) : GrammarRequest :=
  { text := sentence
    language := s.language
    dictionary := s.skipWords
    skipIfMatch := s.skipIfMatch.map (·.text) }

/-- Whether a finding is confident enough. One that says nothing about it is. -/
def isConfident (s : Settings) (m : GrammarMatch) : Bool :=
  match s.confidence with
  | none => true
  | some least => !(((m.rule.bind (·.confidence)).getD 1.0) < least)

/-- The issue of a finding on the bytes from `start` to `stop`, between the texts `before` and
`after`. -/
def issue (m : GrammarMatch) (start stop : Nat) (before after : Text) : Issue :=
  { rule := .grammar, severity := .error, start, stop
    message := if m.shortMessage.isEmpty then m.message else m.shortMessage
    suggestion := m.replacements.head?.map fun new => before ++ new ++ after
    replacement := m.replacements.head? }

/-- The issue of a finding, unless the finding is dropped. -/
def matchIssue? (s : Settings) (sentence : Text) (m : GrammarMatch) : Option Issue := do
  let (start, stop) ← matchRange? sentence m
  let (before, rest) ← Text.cutAt? start sentence
  let (word, after) ← Text.cutAt? (stop - start) rest
  if !s.skipsValue word && isConfident s m then some (issue m start stop before after) else none

/-- What comes of checking a sentence: the question, if one was asked, and the issues. -/
structure Outcome where
  asked : Option GrammarRequest
  issues : Except GrammarError (List Issue)
  deriving Inhabited

/-- Checks one sentence. The offsets of the issues count from its start. -/
def checkSentence (service : GrammarService) (s : Settings) (sentence : Text) : Outcome :=
  if isValidSentence sentence then
    let question := request s sentence
    ⟨some question, (service question).map fun r => r.found.filterMap (matchIssue? s sentence)⟩
  else ⟨none, .ok []⟩

end CodeProse.Grammar

/-
# Checking

A unit is checked for spelling, and unless it is an identifier also for style and, sentence by
sentence, for grammar. What was found is sorted and reconciled. A service that does not answer fails
the unit, and only that one.
-/
import CodeProse.Correction
import CodeProse.Dictionary.Cache
import CodeProse.Grammar.Sentence
import CodeProse.Report
import CodeProse.Source.Scan
import CodeProse.Spelling

namespace CodeProse

/-- What comes of checking a unit: the questions asked of the grammar service, in order, and the
result. -/
structure UnitOutcome where
  asked : List GrammarRequest
  result : Except CheckError Correction
  deriving Inhabited

namespace Checker

/-- Checks sentences one after the other, up to the first that the service fails on. The offsets of
the issues count from the start of the unit. -/
def checkSentences (service : GrammarService) (s : Settings) :
    List Span → List GrammarRequest × Except GrammarError (List Issue)
  | [] => ([], .ok [])
  | span :: rest =>
    let outcome := Grammar.checkSentence service s span.text
    let asked := outcome.asked.toList
    match outcome.issues with
    | .error e => (asked, .error e)
    | .ok issues =>
      let later := checkSentences service s rest
      (asked ++ later.1, later.2.map (issues.map (·.shift span.start) ++ ·))

/-- Whether a unit is not checked at all: its kind is switched off, it holds nothing, or the settings
skip it. -/
def skips (s : Settings) (t : Text) (kind : UnitKind) : Bool :=
  !s.checksKind kind || Text.isBlank t || s.skipsValue t

/-- Issues in the order of their start, the shorter first. -/
def earlierFirst (a b : Issue) : Bool :=
  a.start < b.start || (a.start == b.start && a.stop ≤ b.stop)

/-- The issues of style of a unit. Identifiers are names, not prose. -/
def styleIssues (s : Settings) (t : Text) (kind : UnitKind) : List Issue :=
  if kind = .identifier then [] else Style.check s.style Style.analyze t

/-- The issues of grammar of a unit, and the questions asked. -/
def grammarIssues (service : Option GrammarService) (s : Settings) (t : Text) (kind : UnitKind) :
    List GrammarRequest × Except GrammarError (List Issue) :=
  match service with
  | some service =>
    if kind ≠ .identifier ∧ s.sentences then checkSentences service s t.sentences else ([], .ok [])
  | none => ([], .ok [])

/-- Checks a unit that is not skipped. -/
def checkWith (d : Dictionary) (service : Option GrammarService) (s : Settings) (t : Text)
    (kind : UnitKind) : UnitOutcome :=
  let grammar := grammarIssues service s t kind
  let spelling := Spelling.check s d t
  let style := styleIssues s t kind
  ⟨grammar.1,
    match grammar.2 with
    | .error e => .error (.grammar e)
    | .ok found => .ok (reconcile t ((spelling ++ style ++ found).mergeSort earlierFirst))⟩

/-- Checks a unit with the dictionary of its language. -/
def checkUnit (load : Loader) (service : Option GrammarService) (s : Settings) (t : Text)
    (kind : UnitKind) (cache : DictionaryCache) : UnitOutcome × DictionaryCache :=
  if skips s t kind then (⟨[], .ok (reconcile t [])⟩, cache)
  else
    match cache.get load s.language with
    | (.error e, cache) => (⟨[], .error e⟩, cache)
    | (.ok d, cache) => (checkWith d service s t kind, cache)

/-- The reports of a node whose check came to a correction. -/
def nodeReports (node : Source.Node) (c : Correction) : List Report :=
  c.issues.map (Report.ofIssue node.value node.kind node.contentStart)

/-- Checks the nodes of a file one after the other; one that fails has no reports. -/
def checkNodes (load : Loader) (service : Option GrammarService) (s : Settings) :
    List Source.Node → DictionaryCache → (List GrammarRequest × List Report) × DictionaryCache
  | [], cache => (([], []), cache)
  | node :: rest, cache =>
    let (outcome, cache) := checkUnit load service s node.value node.kind cache
    let reports := match outcome.result with
      | .ok c => nodeReports node c
      | .error _ => []
    let (later, cache) := checkNodes load service s rest cache
    ((outcome.asked ++ later.1, reports ++ later.2), cache)

/-- Checks a file: the questions asked of the grammar service and the reports. A file of an unknown
language has none. -/
def checkSource (load : Loader) (service : Option GrammarService) (s : Settings)
    (path content : Text) (cache : DictionaryCache) :
    (List GrammarRequest × List Report) × DictionaryCache :=
  match Source.nodesOfFile? path content with
  | some nodes => checkNodes load service s (nodes.filter (·.isCheckable)) cache
  | none => (([], []), cache)

end Checker

end CodeProse

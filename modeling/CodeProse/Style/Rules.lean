/-
# Style rules

Each rule looks at a text on its own and returns its issues; issues of different rules may overlap.
-/
import CodeProse.Issue
import CodeProse.Style.Readability

namespace CodeProse.Style

/-- A text in double quotes. -/
def quoted (t : Text) : Text :=
  '"' :: t ++ ['"']

/-- The occurrences of the phrases of a catalog, each with its entry. -/
def occurrences {α : Type} (catalog : List α) (phrase : α → Text) (t : Text) :
    List (α × Occurrence) :=
  (findAll (catalog.map phrase) t).filterMap fun m => catalog[m.phrase]?.map fun e => (e, m)

/-- The issue of a phrase for which there is a hint and perhaps a replacement. -/
def discouragedIssue (rule : Rule) (severity : Severity) (message : Text → Text)
    (entry : Discouraged) (m : Occurrence) : Issue :=
  { rule, severity, start := m.start, stop := m.stop
    message := message m.matched
    suggestion := some entry.hint
    replacement := entry.replacement.map (matchCase m.matched) }

/-- The issue of a phrase to which another one is preferred. -/
def substitutionIssue (rule : Rule) (severity : Severity) (message : Text → Text → Text)
    (entry : Substitution) (m : Occurrence) : Issue :=
  Issue.replaceWith (matchCase m.matched entry.preferred)
    { rule, severity, start := m.start, stop := m.stop
      message := message entry.preferred m.matched }

/-- Weak words. -/
def checkWeakWords (t : Text) : List Issue :=
  (occurrences weakWords (·.phrase) t).map fun (entry, m) =>
    discouragedIssue .weakWord .warning
      (fun word => "Avoid weak word ".toList ++ quoted word
        ++ ". Be more specific and direct.".toList)
      entry m

/-- Whether `part` occurs in a text. -/
def mentions (part : Text) : Text → Bool
  | [] => part.isEmpty
  | c :: t => part.isPrefixOf (c :: t) || mentions part t

/-- Passive voice, as an analyzer finds it. -/
def checkPassiveVoice (analyzer : Analyzer) (t : Text) : List Issue :=
  ((analyzer t .passiveOnly).filter fun r => mentions "passive voice".toList r.reason).map fun r =>
    { rule := .passiveVoice, severity := .warning, start := r.start, stop := r.start + r.length
      message := "Use active voice instead of passive voice for clearer communication.".toList
      suggestion := some "Rewrite in active voice".toList }

/-- Terms to which others are preferred. Where the text already goes on with the whole preferred
term, as with "email" in "email address", nothing is found. -/
def checkTerminology (t : Text) : List Issue :=
  ((occurrences terminology (·.phrase) t).filter fun (entry, m) =>
    !(((Text.cutAt? m.start t).bind fun p => takePhrase? entry.preferred p.2).isSome)).map
    fun (entry, m) =>
      substitutionIssue .terminology .error
        (fun preferred word => "Use ".toList ++ quoted preferred ++ " instead of ".toList
          ++ quoted word ++ ".".toList)
        entry m

/-- Contractions. -/
def checkContractions (t : Text) : List Issue :=
  (occurrences contractions (·.phrase) t).map fun (entry, m) =>
    substitutionIssue .contraction .warning
      (fun full word => "Avoid contractions in formal documentation. Use ".toList ++ quoted full
        ++ " instead of ".toList ++ quoted word ++ ".".toList)
      entry m

/-- Words that should not be used. -/
def checkProhibited (t : Text) : List Issue :=
  (occurrences prohibited (·.phrase) t).map fun (entry, m) =>
    discouragedIssue .prohibited .error
      (fun word => "Avoid using ".toList ++ quoted word ++ ".".toList)
      entry m

/-- Gendered words. -/
def checkGenderNeutral (t : Text) : List Issue :=
  (occurrences genderNeutral (·.phrase) t).map fun (entry, m) =>
    substitutionIssue .genderNeutral .warning
      (fun neutral word => "Use gender-neutral language. Replace ".toList ++ quoted word
        ++ " with ".toList ++ quoted neutral ++ ".".toList)
      entry m

/-- Remarks on readability, as an analyzer finds them. -/
def checkReadability (analyzer : Analyzer) (t : Text) : List Issue :=
  (analyzer t .prose).map fun r =>
    { rule := .readability, severity := .info, start := r.start, stop := r.start + r.length
      message := "Readability issue: ".toList ++ r.reason
      suggestion := some "Consider revising for clarity".toList }

/-! ## All rules -/

/-- Which rules apply. -/
structure StyleChecks where
  weakWords : Bool := true
  passiveVoice : Bool := true
  terminology : Bool := true
  contractions : Bool := true
  prohibited : Bool := true
  genderNeutral : Bool := true
  readability : Bool := true
  deriving DecidableEq, Repr, Inhabited

namespace StyleChecks

/-- No rule applies. -/
def none : StyleChecks :=
  ⟨false, false, false, false, false, false, false⟩

/-- Whether no rule applies. -/
def isEmpty (checks : StyleChecks) : Bool :=
  checks == .none

end StyleChecks

/-- The issues of all rules that apply, rule by rule. -/
def check (checks : StyleChecks) (analyzer : Analyzer) (t : Text) : List Issue :=
  let issues (on : Bool) (found : Text → List Issue) := if on then found t else []
  issues checks.weakWords checkWeakWords
    ++ issues checks.passiveVoice (checkPassiveVoice analyzer)
    ++ issues checks.terminology checkTerminology
    ++ issues checks.contractions checkContractions
    ++ issues checks.prohibited checkProhibited
    ++ issues checks.genderNeutral checkGenderNeutral
    ++ issues checks.readability (checkReadability analyzer)

end CodeProse.Style

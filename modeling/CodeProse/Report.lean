/-
# Reports

A report is an issue in the coordinates of its file, with the message that is shown and the fix that
may be applied. `applyFixes` puts the fixes of a file's reports into the file.
-/
import CodeProse.Correction
import CodeProse.Template

namespace CodeProse

/-- Puts `text` in the place of the bytes from `start` to `stop` of a file. -/
structure Fix where
  start : Nat
  stop : Nat
  text : Text
  deriving DecidableEq, Repr, Inhabited

/-- What a report says about its issue; message templates draw on it. -/
structure ReportData where
  /-- The text that the issue covers. -/
  word : Text
  /-- The kind of unit that holds it. -/
  unit : Text
  /-- The message of the issue. -/
  message : Text
  suggestion : Option Text
  deriving DecidableEq, Repr, Inhabited

/-- The entries of the data with their names, sorted by name. -/
def ReportData.entries (data : ReportData) : List (Text × Text) :=
  ("message".toList, data.message) ::
    (match data.suggestion with
      | some s => [("suggestion".toList, s)]
      | none => []) ++
    [("unit".toList, data.unit), ("word".toList, data.word)]

/-- The entry with the given name. -/
def ReportData.find? (data : ReportData) (name : Text) : Option Text :=
  data.entries.lookup name

/-- An issue in the coordinates of its file. -/
structure Report where
  rule : Rule
  severity : Severity
  message : Text
  data : ReportData
  start : Nat
  stop : Nat
  fix : Option Fix
  deriving DecidableEq, Repr, Inhabited

/-! ## From issues to reports -/

/-- A placeholder of a message template. -/
def placeholder (name : String) : Text :=
  Template.openMark ++ name.toList ++ Template.closeMark

/-- The template of an issue's message. A suggestion that only repeats the replacement is not
shown. -/
def messageTemplate (issue : Issue) : Text :=
  let hint := issue.suggestion.isSome && issue.suggestion != issue.replacement
  match issue.rule, hint with
  | .spelling, true =>
    "You have a misspelled word: ".toList ++ placeholder "word" ++ " on ".toList
      ++ placeholder "unit" ++ ". ".toList ++ placeholder "suggestion"
  | .spelling, false =>
    "You have a misspelled word: ".toList ++ placeholder "word" ++ " on ".toList
      ++ placeholder "unit" ++ ".".toList
  | _, true => placeholder "message" ++ " (".toList ++ placeholder "suggestion" ++ ")".toList
  | _, false => placeholder "message"

/-- The range that the fix of an issue covers in its unit. A deletion takes a blank with it. -/
def fixRange (issue : Issue) (unit : Text) : Nat × Nat :=
  match issue.replacement with
  | some [] => deletionRange unit issue.start issue.stop
  | _ => (issue.start, issue.stop)

/-- The report of an issue of a unit that starts at `offset` in its file. -/
def Report.ofIssue (unit : Text) (kind : UnitKind) (offset : Nat) (issue : Issue) : Report :=
  let data : ReportData :=
    { word := (Text.slice? issue.start issue.stop unit).getD []
      unit := kind.name
      message := issue.message
      suggestion := issue.suggestion }
  { rule := issue.rule
    severity := issue.severity
    message := Template.render data.find? (messageTemplate issue)
    data := data
    start := offset + issue.start
    stop := offset + issue.stop
    fix := issue.replacement.map fun text =>
      let range := fixRange issue unit
      ⟨offset + range.1, offset + range.2, text⟩ }

/-! ## Applying fixes -/

/-- Puts fixes into a draft, one after the other; a fix that does not fit is left out. The number
counts those that went in. -/
def applyEach : Draft → List Fix → Draft × Nat
  | d, [] => (d, 0)
  | d, f :: rest =>
    match d.replace? f.start f.stop f.text with
    | some d' =>
      let r := applyEach d' rest
      (r.1, r.2 + 1)
    | none => applyEach d rest

/-- The fixes in the order in which they are applied: from the end of the file backwards. -/
def orderedFixes (reports : List Report) : List Fix :=
  (reports.filterMap (·.fix)).mergeSort fun a b => laterFirst (a.start, a.stop) (b.start, b.stop)

/-- The file with the fixes of its reports, and how many of them were applied. One that overlaps a
fix already applied is left out. -/
def applyFixes (content : Text) (reports : List Report) : Text × Nat :=
  let r := applyEach (.ofText content) (orderedFixes reports)
  (r.1.text, r.2)

end CodeProse

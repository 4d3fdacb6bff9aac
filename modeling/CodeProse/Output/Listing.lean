/-
# Listings

What is printed about the files of a run: their reports as text or as JSON, and a summary of what was
found or fixed.
-/
import CodeProse.Json.Writer
import CodeProse.Output.Terminal
import CodeProse.Position
import CodeProse.Report

namespace CodeProse.Output

/-- The forms of a listing. -/
inductive Format where
  | text
  | json
  deriving DecidableEq, Repr, Inhabited

/-- Everything found in one file. -/
structure FileReport where
  path : Text
  content : Text
  reports : List Report
  deriving Repr, Inhabited

/-- The position of a byte offset in the file. -/
def FileReport.position (file : FileReport) (offset : Nat) : Position :=
  .ofOffset file.content offset

/-! ## Text -/

/-- A text, filled with blanks to the given width. -/
def padRight (width : Nat) (t : Text) : Text :=
  t ++ List.replicate (width - t.length) ' '

/-- A severity, as wide as the longest. -/
def severityLabel (color : Bool) (severity : Severity) : Text :=
  let look : Look :=
    match severity with
    | .info => .info
    | .warning => .warning
    | .error => .error
  paint color look (padRight 7 severity.name)

/-- The lines of a report: where and what it is, and its fix. -/
def reportLines (color : Bool) (file : FileReport) (r : Report) : Text :=
  let p := file.position r.start
  let place := Text.ofNat p.line ++ ':' :: Text.ofNat p.column
  let fix :=
    match r.fix with
    | some f =>
      let text := if f.text.isEmpty then "(remove)".toList else f.text
      "    ".toList ++ paint color .faint ['→'] ++ ' ' :: paint color .fixText text ++ ['\n']
    | none => []
  "  ".toList ++ paint color .place place ++ ' ' :: severityLabel color r.severity
    ++ ' ' :: r.message ++ ' ' :: paint color .faint r.rule.name ++ '\n' :: fix

/-- A file with its reports, if it has any. -/
def fileLines (color : Bool) (file : FileReport) : Text :=
  if file.reports.isEmpty then []
  else
    '\n' :: paint color .fileName file.path ++ '\n' ::
      file.reports.flatMap (reportLines color file)

/-! ## JSON -/

/-- A report as an object. -/
def reportJson (file : FileReport) (r : Report) : Json :=
  let first := file.position r.start
  let last := file.position r.stop
  let fix :=
    match r.fix with
    | some f =>
      [("fix", Json.ofMembers [("range_start", .ofNat f.start), ("range_end", .ofNat f.stop),
        ("text", .string f.text)])]
    | none => []
  .ofMembers ([("file", .string file.path), ("line", .ofNat first.line),
    ("column", .ofNat first.column), ("end_line", .ofNat last.line),
    ("end_column", .ofNat last.column), ("rule", .string r.rule.name),
    ("severity", .string r.severity.name), ("message", .string r.message),
    ("data", .object (r.data.entries.map fun e => (e.1, .string e.2))),
    ("loc_start", .ofNat r.start), ("loc_end", .ofNat r.stop)] ++ fix)

/-- All reports as one object. -/
def listingJson (files : List FileReport) : Json :=
  let issues := files.flatMap fun file => file.reports.map (reportJson file)
  .ofMembers [("files_checked", .ofNat files.length), ("total_issues", .ofNat issues.length),
    ("issues", .array issues)]

/-- The listing of the reports of all files. -/
def listing (format : Format) (color : Bool) (files : List FileReport) : Text :=
  match format with
  | .text => files.flatMap (fileLines color)
  | .json => (listingJson files).pretty ++ ['\n']

/-! ## Summaries -/

/-- A word in the number that goes with a count. -/
def plural (count : Nat) (word : String) : Text :=
  if count = 1 then word.toList else word.toList ++ ['s']

/-- A mark, a count, what is counted, and in how many files. -/
def countLine (color : Bool) (look : Look) (mark : Char) (count : Nat) (what verb : String)
    (files : Nat) : Text :=
  paint color look [mark] ++ ' ' :: paint color look (Text.ofNat count) ++ ' ' ::
    plural count what ++ ' ' :: verb.toList ++ ' ' :: Text.ofNat files ++ ' ' ::
    plural files "file" ++ ['\n']

/-- What was found in how many files. -/
def checkSummary (color : Bool) (total files : Nat) : Text :=
  '\n' ::
    if total = 0 then paint color .good "✓ No writing issues found!".toList ++ ['\n']
    else countLine color .bad '✗' total "issue" "found in" files

/-- What was fixed in how many files. -/
def fixSummary (color : Bool) (total files : Nat) : Text :=
  '\n' ::
    if total = 0 then paint color .good "No corrections needed!".toList ++ ['\n']
    else countLine color .good '✓' total "correction" "applied to" files

end CodeProse.Output

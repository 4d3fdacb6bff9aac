/-
# Editing in place

Corrections and fixes can be written without drafts: as loops that edit a string in place, at byte
offsets, while a floor tells down to where the string is still as it was given. Written so, much can
go wrong. A slice may be taken, or a range replaced, past the end of the string, inside of a
character or the wrong way round, and offsets have 64 bits (`Fault`). The ranges come from issues and
fixes of which nothing is known, they are compared with the text as given or with the string as
edited so far, and deletions reach a byte beyond them.

Both loops are `run`, which tells of each of its turns the string that it finds and the range that it
replaces.
-/
import Mathlib.Algebra.Group.Nat.Defs
import CodeProse.Report
import CodeProse.Proofs.Fault

namespace CodeProse.InPlace

open Unicode (isWhitespace)

/-- What can go wrong. -/
inductive Fault where
  /-- A range that is reversed, or that begins or ends past the text or inside of a character. -/
  | range
  /-- A sum that takes more than 64 bits, or a difference below zero. -/
  | overflow
  deriving DecidableEq, Repr, Inhabited

/-! ## Offsets and ranges -/

/-- The sum of two offsets. -/
def add (a b : Nat) : Except Fault Nat :=
  if a + b < 2 ^ 64 then .ok (a + b) else .error .overflow

/-- The difference of two offsets. -/
def sub (a b : Nat) : Except Fault Nat :=
  if b ≤ a then .ok (a - b) else .error .overflow

/-- A text between two offsets. -/
def slice (t : Text) (start stop : Nat) : Except Fault Text :=
  match Text.slice? start stop t with
  | some m => .ok m
  | none => .error .range

/-- A text with a range replaced. -/
def replaceRange (t : Text) (start stop : Nat) (new : Text) : Except Fault Text := do
  let _ ← slice t start stop
  return (← slice t 0 start) ++ new ++ (← slice t stop t.byteLength)

/-- The range that a deletion really takes: with it goes one of two blanks around it, a blank at the
start of the text, or a blank in front of punctuation. -/
def deletionRange (t : Text) (start stop : Nat) : Except Fault (Nat × Nat) := do
  let before ← slice t 0 start
  let after ← slice t stop t.byteLength
  if after.head? == some ' ' && (before.getLast? == some ' ' || start == 0) then
    return (start, ← add stop 1)
  else if before.getLast? == some ' ' && after.head?.any Draft.hugsLeft then
    return (← sub start 1, stop)
  else return (start, stop)

/-! ## The loop -/

/-- A text in the middle of a loop that edits it. All below the floor is still as it was given. -/
structure State where
  text : Text
  floor : Nat
  deriving DecidableEq, Repr, Inhabited

/-- The text as given. -/
def State.ofText (t : Text) : State :=
  ⟨t, t.byteLength⟩

/-- Replaces a range; the floor falls to where it starts. -/
def State.replace (s : State) (range : Nat × Nat) (new : Text) : Except Fault State := do
  return ⟨← replaceRange s.text range.1 range.2 new, range.1⟩

/-- One turn of a loop: its item, the state that it finds and the range that it replaces, if any. -/
structure Turn (α : Type) where
  item : α
  state : State
  replaced : Option (Nat × Nat)
  deriving DecidableEq, Repr, Inhabited

/-- Edits a text for each item of a row. `range` is the range that an item replaces, if any, and
`new` what it puts there. -/
def run {α : Type} (range : State → α → Except Fault (Option (Nat × Nat))) (new : α → Text) :
    State → List α → Except Fault (List (Turn α) × State)
  | s, [] => return ([], s)
  | s, item :: rest => do
    let replaced ← range s item
    let next ←
      match replaced with
      | some r => s.replace r (new item)
      | none => pure s
    let (turns, last) ← run range new next rest
    return (⟨item, s, replaced⟩ :: turns, last)

/-- The items that replaced something. -/
def used {α : Type} (turns : List (Turn α)) : List α :=
  (turns.filter (·.replaced.isSome)).map (·.item)

/-! ## Fixes -/

/-- The range of a fix, if it is in order and below the floor and fits the text as edited so far. -/
def fixRange (s : State) (f : Fix) : Except Fault (Option (Nat × Nat)) :=
  if f.stop < f.start ∨ s.floor < f.stop ∨ Text.isBoundary f.start s.text = false ∨
      Text.isBoundary f.stop s.text = false then
    .ok none
  else .ok (some (f.start, f.stop))

/-- Applies the fixes of reports to a file. -/
def applyFixes (content : Text) (reports : List Report) :
    Except Fault (List (Turn Fix) × Text × Nat) := do
  let (turns, last) ← run fixRange (·.text) (.ofText content) (orderedFixes reports)
  return (turns, last.text, (used turns).length)

/-! ## Reports -/

/-- The range that the fix of an issue covers in its unit. -/
def issueRange (unit : Text) (issue : Issue) : Except Fault (Nat × Nat) :=
  if issue.replacement = some [] ∧ issue.start ≤ issue.stop ∧
      Text.isBoundary issue.start unit = true ∧ Text.isBoundary issue.stop unit = true then
    deletionRange unit issue.start issue.stop
  else .ok (issue.start, issue.stop)

/-- The fix of an issue of a unit that starts at `offset` in its file. -/
def fixOf (unit : Text) (offset : Nat) (issue : Issue) (text : Text) : Except Fault Fix := do
  let range ← issueRange unit issue
  return ⟨← add offset range.1, ← add offset range.2, text⟩

/-- The report of an issue. The word that the issue covers is left empty where its range does not
fit the unit, and the rest is taken over or rendered without offsets. -/
def report (unit : Text) (kind : UnitKind) (offset : Nat) (issue : Issue) :
    Except Fault Report := do
  let start ← add offset issue.start
  let stop ← add offset issue.stop
  let fix ← issue.replacement.mapM (fixOf unit offset issue)
  return { Report.ofIssue unit kind offset issue with start := start, stop := stop, fix := fix }

/-! ## Sentences -/

/-- A range of a text without the white space at its ends, if anything is left of it. -/
def trimmed (t : Text) (start stop : Nat) : Except Fault (List (Nat × Nat)) := do
  let fragment ← slice t start stop
  let leading ← sub fragment.byteLength (Text.trimStart fragment).byteLength
  if (Text.trim fragment).isEmpty then return []
  else return [(start + leading, start + leading + (Text.trim fragment).byteLength)]

/-- The ranges of the sentences of a text of which all but `rest` has been read, up to `pos`, with
the open sentence starting at `start`. Whether the last character may end a sentence is `ended`. -/
def spansFrom (t : Text) (start pos : Nat) (ended : Bool) : Text → Except Fault (List (Nat × Nat))
  | [] => trimmed t start t.byteLength
  | c :: rest =>
    if isWhitespace c && ended then do
      let span ← trimmed t start pos
      return span ++ (← spansFrom t pos (pos + c.utf8Size) (Text.endsSentence c) rest)
    else spansFrom t start (pos + c.utf8Size) (Text.endsSentence c) rest

/-- The ranges of the sentences of a text. -/
def spans (t : Text) : Except Fault (List (Nat × Nat)) :=
  spansFrom t 0 0 false t

/-- The sentences that differ from their corrected form by more than white space. -/
def changedSentences (given : Text) :
    List (Nat × Nat) → List Text → Except Fault (List SentenceCorrection)
  | span :: olds, new :: news => do
    let before ← slice given span.1 span.2
    let later ← changedSentences given olds news
    if before.collapse = new then return later
    else
      return ⟨.sentence, before, new, span.1, span.2, Correction.suggestionMessage new⟩ :: later
  | _, _ => return []

/-- Pairs the sentences of both texts by position. -/
def sentenceCorrections (given corrected : Text) : Except Fault (List SentenceCorrection) := do
  let olds ← spans given
  let news ← (← spans corrected).mapM fun span => slice corrected span.1 span.2
  let changed ← if olds.length = news.length then changedSentences given olds news else pure []
  if changed.isEmpty then
    return [⟨.fullText, given, corrected, 0, given.byteLength,
      Correction.suggestionMessage corrected⟩]
  else return changed

/-! ## Corrections -/

/-- The range that an edit replaces: it must cover something below the floor that fits the text as
given, and a deletion reaches as far as the text as edited so far makes it. -/
def editRange (given : Text) (s : State) (e : Correction.Edit) :
    Except Fault (Option (Nat × Nat)) := do
  if e.stop ≤ e.start ∨ s.floor < e.stop ∨ Text.isBoundary e.start given = false ∨
      Text.isBoundary e.stop given = false then
    return none
  else if e.text.isEmpty then return some (← deletionRange s.text e.start e.stop)
  else return some (e.start, e.stop)

/-- What comes of a text once the edits with the given places have been made. -/
def correctionOf (given : Text) (issues : List Issue) (places : List Nat) (edited : Text) :
    Except Fault Correction := do
  let issues := Correction.keepUsed places 0 issues
  if places.isEmpty then return ⟨issues, none, given, []⟩
  else
    let corrected := edited.collapse
    let sentences ← if corrected = given then pure [] else sentenceCorrections given corrected
    return ⟨issues, some corrected, given, sentences⟩

/-- Makes the replacements of a list of issues. -/
def reconcile (given : Text) (issues : List Issue) :
    Except Fault (List (Turn Correction.Edit) × Correction) := do
  let (turns, last) ←
    run (editRange given) (·.text) (.ofText given) (Correction.orderedEdits issues)
  let correction ← correctionOf given issues ((used turns).map (·.place)) last.text
  return (turns, correction)

end CodeProse.InPlace

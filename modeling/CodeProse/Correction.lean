/-
# Corrections

Reconciling the issues of a unit: as many of their replacements as possible go into one corrected
text. A replacement that does not fit, or that overlaps one already made, is dropped from its issue.
From the corrected text come corrections of single sentences, or one of the whole text where the
sentences cannot be paired.
-/
import CodeProse.Draft
import CodeProse.Issue
import CodeProse.Text.Sentence

namespace CodeProse

/-- What a sentence correction covers. -/
inductive CorrectionScope where
  | sentence
  | fullText
  deriving DecidableEq, Repr, Inhabited

/-- A sentence, or the whole text, before and after correction. -/
structure SentenceCorrection where
  scope : CorrectionScope
  given : Text
  corrected : Text
  start : Nat
  stop : Nat
  message : Text
  deriving DecidableEq, Repr, Inhabited

/-- The outcome of checking one unit. -/
structure Correction where
  /-- The issues; those whose replacement was not used have none. -/
  issues : List Issue
  /-- The corrected text, if any replacement was used. -/
  corrected : Option Text
  given : Text
  sentences : List SentenceCorrection
  deriving DecidableEq, Repr, Inhabited

namespace Correction

/-! ## Choosing the replacements -/

/-- An issue with a replacement, known by its place in the list of issues. -/
structure Edit where
  place : Nat
  start : Nat
  stop : Nat
  text : Text
  deriving DecidableEq, Repr, Inhabited

/-- The edits that a list of issues asks for; the first issue has the place `place`. -/
def editsFrom (place : Nat) : List Issue → List Edit
  | [] => []
  | issue :: rest =>
    match issue.replacement with
    | some text => ⟨place, issue.start, issue.stop, text⟩ :: editsFrom (place + 1) rest
    | none => editsFrom (place + 1) rest

/-- The edits in the order in which they are made. -/
def orderedEdits (issues : List Issue) : List Edit :=
  (editsFrom 0 issues).mergeSort fun a b => laterFirst (a.start, a.stop) (b.start, b.stop)

/-- Makes an edit: it must cover something, and all it covers must still be untouched. -/
def make? (d : Draft) (e : Edit) : Option Draft :=
  if e.start < e.stop then
    if e.text.isEmpty then d.delete? e.start e.stop else d.replace? e.start e.stop e.text
  else none

/-- Makes the edits that can be made, one after the other, and collects their places. -/
def applyAll : Draft → List Edit → Draft × List Nat
  | d, [] => (d, [])
  | d, e :: rest =>
    match make? d e with
    | some d' =>
      let r := applyAll d' rest
      (r.1, e.place :: r.2)
    | none => applyAll d rest

/-- Takes the replacement from every issue whose place is not among the used ones. -/
def keepUsed (used : List Nat) (place : Nat) : List Issue → List Issue
  | [] => []
  | issue :: rest =>
    (if used.contains place then issue else { issue with replacement := none })
      :: keepUsed used (place + 1) rest

/-! ## Sentences -/

/-- The wording of a proposed correction. -/
def suggestionMessage (t : Text) : Text :=
  "Suggested correction: \"".toList ++ t ++ "\"".toList

/-- The sentences that differ from their corrected form by more than white space. -/
def changedSentences : List Span → List Span → List SentenceCorrection
  | before :: olds, after :: news =>
    let later := changedSentences olds news
    if before.text.collapse = after.text then later
    else
      ⟨.sentence, before.text, after.text, before.start, before.stop, suggestionMessage after.text⟩
        :: later
  | _, _ => []

/-- Pairs the sentences of both texts by position; when that finds nothing, the whole text is the
correction. -/
def sentenceCorrections (given corrected : Text) : List SentenceCorrection :=
  let olds := given.sentences
  let news := corrected.sentences
  let changed := if olds.length = news.length then changedSentences olds news else []
  if changed.isEmpty then
    [⟨.fullText, given, corrected, 0, given.byteLength, suggestionMessage corrected⟩]
  else changed

end Correction

open Correction in
/-- Makes the replacements of a list of issues, from the end of the text backwards, and derives the
corrected text and the corrected sentences. -/
def reconcile (given : Text) (issues : List Issue) : Correction :=
  let result := applyAll (.ofText given) (orderedEdits issues)
  let issues := keepUsed result.2 0 issues
  if result.2.isEmpty then ⟨issues, none, given, []⟩
  else
    let corrected := result.1.text.collapse
    ⟨issues, some corrected, given,
      if corrected = given then [] else sentenceCorrections given corrected⟩

end CodeProse

/-
# Nothing goes wrong in place

Reconciling issues in place, reporting them and applying the fixes of any reports come to their end
without a fault, whatever the issues and fixes cover, and with the results of their forms over drafts
(`inBounds_of_small`). The loops are those of `exists_run_eq`; what remains are the slices and sums
outside of the loops: those of the reports, of which only sums can grow beyond 64 bits, and those of
the sentences, which stand one behind the other between the offsets at which they are cut.
-/
import Mathlib.Data.List.Permutation
import CodeProse.Proofs.InPlace.Run
import CodeProse.Proofs.Widening

namespace CodeProse.InPlace

open Correction (spanRange)

/-! ## Reports -/

/-- A range that does not fit its text is left as it is. -/
theorem deletionRange_of_not_fits {t : Text} {start stop : Nat}
    (h : Text.slice? start stop t = none) : CodeProse.deletionRange t start stop = (start, stop) := by
  have ha : (Draft.ofText t).around? start stop = none := by
    rw [← Option.not_isSome_iff_eq_none, Draft.isSome_around?, Draft.before_ofText, h]
    simp
  rw [CodeProse.deletionRange, ha]

/-- A deletion reaches at most one byte further. -/
theorem deletionRange_le (t : Text) (start stop : Nat) :
    (CodeProse.deletionRange t start stop).1 ≤ start ∧
      (CodeProse.deletionRange t start stop).2 ≤ stop + 1 := by
  cases hslice : Text.slice? start stop t with
  | none =>
    rw [deletionRange_of_not_fits hslice]
    exact ⟨Nat.le_refl _, Nat.le_succ _⟩
  | some gone =>
    obtain ⟨left, right, ht, hl, hg⟩ := (Text.slice?_eq_some_iff _ _ _ _).1 hslice
    rcases deletionRange_cases ht hl hg with
      ⟨hrange, -⟩ | ⟨right', -, hrange, -⟩ | ⟨left', rfl, hrange, -⟩
    · rw [hrange]
      exact ⟨Nat.le_refl _, Nat.le_succ _⟩
    · rw [hrange]
      exact ⟨Nat.le_refl _, Nat.le_refl _⟩
    · rw [hrange, ← hl, Text.byteLength_append]
      exact ⟨Nat.le_add_right _ _, Nat.le_succ _⟩

theorem issueRange_eq (unit : Text) {issue : Issue} (hsmall : issue.stop < 2 ^ 63) :
    issueRange unit issue = .ok (CodeProse.fixRange issue unit) := by
  rw [issueRange, CodeProse.fixRange]
  cases hr : issue.replacement with
  | none => rfl
  | some text =>
    cases text with
    | cons c text => rfl
    | nil =>
      simp only [true_and, ← Text.isSome_slice?_iff]
      split
      case isTrue hfits =>
        obtain ⟨gone, hslice⟩ := Option.isSome_iff_exists.1 hfits
        obtain ⟨left, right, ht, hl, hg⟩ := (Text.slice?_eq_some_iff _ _ _ _).1 hslice
        exact deletionRange_eq ht hl hg (by omega)
      case isFalse hnot =>
        rw [deletionRange_of_not_fits (Option.not_isSome_iff_eq_none.1 hnot)]

theorem fixRange_le (unit : Text) (issue : Issue) :
    (CodeProse.fixRange issue unit).1 ≤ issue.start ∧
      (CodeProse.fixRange issue unit).2 ≤ issue.stop + 1 := by
  rw [CodeProse.fixRange]
  split
  · exact deletionRange_le unit issue.start issue.stop
  · exact ⟨Nat.le_refl _, Nat.le_succ _⟩

/-- An issue is reported without a fault. -/
theorem report_eq (unit : Text) (kind : UnitKind) {offset : Nat} {issue : Issue}
    (hoffset : offset < 2 ^ 63) (hstart : issue.start < 2 ^ 63) (hstop : issue.stop < 2 ^ 63) :
    report unit kind offset issue = .ok (Report.ofIssue unit kind offset issue) := by
  have hrange := fixRange_le unit issue
  have hfix : ∀ text, fixOf unit offset issue text
      = .ok ⟨offset + (CodeProse.fixRange issue unit).1, offset + (CodeProse.fixRange issue unit).2,
        text⟩ := by
    intro text
    rw [fixOf, issueRange_eq unit hstop, ok_bind, add_eq (by omega), add_eq (by omega)]
    rfl
  rw [report, add_eq (by omega), add_eq (by omega)]
  simp only [ok_bind]
  cases hr : issue.replacement with
  | none => simp [Report.ofIssue, hr]
  | some text => simp [Report.ofIssue, hr, hfix]

/-! ## Sentences -/

/-- The trimmed pieces of a row are that of the first one and those of the others. -/
theorem trimmedSpans_cons (offset : Nat) (piece : Text) (rest : List Text) :
    Text.trimmedSpans offset (piece :: rest)
      = Text.trimmedSpans offset [piece]
        ++ Text.trimmedSpans (offset + piece.byteLength) rest := by
  simp only [Text.trimmedSpans]
  split <;> rfl

theorem trimmed_eq {t lead piece rest : Text} {start stop : Nat} (ht : t = lead ++ piece ++ rest)
    (hstart : lead.byteLength = start) (hstop : start + piece.byteLength = stop) :
    trimmed t start stop = .ok ((Text.trimmedSpans start [piece]).map spanRange) := by
  rw [trimmed, slice_eq (slice_middle ht hstart hstop), ok_bind,
    sub_eq (Text.byteLength_trimStart_le piece), ok_bind, Text.trimmedSpans]
  split
  case isTrue hempty => simp [Text.trimmedSpans]
  case isFalse hne => simp [Text.trimmedSpans, spanRange]

/-- The sentences of the rest of a text, with the open one in front, are the trimmed pieces. -/
theorem spansFrom_eq {t lead piece rest : Text} {start pos : Nat} {ended : Bool}
    {p : Text} {ps : List Text} (ht : t = lead ++ piece ++ rest) (hstart : lead.byteLength = start)
    (hpos : start + piece.byteLength = pos) (hpieces : Text.sentencePieces ended rest = p :: ps) :
    spansFrom t start pos ended rest
      = .ok ((Text.trimmedSpans start ((piece ++ p) :: ps)).map spanRange) := by
  induction rest generalizing lead piece start pos ended p ps with
  | nil =>
    obtain ⟨rfl, rfl⟩ := List.cons.inj hpieces
    have hend : t.byteLength = pos := by
      simp only [ht, Text.byteLength_append, Text.byteLength_nil]
      omega
    rw [spansFrom, hend, trimmed_eq ht hstart hpos, List.append_nil]
  | cons c rest ih =>
    obtain ⟨q, qs, hq, hcons⟩ := Text.sentencePieces_cons ended c rest
    rw [hcons] at hpieces
    rw [spansFrom]
    split at hpieces
    case isTrue hcut =>
      -- the open sentence ends here, and the next one starts with the white space
      obtain ⟨rfl, rfl⟩ := List.cons.inj hpieces
      have hnext := @ih (lead ++ piece) [c] pos (pos + c.utf8Size) (Text.endsSentence c) q qs
        (by simp [ht]) (by rw [Text.byteLength_append, hstart, hpos]) (by simp) hq
      have hfirst := trimmedSpans_cons start piece ((c :: q) :: qs)
      rw [hpos] at hfirst
      rw [if_pos hcut, trimmed_eq ht hstart hpos, ok_bind, hnext, List.append_nil, hfirst,
        List.map_append]
      rfl
    case isFalse hgoesOn =>
      obtain ⟨rfl, rfl⟩ := List.cons.inj hpieces
      have hnext := @ih lead (piece ++ [c]) start (pos + c.utf8Size) (Text.endsSentence c) q qs
        (by simp [ht]) hstart (by simp [← hpos, Nat.add_assoc]) hq
      rw [if_neg hgoesOn, hnext, List.append_assoc]
      rfl

/-- The sentences of a text are found without a fault. -/
theorem spans_eq (t : Text) : spans t = .ok (t.sentences.map spanRange) := by
  obtain ⟨p, ps, hp⟩ := List.exists_cons_of_ne_nil (Text.sentencePieces_ne_nil false t)
  rw [spans, @spansFrom_eq t [] [] t 0 0 false p ps rfl rfl rfl hp, Text.sentences, hp]
  rfl

theorem mapM_slice_eq {t : Text} {news : List Span}
    (h : ∀ s ∈ news, Text.slice? s.start s.stop t = some s.text) :
    (news.map spanRange).mapM (fun span => slice t span.1 span.2) = .ok (news.map (·.text)) := by
  induction news with
  | nil => rfl
  | cons s rest ih =>
    have hslice : slice t (spanRange s).1 (spanRange s).2 = .ok s.text :=
      slice_eq (h s List.mem_cons_self)
    rw [List.map_cons, List.mapM_cons, hslice, ok_bind,
      ih fun x hx => h x (List.mem_cons_of_mem s hx)]
    rfl

theorem changedSentences_eq {given : Text} {olds : List Span} (news : List Span)
    (h : ∀ s ∈ olds, Text.slice? s.start s.stop given = some s.text) :
    changedSentences given (olds.map spanRange) (news.map (·.text))
      = .ok (Correction.changedSentences olds news) := by
  induction olds generalizing news with
  | nil => rfl
  | cons old olds ih =>
    cases news with
    | nil => rfl
    | cons new news =>
      have hslice : slice given (spanRange old).1 (spanRange old).2 = .ok old.text :=
        slice_eq (h old List.mem_cons_self)
      rw [List.map_cons, List.map_cons, changedSentences, hslice, ok_bind,
        ih news fun x hx => h x (List.mem_cons_of_mem old hx), ok_bind,
        Correction.changedSentences]
      split <;> rfl

/-- The corrections of sentences are found without a fault. -/
theorem sentenceCorrections_eq (given corrected : Text) :
    sentenceCorrections given corrected = .ok (Correction.sentenceCorrections given corrected) := by
  have hslice : ∀ t : Text, ∀ s ∈ t.sentences, Text.slice? s.start s.stop t = some s.text :=
    fun t s hs => (Text.sentence_slice hs).2
  rw [sentenceCorrections, spans_eq, ok_bind, spans_eq, ok_bind,
    mapM_slice_eq (hslice corrected), ok_bind, changedSentences_eq _ (hslice given),
    Correction.sentenceCorrections]
  simp only [List.length_map]
  split
  · simp only [ok_bind]
    split <;> rfl
  · rfl

/-! ## Corrections and fixes -/

/-- A correction is found without a fault. -/
theorem correctionOf_eq (given : Text) (issues : List Issue) :
    correctionOf given issues
        (Correction.applyAll (.ofText given) (Correction.orderedEdits issues)).2
        (Correction.applyAll (.ofText given) (Correction.orderedEdits issues)).1.text
      = .ok (CodeProse.reconcile given issues) := by
  rw [correctionOf, CodeProse.reconcile]
  simp only
  split
  case isTrue => rfl
  case isFalse =>
    split
    case isTrue => rfl
    case isFalse =>
      rw [sentenceCorrections_eq]
      rfl

/-- Reconciling in place has no fault and stays in bounds. -/
theorem exists_reconcile_eq {issues : List Issue} (given : Text)
    (hsmall : ∀ i ∈ issues, i.stop < 2 ^ 63) :
    ∃ turns, reconcile given issues = .ok (turns, CodeProse.reconcile given issues) ∧
      ∀ turn ∈ turns, turn.InBounds given := by
  have hedits : ∀ e ∈ Correction.orderedEdits issues, e.stop < 2 ^ 63 := by
    intro e he
    obtain ⟨k, i, hi, -, -, -, hstop⟩ :=
      (Correction.mem_editsFrom_iff _ _ _).1 ((Correction.mem_orderedEdits_iff _ _).1 he)
    rw [hstop]
    exact hsmall i (List.mem_of_getElem? hi)
  have hfollows : ∀ d : Draft, d.before <+: given → ∀ e ∈ Correction.orderedEdits issues,
      FollowsStep (editRange given) (·.text) Correction.make? d e :=
    fun d hd e he => followsStep_edit hd (hedits e he)
  obtain ⟨turns, hrun, hused, hbounds⟩ :=
    exists_run_eq (d := .ofText given) (List.prefix_refl given) hfollows
  have hcorrection := correctionOf_eq given issues
  rw [applyAll_eq_goThrough, ← hused] at hcorrection
  refine ⟨turns, ?_, hbounds⟩
  rw [reconcile, ofText_eq_ofDraft, hrun, ok_bind]
  exact congrArg (fun r => r >>= fun correction => .ok (turns, correction)) hcorrection

/-- Applying fixes in place has no fault and stays in bounds. -/
theorem exists_applyFixes_eq (content : Text) (reports : List Report) :
    ∃ turns, applyFixes content reports = .ok (turns, CodeProse.applyFixes content reports) ∧
      ∀ turn ∈ turns, turn.InBounds content := by
  have hfollows : ∀ d : Draft, d.before <+: content → ∀ f ∈ orderedFixes reports,
      FollowsStep fixRange (·.text) fixStep d f := fun d _ f _ => followsStep_fix d f
  obtain ⟨turns, hrun, hused, hbounds⟩ :=
    exists_run_eq (d := .ofText content) (List.prefix_refl content) hfollows
  refine ⟨turns, ?_, hbounds⟩
  rw [applyFixes, ofText_eq_ofDraft, hrun, ok_bind, CodeProse.applyFixes, applyEach_eq_goThrough]
  simp only [hused]
  rfl

/-- **Nothing goes wrong in place.**  Whatever issues cover, as long as their offsets are below
`2 ^ 63`, reconciling them and reporting them has no fault, and neither has applying the fixes of any
reports to any file. All turns of both loops stay in bounds, and the results are those of the forms
over drafts. -/
theorem inBounds_of_small (given : Text) (kind : UnitKind) (offset : Nat) (issues : List Issue)
    (hoffset : offset < 2 ^ 63) (hsmall : ∀ i ∈ issues, i.start < 2 ^ 63 ∧ i.stop < 2 ^ 63) :
    (∃ turns, reconcile given issues = .ok (turns, CodeProse.reconcile given issues) ∧
        ∀ turn ∈ turns, turn.InBounds given) ∧
      (∀ i ∈ issues ++ (CodeProse.reconcile given issues).issues,
        report given kind offset i = .ok (Report.ofIssue given kind offset i)) ∧
      ∀ content reports,
        ∃ turns, applyFixes content reports = .ok (turns, CodeProse.applyFixes content reports) ∧
          ∀ turn ∈ turns, turn.InBounds content := by
  refine ⟨exists_reconcile_eq given fun i hi => (hsmall i hi).2, fun i hi => ?_,
    exists_applyFixes_eq⟩
  have hrange : ∃ j ∈ issues, (j.start, j.stop) = (i.start, i.stop) := by
    rcases List.mem_append.1 hi with hi | hi
    · exact ⟨i, hi, rfl⟩
    · have hmem := List.mem_map_of_mem (f := fun i : Issue => (i.start, i.stop)) hi
      rw [Correction.map_reconcile fun _ => rfl] at hmem
      exact List.mem_map.1 hmem
  obtain ⟨j, hj, hrange⟩ := hrange
  obtain ⟨hstart, hstop⟩ := Prod.mk.inj hrange
  have hj := hsmall j hj
  exact report_eq given kind hoffset (by omega) (by omega)

/-- Deletions of two words of "é, just very.", and one that is reversed, one that begins inside of a
character, and one that ends far behind the text. -/
def strayDeletions : List Issue :=
  [weakWordAt 9 4, weakWordAt 1 4, weakWordAt 3 (2 ^ 63 - 1), weakWordAt 9 13, weakWordAt 4 8]

theorem orderedEdits_strayDeletions :
    Correction.orderedEdits strayDeletions
      = [⟨3, 9, 13, []⟩, ⟨0, 9, 4, []⟩, ⟨4, 4, 8, []⟩, ⟨2, 3, 2 ^ 63 - 1, []⟩, ⟨1, 1, 4, []⟩] := by
  cbv

/-- Stray offsets do no harm, while both words go, each with the blank in front of it. -/
theorem inBounds_of_stray_offsets :
    (∀ i ∈ strayDeletions, i.start < 2 ^ 63 ∧ i.stop < 2 ^ 63) ∧
      (CodeProse.reconcile "é, just very.".toList strayDeletions).corrected
        = some "é,.".toList ∧
      (∃ turns, reconcile "é, just very.".toList strayDeletions
          = .ok (turns, CodeProse.reconcile "é, just very.".toList strayDeletions) ∧
        ∀ turn ∈ turns, turn.InBounds "é, just very.".toList) ∧
      ∀ i ∈ strayDeletions, report "é, just very.".toList .comment 7 i
        = .ok (Report.ofIssue "é, just very.".toList .comment 7 i) := by
  have hsmall : ∀ i ∈ strayDeletions, i.start < 2 ^ 63 ∧ i.stop < 2 ^ 63 := by decide
  obtain ⟨hreconcile, hreport, -⟩ :=
    inBounds_of_small "é, just very.".toList .comment 7 strayDeletions (by decide) hsmall
  refine ⟨hsmall, ?_, hreconcile, fun i hi => hreport i (List.mem_append_left _ hi)⟩
  rw [Correction.reconcile_corrected, Correction.madeFor, orderedEdits_strayDeletions]
  decide +kernel

end CodeProse.InPlace

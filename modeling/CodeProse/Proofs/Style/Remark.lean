/-
# What remarks cover

Every remark of the built-in analyzer covers some whole characters of the text it is about
(`covers_of_mem_analyze`): remarks on phrases cover an occurrence, those on the passive voice and on
repeated words two neighbouring runs, and those on openers the words of the opener.
-/
import CodeProse.Proofs.Style.Opener
import CodeProse.Proofs.Style.Phrase
import CodeProse.Proofs.Text.Run

namespace CodeProse.Style

open Text (Covers slice?_eq_some_iff)
open Unicode

/-- A remark covers its passage. -/
def Remark.CoversIn (r : Remark) (t : Text) : Prop :=
  Covers t r.start (r.start + r.length)

/-! ## Phrases -/

/-- Remarks on phrases cover them. -/
theorem covers_of_mem_phraseRemarks {phrases : List Text} (hne : [] ∉ phrases) {comment : String}
    {t : Text} {r : Remark} (h : r ∈ phraseRemarks phrases comment t) : r.CoversIn t := by
  obtain ⟨o, ho, rfl⟩ := List.mem_map.1 h
  obtain ⟨-, phrase, hphrase, hoccurs⟩ := (mem_findAll_iff _ _ _).1 ho
  have hmem : phrase ∈ phrases := List.mem_of_getElem? hphrase
  exact hoccurs.covers fun hempty => hne (hempty ▸ hmem)

/-- No phrase to remark on is empty. -/
theorem nil_notMem_phrases : [] ∉ weaselWords ∧ [] ∉ adverbs ∧ [] ∉ wordyPhrases := by
  decide +kernel

/-! ## Neighbouring runs -/

/-- A remark covers two neighbouring runs of a list, with what is between them. -/
def Remark.Joins (r : Remark) (runs : List Run) : Prop :=
  ∃ a b, [a, b] <:+: runs ∧ r.start = a.start ∧
    r.length = Text.byteLength (a.text ++ b.gap ++ b.text)

theorem Remark.Joins.cons {r : Remark} {runs : List Run} (h : r.Joins runs) (a : Run) :
    r.Joins (a :: runs) := by
  obtain ⟨b, c, hinfix, hrange⟩ := h
  exact ⟨b, c, hinfix.trans (List.suffix_cons a runs).isInfix, hrange⟩

theorem joins_of_mem_passivePairs {runs : List Run} {r : Remark} (h : r ∈ passivePairs runs) :
    r.Joins runs := by
  fun_induction passivePairs runs with
  | case1 a b rest hpair passage ih =>
    rcases List.mem_cons.1 h with rfl | h
    · exact ⟨a, b, ⟨[], rest, rfl⟩, rfl, rfl⟩
    · exact ((ih h).cons b).cons a
  | case2 a b rest hpair ih => exact (ih h).cons a
  | case3 runs hrest => cases h

theorem joins_of_mem_repeatedPairs {runs : List Run} {r : Remark} (h : r ∈ repeatedPairs runs) :
    r.Joins runs := by
  fun_induction repeatedPairs runs with
  | case1 a b rest later hpair ih =>
    rcases List.mem_cons.1 h with rfl | h
    · exact ⟨a, b, ⟨[], rest, rfl⟩, rfl, rfl⟩
    · exact (ih h).cons a
  | case2 a b rest later hpair ih => exact (ih h).cons a
  | case3 runs hrest => cases h

/-- A remark on neighbouring runs of a text covers them. -/
theorem Remark.Joins.covers {p : Char → Bool} {t : Text} {r : Remark} (h : r.Joins (t.runs p)) :
    r.CoversIn t := by
  obtain ⟨a, b, hinfix, hstart, hlength⟩ := h
  have ha : a ∈ t.runs p := hinfix.subset List.mem_cons_self
  have hslice := Text.slice_of_adjacent hinfix
  obtain ⟨left, right, -, -, hstop⟩ := (slice?_eq_some_iff _ _ _ _).1 hslice
  refine ⟨a.text ++ b.gap ++ b.text, ?_, ?_⟩
  · simp [Text.text_ne_nil_of_mem_runs ha]
  · rw [hstart, hlength, hstop, hslice]

/-! ## Openers -/

/-- Remarks on openers cover their words. -/
theorem covers_of_mem_openers {opener : Opener} {isOpener : Text → Text → Prop} {more : Nat}
    (h : opener.Recognises isOpener more) (hmore : more ≤ 1) {comment : String} {t : Text}
    {r : Remark} (hr : r ∈ openersFrom opener comment 0 0 t) : r.CoversIn t := by
  obtain ⟨left, words, right, hopens, rfl, -⟩ := (mem_openers_iff h hmore comment t r).1 hr
  obtain ⟨c, words, rfl, -⟩ := h.visible _ _ hopens.words
  rw [hopens.split]
  exact Text.covers_of_append (List.cons_ne_nil _ _)

/-! ## All remarks -/

/-- **Every remark covers some whole characters of its text.** -/
theorem covers_of_mem_analyze {t : Text} {checks : ReadabilityChecks} {r : Remark}
    (h : r ∈ analyze t checks) : r.CoversIn t := by
  obtain ⟨hweasel, hadverb, hwordy⟩ := nil_notMem_phrases
  unfold analyze at h
  simp only [List.mem_mergeSort, List.mem_append, List.mem_ite_nil_right] at h
  rcases h with (((((⟨-, h⟩ | ⟨-, h⟩) | ⟨-, h⟩) | ⟨-, h⟩) | ⟨-, h⟩) | ⟨-, h⟩) | ⟨-, h⟩
  · exact (joins_of_mem_passivePairs h).covers
  · exact covers_of_mem_phraseRemarks hweasel h
  · exact (joins_of_mem_repeatedPairs h).covers
  · exact covers_of_mem_openers recognises_soOpener (Nat.le_refl 1) h
  · exact covers_of_mem_openers recognises_thereIsOpener (Nat.zero_le 1) h
  · exact covers_of_mem_phraseRemarks hadverb h
  · exact covers_of_mem_phraseRemarks hwordy h

end CodeProse.Style

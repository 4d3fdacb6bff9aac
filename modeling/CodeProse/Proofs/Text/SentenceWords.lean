/-
# Sentences of collapsed texts

The sentences of a text, read word by word, are runs of its words: a run stops behind each word that
ends as a sentence does (`map_words_sentences`). Collapsing keeps the words, so it keeps these runs,
and a sentence of a collapsed text is its words with one blank between them (`collapse_sentence`).
So splitting a text into sentences and collapsing it commute (`sentences_collapse`).
-/
import CodeProse.Proofs.Text.SentenceSplit
import Mathlib.Data.List.SplitBy

namespace CodeProse.Text

open Unicode (isWhitespace)

/-! ## Words in a sentence -/

/-- Whether a sentence goes on behind a word. -/
def goesOnBehind (w : Text) : Bool :=
  !w.getLast?.any endsSentence

theorem goesOnBehind_eq_false_iff (w : Text) : goesOnBehind w = false ↔ EndsSentence w := by
  rw [goesOnBehind, Bool.not_eq_false', Option.any_eq_true]
  rfl

theorem goesOnBehind_cons (c : Char) {w : Text} (h : w ≠ []) :
    goesOnBehind (c :: w) = goesOnBehind w := by
  rw [goesOnBehind, goesOnBehind, List.getLast?_cons_of_ne_nil h]

/-- A sentence goes on behind each of its words but the last. -/
theorem isChain_goesOnBehind {t : Text}
    (h : ∀ c d, [c, d] <:+: t → endsSentence c = true → isWhitespace d = false) :
    (words t).IsChain fun v _ => goesOnBehind v := by
  induction t with
  | nil => exact .nil
  | cons c t ih =>
    have hrest := ih fun a b hab => h a b (List.infix_cons hab)
    cases hc : isWhitespace c with
    | true => rwa [words_cons_of_isWhitespace t hc]
    | false =>
      rcases words_cons_of_not_isWhitespace t hc with ⟨hwords, hblank⟩ | ⟨w, ws, hw, hwords⟩
      · rw [hwords, List.isChain_cons]
        refine ⟨fun v hv => ?_, hrest⟩
        -- white space follows the word, so it is no end
        cases t with
        | nil => cases hv
        | cons d t =>
          have hd : isWhitespace d = true := hblank
          by_contra hends
          obtain ⟨e, he, hends⟩ := (goesOnBehind_eq_false_iff [c]).1 (by simpa using hends)
          obtain rfl : c = e := Option.some.inj he
          rw [h c d ⟨[], t, rfl⟩ hends] at hd
          cases hd
      · rw [hw] at hrest
        have hne : w ≠ [] := (mem_words (hw ▸ List.mem_cons_self)).1
        rw [hwords]
        rw [List.isChain_cons] at hrest ⊢
        rwa [goesOnBehind_cons c hne]

/-- The last word of a text that ends with no white space has its last character. -/
theorem getLast?_getLast?_words {t : Text} (hne : t ≠ [])
    (hlast : ∀ c ∈ t.getLast?, isWhitespace c = false) :
    (words t).getLast?.bind List.getLast? = t.getLast? := by
  induction t with
  | nil => exact absurd rfl hne
  | cons c t ih =>
    by_cases hnil : t = []
    · have hc : isWhitespace c = false := hlast c (by rw [hnil]; rfl)
      rw [hnil, words_of_visible (List.cons_ne_nil c []) (by simpa using hc)]
      rfl
    · rw [List.getLast?_cons_of_ne_nil hnil] at hlast ⊢
      have hrest := ih hnil hlast
      have hwordsNe : words t ≠ [] := by
        intro hwords
        rw [hwords, List.getLast?_nil, Option.bind_none, eq_comm, List.getLast?_eq_none_iff] at hrest
        exact hnil hrest
      cases hc : isWhitespace c with
      | true => rwa [words_cons_of_isWhitespace t hc]
      | false =>
        rcases words_cons_of_not_isWhitespace t hc with ⟨hwords, -⟩ | ⟨w, ws, hw, hwords⟩
        · rwa [hwords, List.getLast?_cons_of_ne_nil hwordsNe]
        · rw [hw] at hrest
          rw [hwords]
          cases ws with
          | nil =>
            have hwne : w ≠ [] := (mem_words (hw ▸ List.mem_cons_self)).1
            rw [← hrest]
            exact List.getLast?_cons_of_ne_nil hwne
          | cons v ws => rwa [List.getLast?_cons_cons] at hrest ⊢

theorem words_ne_nil_of_isSentence {w : Text} (h : IsSentence w) : words w ≠ [] := by
  obtain ⟨c, w', rfl⟩ := List.exists_cons_of_ne_nil h.ne_nil
  exact words_cons_ne_nil w' (h.first c rfl)

/-- No sentence goes on behind the last word of a text that ends as a sentence does. -/
theorem goesOnBehind_getLast_words {w : Text} (hw : IsSentence w) (h : EndsSentence w) :
    goesOnBehind ((words w).getLast (words_ne_nil_of_isSentence hw)) = false := by
  obtain ⟨c, hc, hends⟩ := h
  have hlast := getLast?_getLast?_words hw.ne_nil hw.last
  rw [List.getLast?_eq_some_getLast (words_ne_nil_of_isSentence hw), Option.bind_some, hc] at hlast
  exact (goesOnBehind_eq_false_iff _).2 ⟨c, hlast, hends⟩

/-! ## Sentences as runs of words -/

/-- **The sentences of a text are runs of its words,** each of which stops behind the first word that
ends as a sentence does. -/
theorem map_words_sentences (t : Text) :
    (t.sentences.map fun s => words s.text) = (words t).splitBy fun v _ => goesOnBehind v := by
  have hsplits := splitsIntoSentences_sentences t
  rw [words_of_along (along_sentences t), List.flatMap_def]
  refine (List.splitBy_flatten ?_ ?_ ?_).symm
  · intro hmem
    obtain ⟨s, hs, hnil⟩ := List.mem_map.1 hmem
    exact words_ne_nil_of_isSentence (hsplits.sentence s hs) hnil
  · intro ws hws
    obtain ⟨s, hs, rfl⟩ := List.mem_map.1 hws
    exact isChain_goesOnBehind (hsplits.sentence s hs).whole
  · refine (List.isChain_map _).2 (hsplits.parted.imp_of_mem_imp fun a b ha hb hab => ?_)
    exact ⟨words_ne_nil_of_isSentence (hsplits.sentence a ha),
      words_ne_nil_of_isSentence (hsplits.sentence b hb),
      goesOnBehind_getLast_words (hsplits.sentence a ha) hab.ended⟩

/-! ## Sentences of collapsed texts -/

/-- A sentence of a collapsed text has nothing to collapse. -/
theorem collapse_sentence {t : Text} {s : Span} (h : s ∈ t.collapse.sentences) :
    s.text.collapse = s.text := by
  have hsplits := splitsIntoSentences_sentences t.collapse
  obtain ⟨left, right, hsplit, -, -⟩ := (slice?_eq_some_iff _ _ _ _).1 (hsplits.slice s h).2
  have hsentence := hsplits.sentence s h
  exact collapse_of_isCollapsed ((isCollapsed_collapse t).of_stretch ⟨left, right, hsplit.symm⟩
    hsentence.first hsentence.last)

/-- The sentences of the collapsed text are the sentences of the text, collapsed. -/
theorem map_text_sentences_collapse (t : Text) :
    (t.collapse.sentences.map fun s => s.text) = t.sentences.map fun s => s.text.collapse := by
  calc (t.collapse.sentences.map fun s => s.text)
      = t.collapse.sentences.map fun s => s.text.collapse :=
        List.map_congr_left fun _ hs => (collapse_sentence hs).symm
    _ = (t.collapse.sentences.map fun s => words s.text).map (join [' ']) := by
        rw [List.map_map]
        rfl
    _ = (t.sentences.map fun s => words s.text).map (join [' ']) := by
        rw [map_words_sentences, map_words_sentences, words_collapse]
    _ = t.sentences.map fun s => s.text.collapse := by
        rw [List.map_map]
        rfl

/-- A collapsed text is its sentences, with one blank between them. -/
theorem join_sentences_collapse (t : Text) :
    join [' '] (t.collapse.sentences.map fun s => s.text) = t.collapse := by
  have hne : [] ∉ t.sentences.map fun s => words s.text := by
    rw [map_words_sentences]
    exact List.nil_notMem_splitBy _ _
  rw [map_text_sentences_collapse, collapse, words_of_along (along_sentences t), List.flatMap_def,
    ← join_map_join _ hne, List.map_map]
  rfl

/-- **Splitting into sentences commutes with collapsing white space.** The sentences of the collapsed
text are the sentences of the text, each of them collapsed; so there are as many of them, and the
collapsed text is these sentences with one blank between them. -/
theorem sentences_collapse (t : Text) :
    (t.collapse.sentences.map fun s => s.text) = (t.sentences.map fun s => s.text.collapse) ∧
      t.collapse.sentences.length = t.sentences.length ∧
      t.collapse = join [' '] (t.collapse.sentences.map fun s => s.text) := by
  have htexts := map_text_sentences_collapse t
  refine ⟨htexts, ?_, (join_sentences_collapse t).symm⟩
  simpa using congrArg List.length htexts

end CodeProse.Text

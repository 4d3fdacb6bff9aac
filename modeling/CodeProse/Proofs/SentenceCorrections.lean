/-
# What the corrections of sentences come to

The corrections of sentences are a second form of the corrected text: put in the place of the
sentences that they correct, they make a text with the same words (`rebuilds_reconcile`). Sentences
are paired by position, and a pair that differs in white space alone is left out. That loses
nothing, as a text has the words of its sentences, and as many sentences on both sides are paired
off in full.
-/
import CodeProse.Proofs.Reconciliation
import CodeProse.Proofs.Text.Sentence

namespace CodeProse

open Text (words startsBlank sentenceStrand)

/-- The fix that puts the corrected sentence in the place of the given one. -/
def SentenceCorrection.toFix (c : SentenceCorrection) : Fix :=
  ⟨c.start, c.stop, c.corrected⟩

namespace Correction

/-! ## Changed sentences -/

/-- The range of a correction. -/
def correctedRange (c : SentenceCorrection) : Nat × Nat :=
  (c.start, c.stop)

/-- The range of a sentence. -/
def spanRange (s : Span) : Nat × Nat :=
  (s.start, s.stop)

/-- A changed sentence is one of those that were given. -/
theorem exists_span_of_mem_changedSentences {olds news : List Span} {c : SentenceCorrection}
    (h : c ∈ changedSentences olds news) :
    c.scope = .sentence ∧ ∃ s ∈ olds, s.text = c.given ∧ spanRange s = correctedRange c := by
  induction olds generalizing news with
  | nil => cases h
  | cons old olds ih =>
    cases news with
    | nil => cases h
    | cons new news =>
      rw [changedSentences] at h
      have hlater : c ∈ changedSentences olds news →
          c.scope = .sentence ∧
            ∃ s ∈ old :: olds, s.text = c.given ∧ spanRange s = correctedRange c := by
        intro hmem
        obtain ⟨hscope, s, hs, hspan⟩ := ih hmem
        exact ⟨hscope, s, List.mem_cons_of_mem old hs, hspan⟩
      split at h
      case isTrue => exact hlater h
      case isFalse =>
        rcases List.mem_cons.1 h with rfl | h
        · exact ⟨rfl, old, List.mem_cons_self, rfl, rfl⟩
        · exact hlater h

/-- The changed sentences keep the order of the text. -/
theorem sublist_changedSentences (olds news : List Span) :
    ((changedSentences olds news).map correctedRange).Sublist (olds.map spanRange) := by
  induction olds generalizing news with
  | nil => exact .slnil
  | cons old olds ih =>
    cases news with
    | nil => exact List.nil_sublist _
    | cons new news =>
      rw [changedSentences, List.map_cons]
      split
      · exact (ih news).cons (spanRange old)
      · exact (ih news).cons_cons (spanRange old)

/-- Where no sentence begins before the one in front of it has ended, the changed ones do not
either. -/
theorem pairwise_changedSentences {olds : List Span}
    (h : olds.Pairwise fun a b => a.stop ≤ b.start) (news : List Span) :
    (changedSentences olds news).Pairwise fun a b => a.stop ≤ b.start := by
  have hranges : (olds.map spanRange).Pairwise fun a b => a.2 ≤ b.1 := List.pairwise_map.2 h
  exact List.pairwise_map.1 (hranges.sublist (sublist_changedSentences olds news))

/-- **Changed sentences rebuild the words.**  Where as many sentences are paired off as a text has,
the text with the changed ones in their places has the words of the new sentences. -/
theorem exists_substituteFrom_changedSentences {offset : Nat} {t : Text} {olds news : List Span}
    (h : sentenceStrand.Along offset t olds) (hlength : olds.length = news.length) :
    ∃ s, substituteFrom offset ((changedSentences olds news).map (·.toFix)) t = some s ∧
      words s = (news.flatMap fun n => words n.text) ∧
      (startsBlank t = true → startsBlank s = true) := by
  -- that white space stays in front keeps the words of neighbouring sentences apart
  induction olds generalizing offset t news with
  | nil =>
    obtain rfl := List.eq_nil_of_length_eq_zero hlength.symm
    exact ⟨t, rfl, Text.words_of_blank h, id⟩
  | cons old olds ih =>
    obtain ⟨new, news, rfl⟩ := List.exists_cons_of_length_eq_add_one hlength.symm
    obtain ⟨gap, post, rfl, hstart, hstop, ⟨hgap, htext, hpost⟩, hrest⟩ := h
    obtain ⟨later, hlater, hwords, hblank⟩ := ih hrest (by simpa using hlength)
    simp only [sentenceStrand, id_eq] at hstart hstop hlater ⊢
    have hfront : ∀ more : Text, startsBlank (gap ++ old.text ++ post) = true →
        startsBlank (gap ++ more) = true := by
      intro more hfirst
      rw [List.append_assoc] at hfirst
      by_cases hnil : gap = []
      · have hold : old.text ≠ [] := by
          intro hempty
          rw [hempty] at htext
          cases htext
        rw [hnil, List.nil_append, Text.startsBlank_append _ hold, htext] at hfirst
        cases hfirst
      · rw [Text.startsBlank_append _ hnil] at hfirst ⊢
        exact hfirst
    have hjoin : ∀ u : Text, words u = words new.text →
        words (gap ++ u ++ later) = (new :: news).flatMap fun n => words n.text := by
      intro u hu
      rw [List.append_assoc, Text.words_blank_append _ hgap, Text.words_append (hblank hpost), hu,
        hwords, List.flatMap_cons]
    by_cases hsame : old.text.collapse = new.text
    · refine ⟨gap ++ old.text ++ later, ?_, hjoin old.text ?_, ?_⟩
      · rw [changedSentences, if_pos hsame]
        refine substituteFrom_append_left (gap ++ old.text) ?_
        have hbytes : offset + (gap ++ old.text).byteLength = old.stop := by
          rw [Text.byteLength_append]
          omega
        rw [hbytes]
        exact hlater
      · rw [← hsame, Text.words_collapse]
      · rw [List.append_assoc gap old.text later]
        exact hfront (old.text ++ later)
    · refine ⟨gap ++ new.text ++ later, ?_, hjoin new.text rfl, ?_⟩
      · rw [changedSentences, if_neg hsame]
        exact (substituteFrom_cons_eq_some_iff _ _ _ _ _).2
          ⟨gap, old.text, post, later, rfl, hstart, hstop, hlater, rfl⟩
      · rw [List.append_assoc gap new.text later]
        exact hfront (new.text ++ later)

/-! ## The corrections of a text -/

/-- The correction of a whole text puts the corrected text in its place. -/
theorem substitute?_fullText (given corrected : Text) :
    substitute? [⟨0, given.byteLength, corrected⟩] given = some corrected :=
  (substituteFrom_cons_eq_some_iff _ _ _ _ _).2
    ⟨[], given, [], [], by simp, rfl, by simp, rfl, by simp⟩

/-- The corrections of a text are those of the changed sentences, of which there are as many on both
sides, or there is one for the whole text. -/
theorem sentenceCorrections_cases (given corrected : Text) :
    (given.sentences.length = corrected.sentences.length ∧
        sentenceCorrections given corrected ≠ [] ∧
        sentenceCorrections given corrected
          = changedSentences given.sentences corrected.sentences) ∨
      sentenceCorrections given corrected
        = [⟨.fullText, given, corrected, 0, given.byteLength, suggestionMessage corrected⟩] := by
  by_cases hlength : given.sentences.length = corrected.sentences.length
  · cases hchanged : changedSentences given.sentences corrected.sentences with
    | nil => exact .inr (by simp [sentenceCorrections, hlength, hchanged])
    | cons c rest =>
      have heq : sentenceCorrections given corrected = c :: rest := by
        simp [sentenceCorrections, hlength, hchanged]
      exact .inl ⟨hlength, by simp [heq], heq⟩
  · exact .inr (by simp [sentenceCorrections, hlength])

theorem sentenceCorrections_ne_nil (given corrected : Text) :
    sentenceCorrections given corrected ≠ [] := by
  rcases sentenceCorrections_cases given corrected with ⟨-, hne, -⟩ | hfull
  · exact hne
  · simp [hfull]

/-- The corrections of a text are those of sentences of it, one behind the other, or one of all of
it. -/
theorem scope_sentenceCorrections (given corrected : Text) :
    ((∀ c ∈ sentenceCorrections given corrected, c.scope = .sentence ∧ c.start < c.stop ∧
          ∃ s ∈ given.sentences, s.start = c.start ∧ s.stop = c.stop) ∧
        (sentenceCorrections given corrected).Pairwise fun a b => a.stop ≤ b.start) ∨
      ∃ c, sentenceCorrections given corrected = [c] ∧ c.scope = .fullText ∧ c.start = 0 ∧
        c.stop = given.byteLength := by
  rcases sentenceCorrections_cases given corrected with ⟨-, -, hchanged⟩ | hfull
  · rw [hchanged]
    refine .inl ⟨fun c hc => ?_, pairwise_changedSentences (Text.along_sentences given).pairwise _⟩
    obtain ⟨hscope, s, hs, -, hrange⟩ := exists_span_of_mem_changedSentences hc
    obtain ⟨hstart, hstop⟩ := Prod.mk.inj hrange
    refine ⟨hscope, ?_, s, hs, hstart, hstop⟩
    rw [← hstart, ← hstop]
    exact (Text.sentence_slice hs).1
  · exact .inr ⟨_, hfull, rfl, rfl, rfl⟩

/-- The corrections of a text quote what they cover. -/
theorem slice_of_mem_sentenceCorrections {given corrected : Text} {c : SentenceCorrection}
    (hc : c ∈ sentenceCorrections given corrected) :
    Text.slice? c.start c.stop given = some c.given := by
  rcases sentenceCorrections_cases given corrected with ⟨-, -, hchanged⟩ | hfull
  · rw [hchanged] at hc
    obtain ⟨-, s, hs, htext, hrange⟩ := exists_span_of_mem_changedSentences hc
    obtain ⟨hstart, hstop⟩ := Prod.mk.inj hrange
    rw [← htext, ← hstart, ← hstop]
    exact (Text.sentence_slice hs).2
  · rw [hfull, List.mem_singleton] at hc
    rw [hc]
    exact (Text.slice?_eq_some_iff _ _ _ _).2 ⟨[], [], by simp, rfl, by simp⟩

/-- The corrections of a text make a text with the words of the corrected one. -/
theorem exists_substitute?_sentenceCorrections (given corrected : Text) :
    ∃ s, substitute? ((sentenceCorrections given corrected).map (·.toFix)) given = some s ∧
      words s = words corrected := by
  rcases sentenceCorrections_cases given corrected with ⟨hlength, -, hchanged⟩ | hfull
  · obtain ⟨s, hs, hwords, -⟩ :=
      exists_substituteFrom_changedSentences (Text.along_sentences given) hlength
    rw [hchanged]
    refine ⟨s, hs, ?_⟩
    rw [hwords, ← Text.words_of_along (Text.along_sentences corrected)]
  · rw [hfull]
    exact ⟨corrected, substitute?_fullText given corrected, rfl⟩

/-- The corrections of sentences rebuild the corrected text from the given one. -/
structure Rebuilds (given : Text) (r : Correction) : Prop where
  /-- There are none if nothing was corrected, or nothing changed. -/
  eq_nil_iff : r.sentences = [] ↔ r.corrected = none ∨ r.corrected = some given
  /-- Otherwise all of them correct sentences, one behind the other, or one of them corrects the
  whole text. -/
  scope_cases : r.sentences ≠ [] →
    ((∀ c ∈ r.sentences, c.scope = .sentence ∧ c.start < c.stop ∧
          ∃ s ∈ given.sentences, s.start = c.start ∧ s.stop = c.stop) ∧
        r.sentences.Pairwise fun a b => a.stop ≤ b.start) ∨
      ∃ c, r.sentences = [c] ∧ c.scope = .fullText ∧ c.start = 0 ∧ c.stop = given.byteLength
  /-- Each quotes what it covers. -/
  given_eq : ∀ c ∈ r.sentences, Text.slice? c.start c.stop given = some c.given
  /-- Put in their places, they make the corrected text, up to white space. -/
  rebuild : ∀ corrected, r.corrected = some corrected →
    ∃ s, substitute? (r.sentences.map (·.toFix)) given = some s ∧ s.collapse = corrected

/-- The corrections of sentences in a reconciliation: none, or those of the corrected text. -/
theorem reconcile_sentences (given : Text) (issues : List Issue) :
    let r := reconcile given issues
    (r.sentences = [] ∧ (r.corrected = none ∨ r.corrected = some given)) ∨
      ∃ corrected, r.corrected = some corrected ∧ corrected ≠ given ∧
        r.sentences = sentenceCorrections given corrected := by
  intro r
  simp only [r, reconcile]
  split
  case isTrue => exact .inl ⟨rfl, .inl rfl⟩
  case isFalse =>
    split
    case isTrue hsame => exact .inl ⟨rfl, .inr (congrArg some hsame)⟩
    case isFalse hdiffers => exact .inr ⟨_, rfl, hdiffers, rfl⟩

/-- A corrected text has no white space left to collapse. -/
theorem collapse_corrected {given corrected : Text} {issues : List Issue}
    (h : (reconcile given issues).corrected = some corrected) :
    corrected.collapse = corrected := by
  rw [corrected_eq_collapse h, Text.collapse_collapse]

/-- **The corrections of sentences rebuild the corrected text.** -/
theorem rebuilds_reconcile (given : Text) (issues : List Issue) :
    Rebuilds given (reconcile given issues) := by
  rcases reconcile_sentences given issues with
    ⟨hnone, hcorrected⟩ | ⟨corrected, hcorrected, hdiffers, hsentences⟩
  · constructor
    case eq_nil_iff => exact ⟨fun _ => hcorrected, fun _ => hnone⟩
    case scope_cases => exact fun hne => absurd hnone hne
    case given_eq => rw [hnone]; intro c hc; cases hc
    case rebuild =>
      intro corrected hsome
      have hsame : corrected = given := by
        rcases hcorrected with h | h
        · rw [h] at hsome
          cases hsome
        · exact Option.some.inj (hsome.symm.trans h)
      rw [hnone]
      exact ⟨given, rfl, by rw [← hsame]; exact collapse_corrected hsome⟩
  · constructor
    case eq_nil_iff =>
      constructor
      · intro hnil
        rw [hsentences] at hnil
        exact absurd hnil (sentenceCorrections_ne_nil given corrected)
      · rintro (h | h)
        · rw [hcorrected] at h
          cases h
        · exact absurd (Option.some.inj (hcorrected.symm.trans h)) hdiffers
    case scope_cases =>
      intro _
      rw [hsentences]
      exact scope_sentenceCorrections given corrected
    case given_eq =>
      rw [hsentences]
      exact fun c hc => slice_of_mem_sentenceCorrections hc
    case rebuild =>
      intro corrected' hsome
      obtain rfl : corrected' = corrected := Option.some.inj (hsome.symm.trans hcorrected)
      obtain ⟨s, hs, hwords⟩ := exists_substitute?_sentenceCorrections given corrected'
      rw [hsentences]
      refine ⟨s, hs, ?_⟩
      rw [Text.collapse_eq_of_words_eq hwords, collapse_corrected hsome]

end Correction

end CodeProse

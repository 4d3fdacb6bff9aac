/-
# Where the sentences of a text stand

The sentences of a text stand in it one behind the other: before each of them, and behind the last
one, there is nothing but white space, and each is followed by white space or by the end of the text
(`along_sentences`). So the words of a text are those of its sentences (`words_of_along`).
-/
import CodeProse.Proofs.Text.Collapse
import CodeProse.Proofs.Text.Strand
import CodeProse.Proofs.Text.Trim

namespace CodeProse.Text

open Unicode (isWhitespace)

/-! ## Pieces -/

theorem sentencePieces_ne_nil (ended : Bool) (t : Text) : sentencePieces ended t ≠ [] := by
  cases t with
  | nil => simp [sentencePieces]
  | cons c t =>
    rw [sentencePieces]
    cases sentencePieces (endsSentence c) t <;> cases isWhitespace c && ended <;> simp

/-- A character goes to the first piece of what follows it; where a sentence ends in front of it, an
empty piece comes before. -/
theorem sentencePieces_cons (ended : Bool) (c : Char) (t : Text) :
    ∃ p ps, sentencePieces (endsSentence c) t = p :: ps ∧
      sentencePieces ended (c :: t)
        = if isWhitespace c && ended then [] :: (c :: p) :: ps else (c :: p) :: ps := by
  obtain ⟨p, ps, hp⟩ := List.exists_cons_of_ne_nil (sentencePieces_ne_nil (endsSentence c) t)
  exact ⟨p, ps, hp, by rw [sentencePieces, hp]⟩

/-- Nothing is lost or added when a text is cut into pieces. -/
theorem flatten_sentencePieces (ended : Bool) (t : Text) :
    (sentencePieces ended t).flatten = t := by
  induction t generalizing ended with
  | nil => rfl
  | cons c t ih =>
    obtain ⟨p, ps, hp, hcons⟩ := sentencePieces_cons ended c t
    have hrest := ih (endsSentence c)
    rw [hp, List.flatten_cons] at hrest
    rw [hcons]
    split <;> simp [hrest]

/-- All pieces but the first begin with white space. -/
theorem startsBlank_of_mem_tail_sentencePieces (ended : Bool) (t : Text) :
    ∀ p ∈ (sentencePieces ended t).tail, startsBlank p = true := by
  induction t generalizing ended with
  | nil => simp [sentencePieces]
  | cons c t ih =>
    obtain ⟨p, ps, hp, hcons⟩ := sentencePieces_cons ended c t
    have hrest := ih (endsSentence c)
    rw [hp] at hrest
    rw [hcons]
    split
    case isTrue hcut =>
      have hc : isWhitespace c = true := (Bool.and_eq_true_iff.1 hcut).1
      intro q hq
      rcases List.mem_cons.1 hq with rfl | hq
      · simpa [startsBlank] using hc
      · exact hrest q hq
    case isFalse => exact hrest

theorem startsBlank_flatten {pieces : List Text} (h : ∀ p ∈ pieces, startsBlank p = true) :
    startsBlank pieces.flatten = true := by
  induction pieces with
  | nil => rfl
  | cons p rest ih =>
    have hrest := ih fun q hq => h q (List.mem_cons_of_mem p hq)
    rw [List.flatten_cons]
    cases p with
    | nil => exact hrest
    | cons c p => exact h (c :: p) List.mem_cons_self

/-! ## Sentences in their text -/

/-- Sentences stand between stretches of white space, and begin with none. -/
def sentenceStrand : Strand Span where
  place := id
  fits gap sentence post := (∀ c ∈ gap, isWhitespace c = true) ∧
    startsBlank sentence.text = false ∧ startsBlank post = true
  ends t := ∀ c ∈ t, isWhitespace c = true

/-- White space in front of sentences belongs to the gap of the first one. -/
theorem along_sentences_append_left {offset : Nat} {lead t : Text} {spans : List Span}
    (hlead : ∀ c ∈ lead, isWhitespace c = true)
    (h : sentenceStrand.Along (offset + lead.byteLength) t spans) :
    sentenceStrand.Along offset (lead ++ t) spans := by
  have hblank : ∀ u : Text, (∀ c ∈ u, isWhitespace c = true) →
      ∀ c ∈ lead ++ u, isWhitespace c = true := by
    intro u hu c hc
    rcases List.mem_append.1 hc with hc | hc
    · exact hlead c hc
    · exact hu c hc
  exact h.append_left lead hblank fun gap s post hfits => ⟨hblank gap hfits.1, hfits.2⟩

/-- What trimming leaves begins with no white space. -/
theorem startsBlank_trim {t : Text} (h : trim t ≠ []) : startsBlank (trim t) = false := by
  obtain ⟨c, rest, hc⟩ := List.exists_cons_of_ne_nil h
  have hhead : isWhitespace c = false := isWhitespace_of_head?_trim (by rw [hc]; rfl)
  rw [hc]
  simpa [startsBlank] using hhead

/-- The trimmed pieces of a text stand in it as its sentences do, if all but the first of them begin
with white space. -/
theorem along_trimmedSpans {offset : Nat} {pieces : List Text}
    (h : ∀ p ∈ pieces.tail, startsBlank p = true) :
    sentenceStrand.Along offset pieces.flatten (trimmedSpans offset pieces) := by
  induction pieces generalizing offset with
  | nil => intro c hc; cases hc
  | cons piece rest ih =>
    have hrest := @ih (offset + byteLength piece) fun p hp => h p (List.mem_of_mem_tail hp)
    obtain ⟨lead, trail, hsplit, hlen, hlead, htrail⟩ := trim_split piece
    rw [trimmedSpans, List.flatten_cons]
    split
    case isTrue hempty =>
      have hblank : ∀ c ∈ piece, isWhitespace c = true := by
        rw [hsplit, List.isEmpty_iff.1 hempty]
        intro c hc
        rcases List.mem_append.1 hc with hc | hc
        · exact hlead c (by simpa using hc)
        · exact htrail c hc
      exact along_sentences_append_left hblank hrest
    case isFalse hempty =>
      have hne : trim piece ≠ [] := fun hnil => hempty (List.isEmpty_iff.2 hnil)
      have hpost : startsBlank (trail ++ rest.flatten) = true := by
        cases trail with
        | nil => exact startsBlank_flatten h
        | cons c trail => simpa [startsBlank] using htrail c List.mem_cons_self
      have hbytes := congrArg byteLength hsplit
      simp only [byteLength_append] at hbytes
      refine ⟨lead, trail ++ rest.flatten, ?_, ?_, rfl, ⟨hlead, startsBlank_trim hne, hpost⟩, ?_⟩
      · exact (congrArg (· ++ rest.flatten) hsplit).trans (by simp [sentenceStrand])
      · simp only [sentenceStrand, id_eq]
        omega
      · refine along_sentences_append_left htrail ?_
        simp only [sentenceStrand, id_eq] at hrest ⊢
        have hstop : offset + (byteLength piece - byteLength (trimStart piece))
            + byteLength (trim piece) + byteLength trail = offset + byteLength piece := by omega
        rw [hstop]
        exact hrest

/-- **The sentences of a text stand in it one behind the other, with white space between them.** -/
theorem along_sentences (t : Text) : sentenceStrand.Along 0 t t.sentences := by
  have h := @along_trimmedSpans 0 (sentencePieces false t)
    (startsBlank_of_mem_tail_sentencePieces false t)
  rwa [flatten_sentencePieces] at h

/-- A sentence is what stands between its offsets, and it is not empty. -/
theorem sentence_slice {t : Text} {s : Span} (h : s ∈ t.sentences) :
    s.start < s.stop ∧ slice? s.start s.stop t = some s.text := by
  have hslice : slice? s.start s.stop t = some s.text :=
    @Strand.Along.slice _ sentenceStrand [] t t.sentences (along_sentences t) s h
  obtain ⟨gap, post, -, htext, -⟩ := (along_sentences t).exists_fits s h
  obtain ⟨left, right, -, -, hstop⟩ := (slice?_eq_some_iff _ _ _ _).1 hslice
  have hpos : byteLength s.text ≠ 0 := by
    intro hzero
    rw [(byteLength_eq_zero_iff _).1 hzero] at htext
    cases htext
  exact ⟨by omega, hslice⟩

/-- The words of a text are those of its sentences. -/
theorem words_of_along {offset : Nat} {t : Text} {spans : List Span}
    (h : sentenceStrand.Along offset t spans) :
    words t = spans.flatMap fun s => words s.text := by
  induction spans generalizing offset t with
  | nil => exact words_of_blank h
  | cons s rest ih =>
    obtain ⟨gap, post, rfl, -, -, ⟨hgap, -, hpost⟩, hrest⟩ := h
    rw [List.append_assoc, words_blank_append _ hgap, words_append hpost, ih hrest,
      List.flatMap_cons]
    rfl

end CodeProse.Text

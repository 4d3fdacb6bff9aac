/-
# Sentences are found exactly

What the sentences of a text should be is said without a word on how they are found
(`SplitsIntoSentences`): trimmed stretches of the text, in order, that hold all of it but white
space; none goes on behind the end of a sentence, and two of them are parted by white space only,
behind such an end. Just one list of stretches is like that, and it is the list that is found
(`splitsIntoSentences_iff`).

That the sentences lie in the text one behind the other is known (`along_sentences`). What is inside
them comes from the pieces that they are trimmed from: no piece has the end of a sentence before
white space, and all but the last of them end a sentence. That there is no other such list follows
by induction along the text: of two sentences that begin at the same place the longer one would go
on behind the end of the other.
-/
import CodeProse.Proofs.Text.Partition
import CodeProse.Proofs.Text.Sentence

namespace CodeProse.Text

open Unicode (isWhitespace)

/-! ## The specification -/

/-- A text without white space at its ends, in which no sentence ends before white space. -/
structure IsSentence (w : Text) : Prop where
  ne_nil : w ≠ []
  first : ∀ c ∈ w.head?, isWhitespace c = false
  last : ∀ c ∈ w.getLast?, isWhitespace c = false
  whole : ∀ c d, [c, d] <:+: w → endsSentence c = true → isWhitespace d = false

/-- Whether a text ends as a sentence does. -/
def EndsSentence (w : Text) : Prop :=
  ∃ c ∈ w.getLast?, endsSentence c = true

/-- Between two stretches of a text there is white space only, and some of it; and the first one
ends as a sentence does. -/
structure Parted (t : Text) (a b : Span) : Prop where
  gap : ∃ gap, gap ≠ [] ∧ slice? a.stop b.start t = some gap ∧ ∀ c ∈ gap, isWhitespace c = true
  ended : EndsSentence a.text

/-- What the sentences of a text are. -/
structure SplitsIntoSentences (t : Text) (spans : List Span) : Prop where
  /-- A sentence covers something, and is what the text holds there. -/
  slice : ∀ s ∈ spans, s.start < s.stop ∧ slice? s.start s.stop t = some s.text
  /-- The sentences are in order and apart. -/
  apart : spans.Pairwise fun a b => a.stop ≤ b.start
  sentence : ∀ s ∈ spans, IsSentence s.text
  /-- Every byte that belongs to no white space is in a sentence. -/
  covered : ∀ k c, charAt? k t = some c → isWhitespace c = false →
    ∃ s ∈ spans, s.start ≤ k ∧ k < s.stop
  /-- Neighbours are parted. -/
  parted : spans.IsChain (Parted t)

/-! ## Pieces -/

theorem not_isWhitespace_of_endsSentence {c : Char} (h : endsSentence c = true) :
    isWhitespace c = false := by
  simp only [endsSentence, Bool.or_eq_true, beq_iff_eq] at h
  rcases h with (rfl | rfl) | rfl <;> decide

/-- Behind the end of a sentence the first piece does not begin with white space. -/
theorem head?_sentencePieces {t p : Text} {ps : List Text} (h : sentencePieces true t = p :: ps) :
    ∀ d ∈ p.head?, isWhitespace d = false := by
  cases t with
  | nil =>
    obtain ⟨rfl, -⟩ := List.cons.inj h
    simp
  | cons c t =>
    obtain ⟨q, qs, -, hcons⟩ := sentencePieces_cons true c t
    rw [h, Bool.and_true] at hcons
    split at hcons
    case isTrue =>
      obtain ⟨rfl, -⟩ := List.cons.inj hcons
      simp
    case isFalse hc =>
      obtain ⟨rfl, -⟩ := List.cons.inj hcons
      simpa using hc

/-- A pair of neighbours in a text is at its start or behind it. -/
theorem pair_infix_cons {c d e : Char} {t : Text} (h : [c, d] <:+: e :: t) :
    (c = e ∧ d ∈ t.head?) ∨ [c, d] <:+: t := by
  rcases List.infix_cons_iff.1 h with hprefix | hinfix
  · obtain ⟨rfl, htail⟩ := List.cons_prefix_cons.1 hprefix
    obtain ⟨rest, rfl⟩ := htail
    exact .inl ⟨rfl, rfl⟩
  · exact .inr hinfix

/-- In a piece no sentence ends before white space. -/
theorem whole_of_mem_sentencePieces {ended : Bool} {t : Text} :
    ∀ p ∈ sentencePieces ended t, ∀ c d, [c, d] <:+: p → endsSentence c = true →
      isWhitespace d = false := by
  induction t generalizing ended with
  | nil =>
    intro p hp c d hpair
    obtain rfl := List.mem_singleton.1 hp
    cases List.infix_nil.1 hpair
  | cons e t ih =>
    obtain ⟨q, qs, hq, hcons⟩ := sentencePieces_cons ended e t
    have hfirst : ∀ c d, [c, d] <:+: e :: q → endsSentence c = true → isWhitespace d = false := by
      intro c d hpair hc
      rcases pair_infix_cons hpair with ⟨rfl, hd⟩ | hinfix
      · rw [hc] at hq
        exact head?_sentencePieces hq d hd
      · exact ih q (by rw [hq]; exact List.mem_cons_self) c d hinfix hc
    have hpieces : ∀ p ∈ (e :: q) :: qs, ∀ c d, [c, d] <:+: p → endsSentence c = true →
        isWhitespace d = false := by
      intro p hp
      rcases List.mem_cons.1 hp with rfl | hp
      · exact hfirst
      · exact ih p (by rw [hq]; exact List.mem_cons_of_mem q hp)
    rw [hcons]
    split
    · intro p hp
      rcases List.mem_cons.1 hp with rfl | hp
      · intro c d hpair
        cases List.infix_nil.1 hpair
      · exact hpieces p hp
    · exact hpieces

/-- A first piece that is empty and not the only one is cut off behind the end of a sentence. -/
theorem ended_of_sentencePieces {ended : Bool} {t q : Text} {qs : List Text}
    (h : sentencePieces ended t = [] :: q :: qs) : ended = true := by
  cases t with
  | nil => cases h
  | cons c t =>
    obtain ⟨p, ps, -, hcons⟩ := sentencePieces_cons ended c t
    rw [h] at hcons
    split at hcons
    case isTrue hcut => exact (Bool.and_eq_true_iff.1 hcut).2
    case isFalse => cases hcons

/-- All pieces but the last end a sentence. -/
theorem endsSentence_of_mem_sentencePieces {ended : Bool} {t : Text} :
    ∀ p ∈ (sentencePieces ended t).dropLast, p ≠ [] → EndsSentence p := by
  induction t generalizing ended with
  | nil => simp [sentencePieces]
  | cons c t ih =>
    obtain ⟨q, qs, hq, hcons⟩ := sentencePieces_cons ended c t
    have hrest := @ih (endsSentence c)
    rw [hq] at hrest
    have hpieces : ∀ p ∈ ((c :: q) :: qs).dropLast, p ≠ [] → EndsSentence p := by
      cases qs with
      | nil => simp
      | cons r rs =>
        rw [List.dropLast_cons_cons] at hrest ⊢
        intro p hp hne
        rcases List.mem_cons.1 hp with rfl | hp
        · cases q with
          | nil => exact ⟨c, rfl, ended_of_sentencePieces hq⟩
          | cons d q =>
            obtain ⟨e, he, hends⟩ := hrest (d :: q) List.mem_cons_self (List.cons_ne_nil d q)
            exact ⟨e, he, hends⟩
        · exact hrest p (List.mem_cons_of_mem q hp) hne
    rw [hcons]
    split
    · rw [List.dropLast_cons_cons]
      intro p hp hne
      rcases List.mem_cons.1 hp with rfl | hp
      · exact absurd rfl hne
      · exact hpieces p hp hne
    · exact hpieces

/-! ## Trimmed pieces -/

/-- What trimming leaves ends with no white space. -/
theorem isWhitespace_of_getLast?_trim {t : Text} {c : Char} (h : (trim t).getLast? = some c) :
    isWhitespace c = false := by
  rw [trim, trimEnd, List.getLast?_reverse] at h
  have hstop := List.head?_dropWhile_not isWhitespace (trimStart t).reverse
  rw [h] at hstop
  exact hstop

/-- A piece is a sentence once it is trimmed, unless nothing is left. -/
theorem isSentence_trim {p : Text} (hne : trim p ≠ [])
    (hwhole : ∀ c d, [c, d] <:+: p → endsSentence c = true → isWhitespace d = false) :
    IsSentence (trim p) where
  ne_nil := hne
  first _ hc := isWhitespace_of_head?_trim hc
  last _ hc := isWhitespace_of_getLast?_trim hc
  whole c d hpair := by
    obtain ⟨lead, trail, hsplit, -⟩ := trim_split p
    exact hwhole c d (hpair.trans ⟨lead, trail, hsplit.symm⟩)

/-- A piece that ends a sentence still does so once it is trimmed. -/
theorem endsSentence_trim {p : Text} (hne : trim p ≠ []) (h : EndsSentence p) :
    EndsSentence (trim p) := by
  obtain ⟨c, hc, hends⟩ := h
  obtain ⟨lead, trail, hsplit, -, -, htrail⟩ := trim_split p
  rcases List.eq_nil_or_concat trail with rfl | ⟨front, d, rfl⟩
  · rw [List.append_nil] at hsplit
    rw [hsplit, List.getLast?_append_of_ne_nil _ hne] at hc
    exact ⟨c, hc, hends⟩
  · -- white space at the end of the piece is no end of a sentence
    have hd := htrail d (by simp)
    rw [hsplit, List.concat_eq_append, ← List.append_assoc, List.getLast?_concat] at hc
    obtain rfl := Option.some.inj hc
    rw [not_isWhitespace_of_endsSentence hends] at hd
    cases hd

/-- What is left of a row of pieces: they are trimmed, and the empty ones are left out. -/
theorem map_text_trimmedSpans (offset : Nat) (pieces : List Text) :
    (trimmedSpans offset pieces).map (·.text) = (pieces.map trim).filter fun w => !w.isEmpty := by
  induction pieces generalizing offset with
  | nil => rfl
  | cons piece rest ih =>
    rw [trimmedSpans, List.map_cons]
    split
    case isTrue hempty =>
      rw [List.filter_cons_of_neg (by simpa using hempty)]
      exact ih _
    case isFalse hne =>
      rw [List.filter_cons_of_pos (by simpa using hne), List.map_cons, ih]

/-- The texts of sentences are sentences. -/
theorem isSentence_of_mem_sentences {t : Text} {s : Span} (h : s ∈ t.sentences) :
    IsSentence s.text := by
  have htext : s.text ∈ t.sentences.map (·.text) := List.mem_map_of_mem h
  rw [sentences, map_text_trimmedSpans] at htext
  obtain ⟨hmem, hne⟩ := List.mem_filter.1 htext
  obtain ⟨p, hp, htrim⟩ := List.mem_map.1 hmem
  rw [← htrim] at hne ⊢
  exact isSentence_trim (by simpa using hne) (whole_of_mem_sentencePieces p hp)

/-- What is left of a list without its last item is left of a longer list without its last item. -/
theorem dropLast_sublist_dropLast {α : Type} {l m : List α} (h : l.Sublist m) :
    l.dropLast.Sublist m.dropLast := by
  have htail := h.reverse.tail
  rw [List.tail_reverse, List.tail_reverse] at htail
  exact List.reverse_sublist.1 htail

theorem mem_dropLast_cons {α : Type} {x a : α} {l : List α} (h : x ∈ l.dropLast) :
    x ∈ (a :: l).dropLast :=
  (dropLast_sublist_dropLast (List.sublist_cons_self a l)).subset h

/-- All sentences of a text but the last end as one. -/
theorem endsSentence_of_mem_dropLast {t : Text} {s : Span} (h : s ∈ t.sentences.dropLast) :
    EndsSentence s.text := by
  have htext : s.text ∈ (t.sentences.map (·.text)).dropLast := by
    rw [← List.map_dropLast]
    exact List.mem_map_of_mem h
  have hne := (isSentence_of_mem_sentences (List.dropLast_subset _ h)).ne_nil
  rw [sentences, map_text_trimmedSpans] at htext
  have hpieces := (dropLast_sublist_dropLast List.filter_sublist).subset htext
  rw [← List.map_dropLast] at hpieces
  obtain ⟨p, hp, htrim⟩ := List.mem_map.1 hpieces
  rw [← htrim] at hne ⊢
  refine endsSentence_trim hne (endsSentence_of_mem_sentencePieces p hp ?_)
  rintro rfl
  exact hne rfl

/-! ## Along the text -/

/-- Of what sentences stand along, they hold all bytes that belong to no white space. -/
theorem exists_sentence_of_charAt? {offset : Nat} {t : Text} {spans : List Span}
    (h : sentenceStrand.Along offset t spans) {k : Nat} {c : Char} (hc : charAt? k t = some c)
    (hvisible : isWhitespace c = false) :
    ∃ s ∈ spans, s.start ≤ offset + k ∧ offset + k < s.stop := by
  induction spans generalizing offset t k with
  | nil =>
    have hblank : ∀ c ∈ t, isWhitespace c = true := h
    rw [hblank c (mem_of_charAt? hc)] at hvisible
    cases hvisible
  | cons s rest ih =>
    obtain ⟨gap, post, rfl, hstart, hstop, ⟨hgap, -, -⟩, hrest⟩ := h
    simp only [sentenceStrand, id_eq] at hstart hstop hrest hc
    rw [List.append_assoc] at hc
    rcases Nat.lt_or_ge k gap.byteLength with hk | hk
    · rw [charAt?_append_of_lt _ hk] at hc
      rw [hgap c (mem_of_charAt? hc)] at hvisible
      cases hvisible
    · rw [charAt?_append_of_le _ hk] at hc
      rcases Nat.lt_or_ge (k - gap.byteLength) s.text.byteLength with hk' | hk'
      · exact ⟨s, List.mem_cons_self, by omega, by omega⟩
      · rw [charAt?_append_of_le _ hk'] at hc
        obtain ⟨later, hlater, hle, hlt⟩ := ih hrest hc
        exact ⟨later, List.mem_cons_of_mem s hlater, by omega, by omega⟩

/-- Sentences along a text are parted, if all but the last of them end as one. -/
theorem isChain_parted {pre t : Text} {spans : List Span}
    (h : sentenceStrand.Along pre.byteLength t spans)
    (hends : ∀ s ∈ spans.dropLast, EndsSentence s.text) : spans.IsChain (Parted (pre ++ t)) := by
  induction spans generalizing pre t with
  | nil => exact .nil
  | cons a rest ih =>
    cases rest with
    | nil => exact .singleton a
    | cons b rest =>
      obtain ⟨gap, post, rfl, hstart, hstop, ⟨-, -, hpost⟩, hrest⟩ := h
      simp only [sentenceStrand, id_eq] at hstart hstop hrest ⊢
      have hpre : a.stop = (pre ++ gap ++ a.text).byteLength := by
        simp only [byteLength_append]
        omega
      rw [List.dropLast_cons_cons] at hends
      have hlater : (b :: rest).IsChain (Parted (pre ++ gap ++ a.text ++ post)) :=
        ih (by rw [← hpre]; exact hrest) fun s hs => hends s (List.mem_cons_of_mem a hs)
      obtain ⟨gap', post', rfl, hstart', -, ⟨hgap', hfirst, -⟩, -⟩ := hrest
      simp only [id_eq] at hstart' hpost hlater ⊢
      have hparted : Parted (pre ++ gap ++ a.text ++ (gap' ++ b.text ++ post')) a b := by
        refine ⟨⟨gap', ?_, ?_, hgap'⟩, hends a List.mem_cons_self⟩
        · -- what follows a sentence begins with white space, and a sentence does not
          rintro rfl
          have hne : b.text ≠ [] := by
            rintro hnil
            rw [hnil] at hfirst
            cases hfirst
          rw [List.nil_append, startsBlank_append _ hne, hfirst] at hpost
          cases hpost
        · exact (slice?_eq_some_iff _ _ _ _).2
            ⟨pre ++ gap ++ a.text, b.text ++ post', by simp, hpre.symm, hstart'⟩
      rw [show pre ++ (gap ++ a.text ++ (gap' ++ b.text ++ post'))
        = pre ++ gap ++ a.text ++ (gap' ++ b.text ++ post') by simp]
      exact List.isChain_cons_cons.2 ⟨hparted, hlater⟩

/-- The sentences of a text are what they should be. -/
theorem splitsIntoSentences_sentences (t : Text) : SplitsIntoSentences t t.sentences where
  slice _ hs := sentence_slice hs
  apart := (along_sentences t).pairwise
  sentence _ hs := isSentence_of_mem_sentences hs
  covered k c hc hvisible := by
    have hcovered := exists_sentence_of_charAt? (along_sentences t) hc hvisible
    rwa [Nat.zero_add] at hcovered
  parted := @isChain_parted [] t t.sentences (along_sentences t) fun _ hs =>
    endsSentence_of_mem_dropLast hs

/-! ## Uniqueness -/

theorem startsBlank_of_blank {t : Text} (h : ∀ c ∈ t, isWhitespace c = true) :
    startsBlank t = true := by
  cases t with
  | nil => rfl
  | cons c t => exact h c List.mem_cons_self

/-- What follows the first of two parted stretches begins with white space. -/
theorem Parted.startsBlank {before post : Text} {a b : Span} (h : Parted (before ++ post) a b)
    (hstop : byteLength before = a.stop) : startsBlank post = true := by
  obtain ⟨⟨gap, hne, hslice, hgap⟩, -⟩ := h
  obtain ⟨before', rest, hsplit, hstop', -⟩ := (slice?_eq_some_iff _ _ _ _).1 hslice
  rw [List.append_assoc] at hsplit
  obtain ⟨rfl, rfl⟩ := append_inj hsplit (hstop.trans hstop'.symm)
  rw [startsBlank_append _ hne]
  exact startsBlank_of_blank hgap

/-- Stretches that split a text into sentences stand along it. -/
theorem along_of_splits {pre t : Text} {spans : List Span}
    (hslice : ∀ s ∈ spans,
      byteLength pre ≤ s.start ∧ slice? s.start s.stop (pre ++ t) = some s.text)
    (hapart : spans.Pairwise fun a b => a.stop ≤ b.start)
    (hsentence : ∀ s ∈ spans, IsSentence s.text)
    (hcovered : ∀ k c, charAt? k t = some c → isWhitespace c = false →
      ∃ s ∈ spans, s.start ≤ byteLength pre + k ∧ byteLength pre + k < s.stop)
    (hparted : spans.IsChain (Parted (pre ++ t))) :
    sentenceStrand.Along (byteLength pre) t spans := by
  induction spans generalizing pre t with
  | nil =>
    intro c hc
    obtain ⟨k, -, hk⟩ := exists_charAt?_of_mem hc
    by_contra hvisible
    obtain ⟨s, hs, -⟩ := hcovered k c hk (by simpa using hvisible)
    cases hs
  | cons a rest ih =>
    obtain ⟨hle, ha⟩ := hslice a List.mem_cons_self
    obtain ⟨left, post, hsplit, hleft, hstop⟩ := (slice?_eq_some_iff _ _ _ _).1 ha
    rw [List.append_assoc] at hsplit
    obtain ⟨gap, rfl, rfl⟩ := append_split_of_le hsplit (by omega)
    rw [byteLength_append] at hleft
    obtain ⟨hafter, hrestApart⟩ := List.pairwise_cons.1 hapart
    have hpre : byteLength (pre ++ gap ++ a.text) = a.stop := by
      simp only [byteLength_append]
      omega
    have hwhole : pre ++ (gap ++ (a.text ++ post)) = pre ++ gap ++ a.text ++ post := by simp
    rw [hwhole] at hslice hparted
    have hgap : ∀ c ∈ gap, isWhitespace c = true := by
      intro c hc
      obtain ⟨k, hlt, hk⟩ := exists_charAt?_of_mem hc
      rw [← charAt?_append_of_lt (a.text ++ post) hlt] at hk
      by_contra hvisible
      -- no stretch starts before the first one
      obtain ⟨s, hs, hstart, -⟩ := hcovered k c hk (by simpa using hvisible)
      rcases List.mem_cons.1 hs with rfl | hs
      · omega
      · have := hafter s hs
        omega
    have hrest : sentenceStrand.Along a.stop post rest := by
      rw [← hpre]
      refine ih ?_ hrestApart (fun s hs => hsentence s (List.mem_cons_of_mem a hs)) ?_ hparted.tail
      · intro s hs
        exact ⟨by rw [hpre]; exact hafter s hs, (hslice s (List.mem_cons_of_mem a hs)).2⟩
      · intro k c hc hvisible
        rw [hpre]
        have hmoved : charAt? (byteLength gap + byteLength a.text + k) (gap ++ (a.text ++ post))
            = some c := by
          rw [← List.append_assoc, ← byteLength_append,
            charAt?_append_of_le _ (Nat.le_add_right _ k), Nat.add_sub_cancel_left, hc]
        obtain ⟨s, hs, hstart, hlt⟩ := hcovered _ c hmoved hvisible
        rcases List.mem_cons.1 hs with rfl | hs
        · omega
        · exact ⟨s, hs, by omega, by omega⟩
    have hpost : startsBlank post = true := by
      cases rest with
      | nil => exact startsBlank_of_blank hrest
      | cons b rest => exact (List.isChain_cons_cons.1 hparted).1.startsBlank hpre
    have hfirst : startsBlank a.text = false := by
      obtain ⟨c, w, hw⟩ := List.exists_cons_of_ne_nil (hsentence a List.mem_cons_self).ne_nil
      have hc := (hsentence a List.mem_cons_self).first c (by rw [hw]; rfl)
      rw [hw]
      exact hc
    exact ⟨gap, post, (List.append_assoc ..).symm, hleft, hstop, ⟨hgap, hfirst, hpost⟩, hrest⟩

/-- White space in front of a sentence is all the white space that the text begins with. -/
theorem takeWhile_isWhitespace_append {gap w : Text} (hgap : ∀ c ∈ gap, isWhitespace c = true)
    (hw : IsSentence w) (post : Text) : (gap ++ (w ++ post)).takeWhile isWhitespace = gap := by
  obtain ⟨c, w', rfl⟩ := List.exists_cons_of_ne_nil hw.ne_nil
  have hc := hw.first c rfl
  rw [List.takeWhile_append_of_pos hgap, List.cons_append,
    List.takeWhile_cons_of_neg (by simp [hc]), List.append_nil]

/-- Whether a sentence may stop in front of a text: nothing but white space follows, or white space
follows the end of the sentence. -/
def StopsBefore (w post : Text) : Prop :=
  (∀ c ∈ post, isWhitespace c = true) ∨ EndsSentence w ∧ startsBlank post = true

/-- A sentence that another one begins with is the whole of it, if it may stop there. -/
theorem eq_nil_of_sentence_append {w more post : Text} (hmore : IsSentence (w ++ more))
    (hw : w ≠ []) (hpost : StopsBefore w (more ++ post)) : more = [] := by
  by_contra hne
  rcases hpost with hblank | ⟨⟨c, hc, hends⟩, hblank⟩
  · -- the longer one would end with white space
    have hlast := hmore.last (more.getLast hne)
      (by rw [List.getLast?_append_of_ne_nil _ hne, List.getLast?_eq_some_getLast hne]; rfl)
    rw [hblank _ (List.mem_append_left _ (List.getLast_mem hne))] at hlast
    cases hlast
  · -- the longer one would go on behind its end
    obtain ⟨d, more', rfl⟩ := List.exists_cons_of_ne_nil hne
    have hd : isWhitespace d = true := hblank
    obtain ⟨front, rfl⟩ := List.getLast?_eq_some_iff.1 hc
    have hpair : [c, d] <:+: front ++ [c] ++ d :: more' := ⟨front, more', by simp⟩
    rw [hmore.whole c d hpair hends] at hd
    cases hd

/-- Of two sentences at the start of a text that may both stop where they do, neither is longer. -/
theorem eq_of_sentence_append {v w post post' : Text} (hv : IsSentence v) (hw : IsSentence w)
    (h : v ++ post = w ++ post') (hpost : StopsBefore v post) (hpost' : StopsBefore w post') :
    v = w ∧ post = post' := by
  rcases List.append_eq_append_iff.1 h with ⟨more, rfl, rfl⟩ | ⟨more, rfl, rfl⟩
  · obtain rfl := eq_nil_of_sentence_append hw hv.ne_nil hpost
    exact ⟨(List.append_nil v).symm, rfl⟩
  · obtain rfl := eq_nil_of_sentence_append hv hw.ne_nil hpost'
    exact ⟨List.append_nil w, rfl⟩

/-- The first of some sentences along a text, and what the others stand in. -/
theorem exists_of_along_sentences {offset : Nat} {t : Text} {a : Span} {rest : List Span}
    (h : sentenceStrand.Along offset t (a :: rest))
    (hends : ∀ s ∈ (a :: rest).dropLast, EndsSentence s.text) :
    ∃ gap post, t = gap ++ (a.text ++ post) ∧ (∀ c ∈ gap, isWhitespace c = true) ∧
      offset + byteLength gap = a.start ∧ a.start + byteLength a.text = a.stop ∧
      sentenceStrand.Along a.stop post rest ∧ StopsBefore a.text post := by
  obtain ⟨gap, post, rfl, hstart, hstop, ⟨hgap, -, hpost⟩, hrest⟩ := h
  refine ⟨gap, post, List.append_assoc .., hgap, hstart, hstop, hrest, ?_⟩
  cases rest with
  | nil => exact .inl hrest
  | cons b rest => exact .inr ⟨hends a (by simp), hpost⟩

/-- White space holds no sentence. -/
theorem not_along_blank {offset : Nat} {t : Text} {a : Span} {rest : List Span}
    (h : sentenceStrand.Along offset t (a :: rest)) : ¬ ∀ c ∈ t, isWhitespace c = true := by
  intro hblank
  obtain ⟨gap, post, rfl, -, -, ⟨-, hfirst, -⟩, -⟩ := h
  rw [startsBlank_of_blank fun c hc => hblank c (by simp [sentenceStrand, hc])] at hfirst
  cases hfirst

/-- **Sentences along a text are determined by it,** if all but the last of them end as one. -/
theorem eq_of_along {offset : Nat} {t : Text} {xs ys : List Span}
    (hx : sentenceStrand.Along offset t xs) (hy : sentenceStrand.Along offset t ys)
    (hxs : ∀ s ∈ xs, IsSentence s.text) (hys : ∀ s ∈ ys, IsSentence s.text)
    (hxends : ∀ s ∈ xs.dropLast, EndsSentence s.text)
    (hyends : ∀ s ∈ ys.dropLast, EndsSentence s.text) : xs = ys := by
  induction xs generalizing offset t ys with
  | nil =>
    cases ys with
    | nil => rfl
    | cons b rest' => exact absurd hx (not_along_blank hy)
  | cons a rest ih =>
    cases ys with
    | nil => exact absurd hy (not_along_blank hx)
    | cons b rest' =>
      obtain ⟨gap, post, ht, hgap, hstart, hstop, hrest, hpost⟩ :=
        exists_of_along_sentences hx hxends
      obtain ⟨gap', post', ht', hgap', hstart', hstop', hrest', hpost'⟩ :=
        exists_of_along_sentences hy hyends
      have ha := hxs a List.mem_cons_self
      have hb := hys b List.mem_cons_self
      have hsame : gap = gap' := by
        rw [← takeWhile_isWhitespace_append hgap ha post, ← ht, ht',
          takeWhile_isWhitespace_append hgap' hb]
      rw [ht, hsame, List.append_cancel_left_eq] at ht'
      obtain ⟨htext, rfl⟩ := eq_of_sentence_append ha hb ht' hpost hpost'
      have hstarts : a.start = b.start := by rw [← hstart, ← hstart', hsame]
      have hstops : a.stop = b.stop := by rw [← hstop, ← hstop', hstarts, htext]
      have hspan : a = b := by
        obtain ⟨text, start, stop⟩ := a
        obtain ⟨text', start', stop'⟩ := b
        rw [Span.mk.injEq]
        exact ⟨htext, hstarts, hstops⟩
      rw [← hstops] at hrest'
      rw [hspan, ih hrest hrest' (fun s hs => hxs s (List.mem_cons_of_mem a hs))
        (fun s hs => hys s (List.mem_cons_of_mem b hs))
        (fun s hs => hxends s (mem_dropLast_cons hs)) fun s hs => hyends s (mem_dropLast_cons hs)]

/-- All but the last of some parted stretches end as sentences. -/
theorem endsSentence_of_isChain {t : Text} {spans : List Span} (h : spans.IsChain (Parted t)) :
    ∀ s ∈ spans.dropLast, EndsSentence s.text := by
  induction spans with
  | nil => simp
  | cons a rest ih =>
    cases rest with
    | nil => simp
    | cons b rest =>
      obtain ⟨hparted, hrest⟩ := List.isChain_cons_cons.1 h
      rw [List.dropLast_cons_cons]
      intro s hs
      rcases List.mem_cons.1 hs with rfl | hs
      · exact hparted.ended
      · exact ih hrest s hs

/-- **Sentence splitting is exact.**  The sentences that are found in a text are what they should
be, and nothing else is. -/
theorem splitsIntoSentences_iff (t : Text) (spans : List Span) :
    SplitsIntoSentences t spans ↔ t.sentences = spans := by
  constructor
  · intro h
    have halong : sentenceStrand.Along 0 t spans := by
      refine @along_of_splits [] t spans ?_ h.apart h.sentence ?_ h.parted
      · intro s hs
        exact ⟨Nat.zero_le _, (h.slice s hs).2⟩
      · intro k c hc hvisible
        rw [byteLength_nil, Nat.zero_add]
        exact h.covered k c hc hvisible
    exact eq_of_along (along_sentences t) halong (fun _ hs => isSentence_of_mem_sentences hs)
      h.sentence (fun _ hs => endsSentence_of_mem_dropLast hs) (endsSentence_of_isChain h.parted)
  · rintro rfl
    exact splitsIntoSentences_sentences t

-- a mark inside a word ends nothing, and several marks in a row end one sentence
example : (sentences " See v1.2 now?! Yes ".toList).map (fun s => (s.start, s.stop))
    = [(1, 15), (16, 19)] := by
  decide +kernel

end CodeProse.Text

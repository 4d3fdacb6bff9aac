/-
# Where phrases occur

A phrase occurs at a place of a text if its characters stand there, up to the case of ASCII letters,
between two word edges (`OccursAt`). The search for the phrases of a catalog finds just these places
(`mem_findAll_iff`), phrase by phrase and each in the order of the text (`pairwise_findAll`).
Phrases that differ by more than case never share a range (`pairwise_occurrences`).
-/
import CodeProse.Proofs.Text.Cut
import CodeProse.Style.Rules

namespace CodeProse.Style

open Text (slice? slice?_eq_some_iff)
open Unicode

/-! ## Taking a phrase off a text -/

@[simp] theorem eqIgnoreAsciiCase_iff (a b : Text) :
    eqIgnoreAsciiCase a b = true ↔ a.map Char.toLower = b.map Char.toLower := by
  simp [eqIgnoreAsciiCase]

/-- A reader that goes through a phrase and a text side by side takes off the text what is the same
as the phrase, seen through `f` there and through `g` here. -/
theorem take_eq_some_iff {take : Text → Text → Option (Text × Text)} {f g : Char → Char}
    (hnil : ∀ t, take [] t = some ([], t)) (hend : ∀ c p, take (c :: p) [] = none)
    (hcons : ∀ c p d t, take (c :: p) (d :: t)
      = if f c = g d then (take p t).map fun r => (d :: r.1, r.2) else none)
    (phrase t m rest : Text) :
    take phrase t = some (m, rest) ↔ t = m ++ rest ∧ m.map g = phrase.map f := by
  induction phrase generalizing t m with
  | nil =>
    rw [hnil]
    constructor
    · intro h
      obtain ⟨rfl, rfl⟩ := Prod.mk.inj (Option.some.inj h)
      exact ⟨rfl, rfl⟩
    · rintro ⟨rfl, hm⟩
      rw [List.map_eq_nil_iff.1 hm]
      rfl
  | cons c p ih =>
    cases t with
    | nil =>
      rw [hend]
      constructor
      · intro h
        cases h
      · rintro ⟨hm, hsame⟩
        rw [(List.append_eq_nil_iff.1 hm.symm).1] at hsame
        cases hsame
    | cons d t =>
      rw [hcons]
      constructor
      · intro h
        split at h
        case isTrue hcd =>
          obtain ⟨⟨m', rest'⟩, htake, hr⟩ := Option.map_eq_some_iff.1 h
          obtain ⟨rfl, rfl⟩ := Prod.mk.inj hr
          obtain ⟨rfl, hm⟩ := (ih t m').1 htake
          exact ⟨rfl, by rw [List.map_cons, List.map_cons, hm, hcd]⟩
        case isFalse => cases h
      · rintro ⟨ht, hsame⟩
        cases m with
        | nil => cases hsame
        | cons e m =>
          obtain ⟨rfl, rfl⟩ := List.cons.inj ht
          obtain ⟨hcd, hm⟩ := List.cons.inj hsame
          have htake : take p (m.append rest) = some (m, rest) := (ih _ m).2 ⟨rfl, hm⟩
          rw [if_pos hcd.symm, htake]
          rfl

/-- A phrase is taken off a text that begins with it, up to case. -/
theorem takePhrase?_eq_some_iff (phrase t m rest : Text) :
    takePhrase? phrase t = some (m, rest) ↔
      t = m ++ rest ∧ eqIgnoreAsciiCase m phrase = true := by
  rw [eqIgnoreAsciiCase_iff]
  exact take_eq_some_iff (fun _ => rfl) (fun _ _ => rfl) (fun _ _ _ _ => rfl) phrase t m rest

/-! ## Occurrences -/

/-- Between two texts stands a phrase, up to case, and a word edge is on both sides of it. -/
structure OccursBetween (phrase left matched right : Text) : Prop where
  same : eqIgnoreAsciiCase matched phrase = true
  front : isEdge left.getLast? (matched ++ right).head? = true
  back : isEdge (left ++ matched).getLast? right.head? = true

/-- At an offset of a text stands a phrase, written as in `matched`, as a whole word or words. -/
def OccursAt (phrase t : Text) (start : Nat) (matched : Text) : Prop :=
  ∃ left right, t = left ++ matched ++ right ∧ left.byteLength = start ∧
    OccursBetween phrase left matched right

/-- What occurs in a text can be sliced out of it. -/
theorem OccursAt.slice {phrase t matched : Text} {start : Nat}
    (h : OccursAt phrase t start matched) :
    slice? start (start + matched.byteLength) t = some matched := by
  obtain ⟨left, right, ht, hstart, -⟩ := h
  exact (slice?_eq_some_iff _ _ _ _).2 ⟨left, right, ht, hstart, rfl⟩

/-- A phrase that is not empty covers the place where it occurs. -/
theorem OccursAt.covers {phrase t matched : Text} {start : Nat}
    (h : OccursAt phrase t start matched) (hne : phrase ≠ []) :
    Text.Covers t start (start + matched.byteLength) := by
  refine ⟨matched, ?_, h.slice⟩
  rintro rfl
  obtain ⟨left, right, -, -, hoccurs⟩ := h
  have hsame := (eqIgnoreAsciiCase_iff _ _).1 hoccurs.same
  exact hne (List.map_eq_nil_iff.1 hsame.symm)

/-- Phrases that occur with the same range are the same up to case. -/
theorem OccursAt.same_of_range {phrase phrase' t matched matched' : Text} {start : Nat}
    (h : OccursAt phrase t start matched) (h' : OccursAt phrase' t start matched')
    (hlength : matched.byteLength = matched'.byteLength) :
    matched = matched' ∧ eqIgnoreAsciiCase phrase phrase' = true := by
  have hmatched : matched = matched' := by
    have hslice := h.slice
    rw [hlength, h'.slice] at hslice
    exact (Option.some.inj hslice).symm
  obtain ⟨left, right, -, -, hoccurs⟩ := h
  obtain ⟨left', right', -, -, hoccurs'⟩ := h'
  refine ⟨hmatched, ?_⟩
  have hsame := hoccurs.same
  have hsame' := hoccurs'.same
  rw [eqIgnoreAsciiCase_iff] at *
  rw [← hsame, ← hsame', hmatched]

/-- A phrase is found at the start of a text if it occurs there. -/
theorem phraseAt?_eq_some_iff (phrase lead t m : Text) :
    phraseAt? phrase lead.getLast? t = some m ↔
      ∃ right, t = m ++ right ∧ OccursBetween phrase lead m right := by
  have hlast : ∀ m : Text,
      (if m.isEmpty then lead.getLast? else m.getLast?) = (lead ++ m).getLast? := by
    intro m
    cases m with
    | nil => simp
    | cons c m => simp [List.getLast?_append, List.getLast?_cons]
  rw [phraseAt?]
  constructor
  · intro h
    obtain ⟨⟨m', right⟩, htake, h⟩ := Option.bind_eq_some_iff.1 h
    obtain ⟨rfl, hsame⟩ := (takePhrase?_eq_some_iff _ _ _ _).1 htake
    simp only [hlast] at h
    split at h
    case isTrue hedges =>
      obtain rfl := Option.some.inj h
      obtain ⟨hfront, hback⟩ := Bool.and_eq_true_iff.1 hedges
      exact ⟨right, rfl, hsame, hfront, hback⟩
    case isFalse => cases h
  · rintro ⟨right, rfl, hsame, hfront, hback⟩
    rw [(takePhrase?_eq_some_iff _ _ _ _).2 ⟨rfl, hsame⟩, Option.bind_some]
    simp only [hlast, hfront, hback, Bool.and_self, if_true]

/-! ## The search for one phrase -/

/-- What the search finds right where it stands, behind `lead`. -/
theorem foundHere_iff (index : Nat) (phrase lead t : Text) (o : Occurrence) :
    (∃ m, phraseAt? phrase lead.getLast? t = some m ∧
        o = ⟨index, lead.byteLength, lead.byteLength + m.byteLength, m⟩) ↔
      o.phrase = index ∧ o.stop = o.start + o.matched.byteLength ∧ lead.byteLength = o.start ∧
        ∃ right, t = o.matched ++ right ∧ OccursBetween phrase lead o.matched right := by
  constructor
  · rintro ⟨m, hm, rfl⟩
    exact ⟨rfl, rfl, rfl, (phraseAt?_eq_some_iff _ _ _ _).1 hm⟩
  · rintro ⟨hindex, hstop, hstart, hoccurs⟩
    refine ⟨o.matched, (phraseAt?_eq_some_iff _ _ _ _).2 hoccurs, ?_⟩
    obtain ⟨phrase', start, stop, matched⟩ := o
    simp only at hindex hstop hstart
    rw [hindex, hstop, hstart]

/-- At the end of a text the search finds what is right there. -/
theorem mem_occurrencesFrom_nil_iff (index : Nat) (phrase lead : Text) (o : Occurrence) :
    o ∈ occurrencesFrom index phrase lead.byteLength lead.getLast? [] ↔
      ∃ m, phraseAt? phrase lead.getLast? [] = some m ∧
        o = ⟨index, lead.byteLength, lead.byteLength + m.byteLength, m⟩ := by
  rw [occurrencesFrom]
  cases hm : phraseAt? phrase lead.getLast? [] with
  | none => simp
  | some m =>
    obtain ⟨right, ht, -⟩ := (phraseAt?_eq_some_iff _ _ _ _).1 hm
    obtain rfl := (List.append_eq_nil_iff.1 ht.symm).1
    simp

/-- Otherwise it finds what is right there, and what it finds from the next character on. -/
theorem mem_occurrencesFrom_cons_iff (index : Nat) (phrase : Text) (offset : Nat)
    (before : Option Char) (c : Char) (t : Text) (o : Occurrence) :
    o ∈ occurrencesFrom index phrase offset before (c :: t) ↔
      (∃ m, phraseAt? phrase before (c :: t) = some m ∧
        o = ⟨index, offset, offset + m.byteLength, m⟩) ∨
      o ∈ occurrencesFrom index phrase (offset + c.utf8Size) (some c) t := by
  rw [occurrencesFrom]
  cases phraseAt? phrase before (c :: t) with
  | none => simp
  | some m => simp

/-- **The search finds a phrase where it occurs.**  The text is the rest of a longer one, of which
`lead` has been passed. -/
theorem mem_occurrencesFrom_iff (index : Nat) (phrase lead t : Text) (o : Occurrence) :
    o ∈ occurrencesFrom index phrase lead.byteLength lead.getLast? t ↔
      o.phrase = index ∧ o.stop = o.start + o.matched.byteLength ∧
        ∃ left right, t = left ++ o.matched ++ right ∧
          lead.byteLength + left.byteLength = o.start ∧
          OccursBetween phrase (lead ++ left) o.matched right := by
  induction t generalizing lead with
  | nil =>
    rw [mem_occurrencesFrom_nil_iff, foundHere_iff]
    constructor
    · rintro ⟨hindex, hstop, hstart, right, ht, hoccurs⟩
      exact ⟨hindex, hstop, [], right, ht, hstart, by simpa using hoccurs⟩
    · rintro ⟨hindex, hstop, left, right, ht, hstart, hoccurs⟩
      obtain rfl : left = [] := (List.append_eq_nil_iff.1 (List.append_eq_nil_iff.1 ht.symm).1).1
      exact ⟨hindex, hstop, hstart, right, ht, by simpa using hoccurs⟩
  | cons c t ih =>
    have hnext := ih (lead ++ [c])
    simp only [Text.byteLength_append, Text.byteLength_cons, Text.byteLength_nil, Nat.add_zero,
      List.getLast?_append, List.getLast?_singleton, Option.some_or] at hnext
    rw [mem_occurrencesFrom_cons_iff, foundHere_iff, hnext]
    constructor
    · rintro (⟨hindex, hstop, hstart, right, ht, hoccurs⟩ |
        ⟨hindex, hstop, left, right, rfl, hstart, hoccurs⟩)
      · exact ⟨hindex, hstop, [], right, ht, hstart, by simpa using hoccurs⟩
      · refine ⟨hindex, hstop, c :: left, right, rfl, ?_, by simpa using hoccurs⟩
        rw [Text.byteLength_cons, ← hstart, Nat.add_assoc]
    · rintro ⟨hindex, hstop, left, right, ht, hstart, hoccurs⟩
      cases left with
      | nil => exact .inl ⟨hindex, hstop, hstart, right, ht, by simpa using hoccurs⟩
      | cons d left =>
        obtain ⟨rfl, rfl⟩ := List.cons.inj ht
        refine .inr ⟨hindex, hstop, left, right, rfl, ?_, by simpa using hoccurs⟩
        rw [← hstart, Text.byteLength_cons, Nat.add_assoc]

/-- The search finds the occurrences of a phrase in the order of the text. -/
theorem pairwise_occurrencesFrom (index : Nat) (phrase lead t : Text) :
    (occurrencesFrom index phrase lead.byteLength lead.getLast? t).Pairwise
      fun a b => a.start < b.start := by
  induction t generalizing lead with
  | nil =>
    rw [occurrencesFrom]
    split
    · exact List.pairwise_singleton _ _
    · exact .nil
  | cons c t ih =>
    have hrest := ih (lead ++ [c])
    have hmem := mem_occurrencesFrom_iff index phrase (lead ++ [c]) t
    simp only [Text.byteLength_append, Text.byteLength_cons, Text.byteLength_nil, Nat.add_zero,
      List.getLast?_append, List.getLast?_singleton, Option.some_or] at hrest hmem
    rw [occurrencesFrom]
    split
    case h_1 m hm =>
      refine List.pairwise_cons.2 ⟨fun o ho => ?_, hrest⟩
      obtain ⟨-, -, left, right, -, hstart, -⟩ := (hmem o).1 ho
      have := c.utf8Size_pos
      simp only
      omega
    case h_2 => exact hrest

/-! ## The search for the phrases of a catalog -/

/-- Where a phrase of a list occurs that is numbered from `index` on. -/
theorem mem_findFrom_iff (index : Nat) (t : Text) (phrases : List Text) (o : Occurrence) :
    o ∈ findFrom index t phrases ↔
      o.stop = o.start + o.matched.byteLength ∧
        ∃ k phrase, phrases[k]? = some phrase ∧ o.phrase = index + k ∧
          OccursAt phrase t o.start o.matched := by
  induction phrases generalizing index with
  | nil => simp [findFrom]
  | cons phrase rest ih =>
    have hfirst := mem_occurrencesFrom_iff index phrase [] t o
    simp only [Text.byteLength_nil, List.getLast?_nil, Nat.zero_add, List.nil_append] at hfirst
    rw [findFrom, List.mem_append, hfirst, ih]
    constructor
    · rintro (⟨hindex, hstop, left, right, hsplit⟩ | ⟨hstop, k, p, hk, hindex, hoccurs⟩)
      · exact ⟨hstop, 0, phrase, rfl, hindex, left, right, hsplit⟩
      · exact ⟨hstop, k + 1, p, by simpa using hk, by omega, hoccurs⟩
    · rintro ⟨hstop, k, p, hk, hindex, hoccurs⟩
      cases k with
      | zero =>
        obtain rfl : phrase = p := Option.some.inj hk
        obtain ⟨left, right, hsplit⟩ := hoccurs
        exact .inl ⟨hindex, hstop, left, right, hsplit⟩
      | succ k => exact .inr ⟨hstop, k, p, by simpa using hk, by omega, hoccurs⟩

/-- **The search for the phrases of a catalog finds each of them where it occurs, and nothing
else.** -/
theorem mem_findAll_iff (phrases : List Text) (t : Text) (o : Occurrence) :
    o ∈ findAll phrases t ↔
      o.stop = o.start + o.matched.byteLength ∧
        ∃ phrase, phrases[o.phrase]? = some phrase ∧ OccursAt phrase t o.start o.matched := by
  rw [findAll, mem_findFrom_iff]
  constructor
  · rintro ⟨hstop, k, phrase, hk, hindex, hoccurs⟩
    rw [Nat.zero_add] at hindex
    exact ⟨hstop, phrase, by rw [hindex, hk], hoccurs⟩
  · rintro ⟨hstop, phrase, hk, hoccurs⟩
    exact ⟨hstop, o.phrase, phrase, hk, (Nat.zero_add _).symm, hoccurs⟩

/-- Occurrences in the order in which they are found. -/
def Occurrence.foundFirst (a b : Occurrence) : Prop :=
  a.phrase < b.phrase ∨ (a.phrase = b.phrase ∧ a.start < b.start)

theorem pairwise_findFrom (index : Nat) (t : Text) (phrases : List Text) :
    (findFrom index t phrases).Pairwise Occurrence.foundFirst := by
  induction phrases generalizing index with
  | nil => exact .nil
  | cons phrase rest ih =>
    have hindex : ∀ o ∈ occurrencesFrom index phrase 0 none t, o.phrase = index := fun o ho =>
      ((mem_occurrencesFrom_iff index phrase [] t o).1 ho).1
    have hordered : (occurrencesFrom index phrase 0 none t).Pairwise fun a b => a.start < b.start :=
      pairwise_occurrencesFrom index phrase [] t
    rw [findFrom]
    refine List.pairwise_append.2 ⟨?_, ih (index + 1), fun a ha b hb => ?_⟩
    · refine hordered.imp_of_mem fun {a b} ha hb hlt => .inr ⟨?_, hlt⟩
      rw [hindex a ha, hindex b hb]
    · obtain ⟨-, k, -, -, hb, -⟩ := (mem_findFrom_iff _ _ _ _).1 hb
      have ha := hindex a ha
      exact .inl (by omega)

/-- Phrases are found one after the other, each in the order of the text. -/
theorem pairwise_findAll (phrases : List Text) (t : Text) :
    (findAll phrases t).Pairwise Occurrence.foundFirst :=
  pairwise_findFrom 0 t phrases

/-! ## Occurrences with their entries -/

section Catalog

variable {α : Type} {catalog : List α} {phrase : α → Text} {t : Text}

/-- **Each entry of a catalog is found where its phrase occurs.** -/
theorem mem_occurrences_iff (e : α) (o : Occurrence) :
    (e, o) ∈ occurrences catalog phrase t ↔
      catalog[o.phrase]? = some e ∧ o.stop = o.start + o.matched.byteLength ∧
        OccursAt (phrase e) t o.start o.matched := by
  rw [occurrences, List.mem_filterMap]
  constructor
  · rintro ⟨o', ho', h⟩
    obtain ⟨e', he', h⟩ := Option.map_eq_some_iff.1 h
    obtain ⟨rfl, rfl⟩ := Prod.mk.inj h
    obtain ⟨hstop, p, hp, hoccurs⟩ := (mem_findAll_iff _ _ _).1 ho'
    rw [List.getElem?_map, he', Option.map_some] at hp
    obtain rfl := Option.some.inj hp
    exact ⟨he', hstop, hoccurs⟩
  · rintro ⟨he, hstop, hoccurs⟩
    refine ⟨o, (mem_findAll_iff _ _ _).2 ⟨hstop, phrase e, ?_, hoccurs⟩, by rw [he]; rfl⟩
    rw [List.getElem?_map, he, Option.map_some]

/-- Where no two phrases of a catalog are the same up to case, no two of its occurrences have the
same range. -/
theorem pairwise_occurrences (h : (catalog.map fun e => (phrase e).map Char.toLower).Nodup) :
    (occurrences catalog phrase t).Pairwise fun a b =>
      (a.2.start, a.2.stop) ≠ (b.2.start, b.2.stop) := by
  have hdistinct : ∀ (i j : Nat) (e f : α), catalog[i]? = some e → catalog[j]? = some f →
      eqIgnoreAsciiCase (phrase e) (phrase f) = true → i = j := by
    intro i j e f he hf hsame
    rw [eqIgnoreAsciiCase_iff] at hsame
    obtain ⟨hi, -⟩ := List.getElem?_eq_some_iff.1 he
    refine (List.getElem?_inj (by simpa using hi) h).1 ?_
    rw [List.getElem?_map, List.getElem?_map, he, hf, Option.map_some, Option.map_some, hsame]
  have hmem : ∀ a ∈ occurrences catalog phrase t, catalog[a.2.phrase]? = some a.1 ∧
      a.2.stop = a.2.start + a.2.matched.byteLength ∧
      OccursAt (phrase a.1) t a.2.start a.2.matched := fun a ha =>
    (mem_occurrences_iff a.1 a.2).1 ha
  have hordered : (occurrences catalog phrase t).Pairwise fun a b => a.2.foundFirst b.2 := by
    rw [occurrences, List.pairwise_filterMap]
    refine (pairwise_findAll _ _).imp fun {o o'} hlt a ha b hb => ?_
    obtain ⟨e, -, rfl⟩ := Option.map_eq_some_iff.1 ha
    obtain ⟨f, -, rfl⟩ := Option.map_eq_some_iff.1 hb
    exact hlt
  refine hordered.imp_of_mem fun {a b} ha hb hlt hrange => ?_
  obtain ⟨hea, hstopa, hoccursa⟩ := hmem a ha
  obtain ⟨heb, hstopb, hoccursb⟩ := hmem b hb
  obtain ⟨hstart, hstop⟩ := Prod.mk.inj hrange
  rw [← hstart] at hoccursb
  -- equal ranges hold the same characters, so the phrases are the same and stand in one place
  obtain ⟨-, hsame⟩ := hoccursa.same_of_range hoccursb (by omega)
  have := hdistinct _ _ _ _ hea heb hsame
  rcases hlt with hlt | ⟨-, hlt⟩
  · omega
  · omega

end Catalog

end CodeProse.Style

/-
# The search for phrases is exact

A phrase of a list stands in a range of a text if the characters there are those of the phrase, up to
the case of ASCII letters (`IsHit`). The search finds the phrases that stand between two word edges,
each range once for each phrase, by phrase and then by position; and only one list meets this
description (`FindsPhrases`).

It comes to the same to take a list of all the places where phrases stand, in whatever order a search
for many phrases at once comes upon them, to drop those without word edges, and to sort the rest
(`wholeWords`).  Such a search goes by bytes, so it may find an empty phrase inside a character too.
-/
import CodeProse.Proofs.Style.Phrase
import CodeProse.Proofs.Text.Atom

namespace CodeProse.Style

open Text (cutAt? slice? isBoundary slice?_eq_some_iff)
open Unicode

/-! ## Hits -/

/-- A place where a phrase stands: the number of the phrase and a range of bytes. -/
structure Hit where
  phrase : Nat
  start : Nat
  stop : Nat
  deriving DecidableEq, Repr

/-- The place of an occurrence. -/
def Occurrence.hit (o : Occurrence) : Hit :=
  ⟨o.phrase, o.start, o.stop⟩

/-- The characters in a range of a text are those of a phrase of a list, up to the case of ASCII
letters. -/
def IsHit (phrases : List Text) (t : Text) (h : Hit) : Prop :=
  ∃ phrase word, phrases[h.phrase]? = some phrase ∧ slice? h.start h.stop t = some word ∧
    eqIgnoreAsciiCase word phrase = true

instance (phrases : List Text) (t : Text) (h : Hit) : Decidable (IsHit phrases t h) :=
  decidable_of_iff ((phrases[h.phrase]?).any (fun phrase => (slice? h.start h.stop t).any fun word =>
    eqIgnoreAsciiCase word phrase) = true) <| by
      simp only [IsHit, Option.any_eq_true]
      constructor
      · rintro ⟨phrase, hphrase, word, hword, hsame⟩
        exact ⟨phrase, word, hphrase, hword, hsame⟩
      · rintro ⟨phrase, word, hphrase, hword, hsame⟩
        exact ⟨phrase, hphrase, word, hword, hsame⟩

/-- Whether an offset lies between characters of a text of which one is in a word and the other is
not. -/
def isWordEdge (n : Nat) (t : Text) : Bool :=
  (cutAt? n t).any fun p => p.1.getLast?.any isAsciiWordChar != p.2.head?.any isAsciiWordChar

/-- Hits in the order of the phrases, and of their starts. -/
def Hit.sortsFirst (a b : Hit) : Bool :=
  a.phrase < b.phrase || (a.phrase == b.phrase && a.start ≤ b.start)

/-- A list has all the places in a text where a phrase stands between word edges: each of them once,
by phrase and then by start, and with the words as they stand there. -/
structure FindsPhrases (phrases : List Text) (t : Text) (found : List Occurrence) : Prop where
  mem_iff : ∀ h, h ∈ found.map Occurrence.hit ↔
    IsHit phrases t h ∧ isWordEdge h.start t = true ∧ isWordEdge h.stop t = true
  once : (found.map Occurrence.hit).Nodup
  sorted : (found.map Occurrence.hit).Pairwise fun a b => a.sortsFirst b = true
  matched : ∀ o ∈ found, slice? o.start o.stop t = some o.matched

/-- What a search for all phrases at once is to come upon: every hit once.  Inside characters it may
find what it likes. -/
structure ReportsAll (phrases : List Text) (t : Text) (hits : List Hit) : Prop where
  once : hits.Nodup
  mem_iff : ∀ h, isBoundary h.start t = true → isBoundary h.stop t = true →
    (h ∈ hits ↔ IsHit phrases t h)

/-- The hits between word edges, sorted. -/
def wholeWords (t : Text) (hits : List Hit) : List Hit :=
  (hits.filter fun h => isWordEdge h.start t && isWordEdge h.stop t).mergeSort Hit.sortsFirst

variable {phrases : List Text} {t : Text}

/-! ## Word edges -/

/-- Between two parts of a text is a word edge, or not. -/
theorem isWordEdge_append (left right : Text) :
    isWordEdge left.byteLength (left ++ right) = isEdge left.getLast? right.head? := by
  rw [isWordEdge, Text.cutAt?_append, Option.any_some]
  rfl

/-- A word edge lies between characters. -/
theorem isBoundary_of_isWordEdge {n : Nat} (h : isWordEdge n t = true) : isBoundary n t = true := by
  rw [isWordEdge] at h
  rw [isBoundary]
  cases hcut : cutAt? n t with
  | none => rw [hcut] at h; cases h
  | some p => rfl

/-- A phrase occurs where it stands between word edges. -/
theorem occursAt_iff (phrase : Text) (start : Nat) (matched : Text) :
    OccursAt phrase t start matched ↔
      slice? start (start + matched.byteLength) t = some matched ∧
        eqIgnoreAsciiCase matched phrase = true ∧ isWordEdge start t = true ∧
        isWordEdge (start + matched.byteLength) t = true := by
  constructor
  · intro h
    refine ⟨h.slice, ?_⟩
    obtain ⟨left, right, rfl, rfl, hoccurs⟩ := h
    refine ⟨hoccurs.same, ?_, ?_⟩
    · rw [List.append_assoc, isWordEdge_append]
      exact hoccurs.front
    · rw [← Text.byteLength_append, isWordEdge_append]
      exact hoccurs.back
  · rintro ⟨hslice, hsame, hfront, hback⟩
    obtain ⟨left, right, rfl, rfl, -⟩ := (slice?_eq_some_iff _ _ _ _).1 hslice
    rw [← Text.byteLength_append, isWordEdge_append] at hback
    rw [List.append_assoc, isWordEdge_append] at hfront
    exact ⟨left, right, rfl, rfl, hsame, hfront, hback⟩

/-! ## One list only -/

/-- A hit is as long as its phrase. -/
theorem IsHit.stop_eq {h : Hit} (hit : IsHit phrases t h) :
    ∃ phrase, phrases[h.phrase]? = some phrase ∧ h.stop = h.start + phrase.byteLength := by
  obtain ⟨phrase, word, hphrase, hslice, hsame⟩ := hit
  obtain ⟨left, right, -, -, hstop⟩ := (slice?_eq_some_iff _ _ _ _).1 hslice
  refine ⟨phrase, hphrase, ?_⟩
  rw [← Text.byteLength_map_toLower phrase, ← (eqIgnoreAsciiCase_iff _ _).1 hsame,
    Text.byteLength_map_toLower, hstop]

theorem Hit.sortsFirst_iff (a b : Hit) :
    a.sortsFirst b = true ↔ a.phrase < b.phrase ∨ (a.phrase = b.phrase ∧ a.start ≤ b.start) := by
  simp [Hit.sortsFirst]

/-- **Sorted hits are determined by which they are.** -/
theorem eq_of_sortsFirst {a b : List Hit} (ha : a.Nodup) (hb : b.Nodup)
    (hmem : ∀ h, h ∈ a ↔ h ∈ b) (hit : ∀ h ∈ a, IsHit phrases t h)
    (hasorted : a.Pairwise fun x y => x.sortsFirst y = true)
    (hbsorted : b.Pairwise fun x y => x.sortsFirst y = true) : a = b := by
  refine List.Perm.eq_of_pairwise ?_ hasorted hbsorted ((List.perm_ext_iff_of_nodup ha hb).2 hmem)
  intro x y hx hy hxy hyx
  rw [Hit.sortsFirst_iff] at hxy hyx
  have hphrase : x.phrase = y.phrase := by omega
  have hstart : x.start = y.start := by omega
  -- in one place a phrase has one length
  obtain ⟨p, hp, hxstop⟩ := (hit x hx).stop_eq
  obtain ⟨q, hq, hystop⟩ := (hit y ((hmem y).2 hy)).stop_eq
  rw [hphrase, hq] at hp
  obtain rfl := Option.some.inj hp
  obtain ⟨xphrase, xstart, xstop⟩ := x
  obtain ⟨yphrase, ystart, ystop⟩ := y
  simp only at hphrase hstart hxstop hystop
  rw [hphrase, hstart, hxstop, hystop, hstart]

/-- Occurrences are determined by their places. -/
theorem eq_map_of_matched {found : List Occurrence}
    (h : ∀ o ∈ found, slice? o.start o.stop t = some o.matched) :
    found = (found.map Occurrence.hit).map fun h =>
      ⟨h.phrase, h.start, h.stop, (slice? h.start h.stop t).getD []⟩ := by
  rw [List.map_map]
  calc found = found.map id := (List.map_id found).symm
    _ = _ := List.map_congr_left fun o ho => by
      rw [Function.comp_apply, Occurrence.hit, h o ho]
      rfl

theorem FindsPhrases.unique {found found' : List Occurrence} (h : FindsPhrases phrases t found)
    (h' : FindsPhrases phrases t found') : found = found' := by
  have hhits : found.map Occurrence.hit = found'.map Occurrence.hit :=
    eq_of_sortsFirst h.once h'.once (fun x => (h.mem_iff x).trans (h'.mem_iff x).symm)
      (fun x hx => ((h.mem_iff x).1 hx).1) h.sorted h'.sorted
  rw [eq_map_of_matched h.matched, hhits, ← eq_map_of_matched h'.matched]

/-! ## The search -/

/-- The search finds the hits between word edges. -/
theorem mem_map_hit_iff (h : Hit) : h ∈ (findAll phrases t).map Occurrence.hit ↔
    IsHit phrases t h ∧ isWordEdge h.start t = true ∧ isWordEdge h.stop t = true := by
  rw [List.mem_map]
  constructor
  · rintro ⟨o, ho, rfl⟩
    obtain ⟨hstop, phrase, hphrase, hoccurs⟩ := (mem_findAll_iff _ _ _).1 ho
    obtain ⟨hslice, hsame, hfront, hback⟩ := (occursAt_iff _ _ _).1 hoccurs
    rw [← hstop] at hslice hback
    exact ⟨⟨phrase, o.matched, hphrase, hslice, hsame⟩, hfront, hback⟩
  · rintro ⟨⟨phrase, word, hphrase, hslice, hsame⟩, hfront, hback⟩
    obtain ⟨left, right, -, -, hstop⟩ := (slice?_eq_some_iff _ _ _ _).1 hslice
    refine ⟨⟨h.phrase, h.start, h.stop, word⟩, (mem_findAll_iff _ _ _).2 ⟨hstop.symm, phrase, hphrase,
      (occursAt_iff _ _ _).2 ⟨?_, hsame, hfront, ?_⟩⟩, rfl⟩
    · rw [hstop]
      exact hslice
    · rw [hstop]
      exact hback

theorem pairwise_map_hit (phrases : List Text) (t : Text) :
    ((findAll phrases t).map Occurrence.hit).Pairwise fun a b =>
      a.sortsFirst b = true ∧ a ≠ b := by
  rw [List.pairwise_map]
  refine (pairwise_findAll phrases t).imp fun {a b} hlt => ⟨?_, ?_⟩
  · rw [Hit.sortsFirst_iff]
    rcases hlt with hlt | ⟨heq, hlt⟩
    · exact .inl hlt
    · exact .inr ⟨heq, Nat.le_of_lt hlt⟩
  · intro heq
    obtain ⟨hphrase, hstart, -⟩ := Hit.mk.inj heq
    rcases hlt with hlt | ⟨-, hlt⟩
    · omega
    · omega

/-- The search finds the phrases. -/
theorem findsPhrases_findAll (phrases : List Text) (t : Text) :
    FindsPhrases phrases t (findAll phrases t) where
  mem_iff := mem_map_hit_iff
  once := (pairwise_map_hit phrases t).imp And.right
  sorted := (pairwise_map_hit phrases t).imp And.left
  matched o ho := by
    obtain ⟨hstop, phrase, -, hoccurs⟩ := (mem_findAll_iff _ _ _).1 ho
    rw [hstop]
    exact hoccurs.slice

/-- The hits that a search for all phrases comes upon, between word edges and sorted, are those that
are found. -/
theorem wholeWords_eq {hits : List Hit} (h : ReportsAll phrases t hits) :
    wholeWords t hits = (findAll phrases t).map Occurrence.hit := by
  have hfound := findsPhrases_findAll phrases t
  have hmem : ∀ x, x ∈ wholeWords t hits ↔ x ∈ (findAll phrases t).map Occurrence.hit := by
    intro x
    rw [wholeWords, List.mem_mergeSort, List.mem_filter, Bool.and_eq_true, mem_map_hit_iff]
    constructor
    · rintro ⟨hx, hfront, hback⟩
      exact ⟨(h.mem_iff x (isBoundary_of_isWordEdge hfront) (isBoundary_of_isWordEdge hback)).1 hx,
        hfront, hback⟩
    · rintro ⟨hx, hfront, hback⟩
      exact ⟨(h.mem_iff x (isBoundary_of_isWordEdge hfront) (isBoundary_of_isWordEdge hback)).2 hx,
        hfront, hback⟩
  refine eq_of_sortsFirst ?_ hfound.once hmem (fun x hx => ((mem_map_hit_iff x).1 ((hmem x).1 hx)).1)
    ?_ hfound.sorted
  · exact (List.mergeSort_perm _ _).nodup_iff.2 (h.once.filter _)
  · refine List.pairwise_mergeSort ?_ ?_ _
    · intro a b c hab hbc
      rw [Hit.sortsFirst_iff] at *
      omega
    · intro a b
      rw [Bool.or_eq_true, Hit.sortsFirst_iff, Hit.sortsFirst_iff]
      omega

/-- **The search for phrases is exact.**  The list that it returns is the one list that has all the
places where a phrase of the given list stands between word edges, each once and in order; and it is
what any search for all phrases at once comes to, rid of what is not between word edges and sorted. -/
theorem findsPhrases_iff (phrases : List Text) (t : Text) :
    (∀ found, FindsPhrases phrases t found ↔ found = findAll phrases t) ∧
      ∀ hits, ReportsAll phrases t hits →
        wholeWords t hits = (findAll phrases t).map Occurrence.hit := by
  refine ⟨fun found => ⟨fun h => h.unique (findsPhrases_findAll phrases t), ?_⟩,
    fun hits h => wholeWords_eq h⟩
  rintro rfl
  exact findsPhrases_findAll phrases t


/-- A phrase that is listed twice, one that it ends, and the empty phrase. -/
def nestedPhrases : List Text :=
  ["on".toList, "é on".toList, "on".toList, []]

/-- What a search comes upon in the text "é On", from the front backwards: the empty phrase between
all bytes, and the other phrases at the end. -/
def nestedHits : List Hit :=
  [⟨3, 0, 0⟩, ⟨3, 1, 1⟩, ⟨3, 2, 2⟩, ⟨3, 3, 3⟩, ⟨3, 4, 4⟩, ⟨1, 0, 5⟩, ⟨0, 3, 5⟩, ⟨2, 3, 5⟩, ⟨3, 5, 5⟩]

/-- Of the overlapping hits only those at the end, and the empty ones around them, are between word
edges; one is inside a character. -/
theorem findsPhrases_iff_nested : ReportsAll nestedPhrases "é On".toList nestedHits ∧
    wholeWords "é On".toList nestedHits
      = (findAll nestedPhrases "é On".toList).map Occurrence.hit := by
  have hsmall : ∀ k < 4, ∀ start < 6, ∀ stop < 6,
      (⟨k, start, stop⟩ : Hit) ∈ nestedHits ∧ isBoundary start "é On".toList = true ↔
        IsHit nestedPhrases "é On".toList ⟨k, start, stop⟩ := by
    decide +kernel
  have hlisted : ∀ h ∈ nestedHits, h.phrase < 4 := by decide +kernel
  have hlength : Text.byteLength "é On".toList = 5 := by decide +kernel
  have hreports : ReportsAll nestedPhrases "é On".toList nestedHits := by
    refine ⟨by decide +kernel, fun h hstart hstop => ?_⟩
    have hle := Text.le_of_isBoundary hstart
    have hle' := Text.le_of_isBoundary hstop
    rw [hlength] at hle hle'
    by_cases hk : h.phrase < 4
    · rw [← hsmall h.phrase hk h.start (by omega) h.stop (by omega), and_iff_left hstart]
    · refine iff_of_false (fun hmem => hk (hlisted h hmem)) ?_
      rintro ⟨phrase, word, hphrase, -⟩
      exact hk (List.getElem?_eq_some_iff.1 hphrase).1
  exact ⟨hreports, (findsPhrases_iff _ _).2 _ hreports⟩

end CodeProse.Style

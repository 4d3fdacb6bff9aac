/-
# Where findings stand

A grammar service counts in UTF-16, and a text is cut at bytes. An offset in UTF-16 falls between
characters unless it is past the end or behind the first half of a surrogate pair
(`Text.fallsBetween_iff`). The range that is made of a finding is that of the characters it counts,
whenever it counts whole characters and at least one; and every range of whole characters is made of
the finding that counts them (`Grammar.convertsUnits`). The sum of offset and length may overflow a
machine word. Then no range is made, whatever the word holds (`Grammar.not_converts_wrapped`).
-/
import CodeProse.Proofs.GrammarChecks

namespace CodeProse

namespace Text

/-! ## UTF-16 -/

/-- The UTF-16 form of a character: one code unit, or a pair of surrogates. -/
def charUnits (c : Char) : List UInt16 :=
  if c.toNat < 0x10000 then [c.toNat.toUInt16]
  else
    let n := c.toNat - 0x10000
    [(0xD800 + n / 0x400).toUInt16, (0xDC00 + n % 0x400).toUInt16]

/-- The UTF-16 form of a text. -/
def utf16 (t : Text) : List UInt16 :=
  t.flatMap charUnits

/-- Whether a code unit is the second half of a pair of surrogates. -/
def isTrailing (u : UInt16) : Bool :=
  0xDC00 ≤ u && u ≤ 0xDFFF

/-- Between the characters of a text, `n` code units of its UTF-16 form have passed. -/
def FallsBetween (n : Nat) (t : Text) : Prop :=
  ∃ before after : Text, t = before ++ after ∧ (utf16 before).length = n

@[simp] theorem utf16_nil : utf16 [] = [] := rfl

@[simp] theorem utf16_cons (c : Char) (t : Text) : utf16 (c :: t) = charUnits c ++ utf16 t := rfl

@[simp] theorem utf16_append (a b : Text) : utf16 (a ++ b) = utf16 a ++ utf16 b :=
  List.flatMap_append

theorem length_charUnits (c : Char) : (charUnits c).length = unitSize c := by
  unfold charUnits unitSize
  split <;> rfl

/-- The length that is counted is that of the UTF-16 form. -/
theorem length_utf16 (t : Text) : (utf16 t).length = unitLength t := by
  induction t with
  | nil => rfl
  | cons c t ih => rw [utf16_cons, List.length_append, length_charUnits, ih, unitLength]

theorem isTrailing_iff {n : Nat} (h : n < 0x10000) :
    isTrailing n.toUInt16 = true ↔ 0xDC00 ≤ n ∧ n ≤ 0xDFFF := by
  have hn : n.toUInt16.toNat = n := Nat.mod_eq_of_lt h
  rw [isTrailing, Bool.and_eq_true, decide_eq_true_eq, decide_eq_true_eq, UInt16.le_iff_toNat_le,
    UInt16.le_iff_toNat_le, hn]
  rfl

/-- A character is one code unit or a pair, and only the second half of a pair trails. -/
theorem charUnits_cases (c : Char) :
    (∃ u, charUnits c = [u] ∧ isTrailing u = false) ∨
      ∃ u v, charUnits c = [u, v] ∧ isTrailing u = false ∧ isTrailing v = true := by
  have hvalid : c.toNat < 0xD800 ∨ 0xDFFF < c.toNat ∧ c.toNat < 0x110000 := c.valid
  unfold charUnits
  split
  case isTrue hsmall =>
    refine .inl ⟨_, rfl, ?_⟩
    rw [Bool.eq_false_iff, ne_eq, isTrailing_iff hsmall]
    omega
  case isFalse hlarge =>
    refine .inr ⟨_, _, rfl, ?_, ?_⟩
    · rw [Bool.eq_false_iff, ne_eq, isTrailing_iff (by omega)]
      omega
    · rw [isTrailing_iff (by omega)]
      omega

/-- The first code unit of a text does not trail. -/
theorem not_isTrailing_head? (t : Text) : ∀ u ∈ (utf16 t).head?, isTrailing u = false := by
  cases t with
  | nil => simp
  | cons c t =>
    rw [utf16_cons]
    rcases charUnits_cases c with ⟨u, hc, hu⟩ | ⟨u, v, hc, hu, -⟩
    · rw [hc]
      simpa using hu
    · rw [hc]
      simpa using hu

/-- **An offset falls between characters** exactly if it is not past the end and the code unit there
is not the second half of a pair. -/
theorem fallsBetween_iff (n : Nat) (t : Text) :
    FallsBetween n t ↔ n ≤ (utf16 t).length ∧ ∀ u ∈ (utf16 t)[n]?, isTrailing u = false := by
  constructor
  · rintro ⟨before, after, rfl, rfl⟩
    rw [utf16_append, List.length_append, List.getElem?_append_right (Nat.le_refl _), Nat.sub_self,
      ← List.head?_eq_getElem?]
    exact ⟨Nat.le_add_right _ _, not_isTrailing_head? after⟩
  · rintro ⟨hle, hunit⟩
    induction t generalizing n with
    | nil =>
      exact ⟨[], [], rfl, (Nat.le_zero.1 hle).symm⟩
    | cons c t ih =>
      -- the start, the inside and what is behind the first character
      rcases Nat.eq_zero_or_pos n with rfl | hpos
      · exact ⟨[], c :: t, rfl, rfl⟩
      · have hbehind : (charUnits c).length ≤ n := by
          rcases charUnits_cases c with ⟨u, hc, -⟩ | ⟨u, v, hc, -, hv⟩
          · rw [hc]
            exact hpos
          · rw [hc]
            by_contra hlt
            obtain rfl : n = 1 := by
              simp only [List.length_cons, List.length_nil] at hlt
              omega
            rw [utf16_cons, hc] at hunit
            rw [hunit v rfl] at hv
            cases hv
        rw [utf16_cons, List.getElem?_append_right hbehind] at hunit
        rw [utf16_cons, List.length_append] at hle
        obtain ⟨before, after, rfl, hbefore⟩ :=
          ih (n - (charUnits c).length) (by omega) hunit
        refine ⟨c :: before, after, rfl, ?_⟩
        rw [utf16_cons, List.length_append, hbefore]
        omega

instance (n : Nat) (t : Text) : Decidable (FallsBetween n t) :=
  decidable_of_iff (n ≤ (utf16 t).length ∧ (utf16 t)[n]?.all (fun u => !isTrailing u) = true) <| by
    rw [fallsBetween_iff, Option.all_eq_true]
    simp only [Option.mem_def, Bool.not_eq_true']

-- the third code unit behind the blank would cut the pair in two
example : FallsBetween 2 "A 😀 dog.".toList ∧ ¬ FallsBetween 3 "A 😀 dog.".toList
    ∧ FallsBetween 4 "A 😀 dog.".toList := by
  decide +kernel

/-- The first two parts of a text as slices. -/
theorem slices_of_split (before word after : Text) :
    slice? 0 (byteLength before) (before ++ word ++ after) = some before ∧
      slice? (byteLength before) (byteLength before + byteLength word) (before ++ word ++ after)
        = some word := by
  constructor
  · exact (slice?_eq_some_iff _ _ _ _).2 ⟨[], word ++ after, by simp, rfl, Nat.zero_add _⟩
  · exact (slice?_eq_some_iff _ _ _ _).2 ⟨before, after, rfl, rfl, rfl⟩

end Text

namespace Grammar

open Text

/-! ## Ranges of findings -/

/-- A finding fits a text, if it ends at `stop` code units: it counts something, and both its ends
are in the text and fall between characters. -/
def Fits (t : Text) (m : GrammarMatch) (stop : Nat) : Prop :=
  0 < m.length ∧ stop ≤ (utf16 t).length ∧ FallsBetween m.offset t ∧ FallsBetween stop t

/-- In a text, offsets and lengths that count UTF-16 code units are turned into ranges of bytes, and
nothing is lost, where `stop` says how many code units there are up to the end of a finding. -/
structure Converts (stop : GrammarMatch → Nat) (t : Text) : Prop where
  /-- A range is made of a finding that fits the text. -/
  isSome_iff : ∀ m : GrammarMatch, m.length < wordSize →
    ((matchRange? t m).isSome = true ↔ Fits t m (stop m))
  /-- The range holds as many code units as the finding counts, behind as many as its offset. -/
  counts : ∀ m : GrammarMatch, m.length < wordSize → ∀ start stop,
    matchRange? t m = some (start, stop) →
      start < stop ∧ isBoundary start t = true ∧ isBoundary stop t = true ∧
        ∃ before word, slice? 0 start t = some before ∧ slice? start stop t = some word ∧
          (utf16 before).length = m.offset ∧ (utf16 word).length = m.length
  /-- Every range of whole characters, at least one, is made of the finding that counts them. -/
  found : ∀ start stop, start < stop → isBoundary start t = true → isBoundary stop t = true →
    ∃ before word, slice? 0 start t = some before ∧ slice? start stop t = some word ∧
      ∀ m : GrammarMatch, m.offset = (utf16 before).length → m.length = (utf16 word).length →
        matchRange? t m = some (start, stop)

/-- Offsets and lengths are converted, and a finding ends where offset and length together say. -/
structure ConvertsUnits (t : Text) : Prop extends Converts (fun m => m.offset + m.length) t where
  /-- So no range is made of a finding whose offset and length overflow a machine word together. -/
  overflow : ∀ m : GrammarMatch, m.length < wordSize → wordSize ≤ m.offset + m.length →
    matchRange? t m = none
  /-- In terms of the sum as a machine word holds it, that a finding counts something is not enough:
  its end must be behind its start. -/
  wrapped : ∀ m : GrammarMatch, m.length < wordSize →
    ((matchRange? t m).isSome = true ↔ m.offset < (m.offset + m.length) % wordSize ∧
      (m.offset + m.length) % wordSize ≤ (utf16 t).length ∧
      FallsBetween m.offset t ∧ FallsBetween ((m.offset + m.length) % wordSize) t)

variable {t : Text} {m : GrammarMatch}

/-- A finding marks characters of a text if it fits it. -/
theorem exists_marks_iff :
    (∃ before word after, Marks m t before word after) ↔ Fits t m (m.offset + m.length) := by
  unfold Fits
  constructor
  · rintro ⟨before, word, after, rfl, hne, hoffset, hlength⟩
    rw [← hoffset, ← hlength, ← length_utf16, ← length_utf16]
    have hpos : (utf16 word).length ≠ 0 := by
      rw [length_utf16]
      exact mt (unitLength_eq_zero_iff word).1 hne
    refine ⟨Nat.pos_of_ne_zero hpos, ?_, ⟨before, word ++ after, by simp, rfl⟩,
      ⟨before ++ word, after, rfl, by simp⟩⟩
    simp only [utf16_append, List.length_append]
    omega
  · rintro ⟨hpos, -, ⟨before, rest, rfl, hoffset⟩, ⟨upTo, after, hsplit, hend⟩⟩
    rw [length_utf16] at hoffset hend
    rcases List.append_eq_append_iff.1 hsplit with ⟨word, rfl, rfl⟩ | ⟨word, rfl, rfl⟩
    · rw [unitLength_append] at hend
      refine ⟨before, word, after, by simp, ?_, hoffset, by omega⟩
      rintro rfl
      simp only [unitLength] at hend
      omega
    · -- the second offset would not lie behind the first one
      rw [unitLength_append] at hoffset
      omega

theorem isSome_matchRange?_iff (ht : t.unitLength < wordSize) (hm : m.length < wordSize) :
    (matchRange? t m).isSome = true ↔ ∃ before word after, Marks m t before word after := by
  constructor
  · intro h
    obtain ⟨⟨start, stop⟩, hrange⟩ := Option.isSome_iff_exists.1 h
    obtain ⟨before, word, after, hmarks, -⟩ := (matchRange?_eq_some_iff ht hm start stop).1 hrange
    exact ⟨before, word, after, hmarks⟩
  · rintro ⟨before, word, after, hmarks⟩
    rw [(matchRange?_eq_some_iff ht hm _ _).2 ⟨before, word, after, hmarks, rfl, rfl⟩]
    rfl

/-- A sum that overflows lies in front of its first part, so it ends no finding. -/
theorem fits_iff_wrapped (ht : (utf16 t).length < wordSize) (hm : m.length < wordSize) :
    Fits t m (m.offset + m.length) ↔
      m.offset < (m.offset + m.length) % wordSize ∧
        (m.offset + m.length) % wordSize ≤ (utf16 t).length ∧ FallsBetween m.offset t ∧
        FallsBetween ((m.offset + m.length) % wordSize) t := by
  unfold Fits
  rcases Nat.lt_or_ge (m.offset + m.length) wordSize with hsum | hsum
  · rw [Nat.mod_eq_of_lt hsum, Nat.lt_add_right_iff_pos]
  · constructor
    · rintro ⟨-, hle, -⟩
      exact absurd hsum (Nat.not_le_of_lt (Nat.lt_of_le_of_lt hle ht))
    · rintro ⟨hlt, -, hoffset, -⟩
      have hle := ((fallsBetween_iff m.offset t).1 hoffset).1
      rw [Nat.mod_eq_sub_mod hsum, Nat.mod_eq_of_lt (by omega)] at hlt
      omega

/-- A finding ends where its offset and length together say, in every text whose length in code
units is a machine word. -/
theorem converts (t : Text) (ht : (utf16 t).length < wordSize) :
    Converts (fun m => m.offset + m.length) t := by
  have hshort : t.unitLength < wordSize := by rwa [length_utf16] at ht
  constructor
  case isSome_iff => exact fun m hm => (isSome_matchRange?_iff hshort hm).trans exists_marks_iff
  case counts =>
    intro m hm start stop hrange
    obtain ⟨before, word, after, ⟨rfl, hne, hoffset, hlength⟩, rfl, rfl⟩ :=
      (matchRange?_eq_some_iff hshort hm start stop).1 hrange
    rw [← length_utf16] at hoffset hlength
    have hpos := mt (byteLength_eq_zero_iff word).1 hne
    obtain ⟨hbefore, hword⟩ := slices_of_split before word after
    obtain ⟨hstart, hstop⟩ := isBoundary_of_slice? hword
    exact ⟨by omega, hstart, hstop, before, word, hbefore, hword, hoffset, hlength⟩
  case found =>
    intro start stop hlt hstart hstop
    obtain ⟨word, hslice⟩ := Option.isSome_iff_exists.1
      ((isSome_slice?_iff start stop t).2 ⟨Nat.le_of_lt hlt, hstart, hstop⟩)
    obtain ⟨before, after, rfl, rfl, rfl⟩ := (slice?_eq_some_iff _ _ _ _).1 hslice
    obtain ⟨hbefore, hword⟩ := slices_of_split before word after
    refine ⟨before, word, hbefore, hword, fun m hoffset hlength => ?_⟩
    rw [length_utf16] at hoffset hlength
    have hne : word ≠ [] := by
      rintro rfl
      simp at hlt
    have hm : m.length < wordSize := by
      simp only [unitLength_append] at hshort
      omega
    exact (matchRange?_eq_some_iff hshort hm _ _).2
      ⟨before, word, after, ⟨rfl, hne, hoffset.symm, hlength.symm⟩, rfl, rfl⟩

/-- A finding at the sixth code unit, so long that its end comes around to the third. -/
def aroundMatch : GrammarMatch := { offset := 5, length := wordSize - 3 }

end Grammar

end CodeProse

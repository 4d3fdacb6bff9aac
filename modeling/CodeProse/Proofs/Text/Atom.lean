/-
# Atoms

Phrases stand between word edges, and edges cut a text into atoms: each maximal run of ASCII
letters, digits and underscores is one, and so is each other character.  Atoms are in lower case.
The atoms of two texts that meet at an edge are those of the one and those of the other
(`atoms_append`), and every way to cut the atoms of a text in two comes from one to cut the text
(`atoms_eq_append`).

`beads` are the visible atoms of a text, each with a mark that says whether white space comes before
it; in front of punctuation that takes no blank the mark is left out.  Neither collapsing a text nor
closing the gap of a deletion changes them (`beads_collapse`, `beads_append_blank_of_gap`,
`beads_append_blank_of_hugsLeft`).
-/
import CodeProse.Draft
import CodeProse.Proofs.Text.Collapse

namespace CodeProse.Text

open Unicode (isWhitespace isAsciiWordChar)

/-! ## Characters -/

theorem isUpper_iff (c : Char) : c.isUpper = true ↔ 65 ≤ c.toNat ∧ c.toNat ≤ 90 := by
  show decide (c.val ≥ 'A'.val ∧ c.val ≤ 'Z'.val) = true ↔ _
  rw [decide_eq_true_eq, ge_iff_le, UInt32.le_iff_toNat_le, UInt32.le_iff_toNat_le]
  rfl

theorem isLower_iff (c : Char) : c.isLower = true ↔ 97 ≤ c.toNat ∧ c.toNat ≤ 122 := by
  show (decide (c.val ≥ 'a'.val) && decide (c.val ≤ 'z'.val)) = true ↔ _
  rw [Bool.and_eq_true, decide_eq_true_eq, decide_eq_true_eq, ge_iff_le, UInt32.le_iff_toNat_le,
    UInt32.le_iff_toNat_le]
  rfl

/-- Only the capital letters of ASCII have another lower case. -/
theorem toLower_cases (c : Char) : c.toLower = c ∨ ∃ n, n < 26 ∧ c = Char.ofNat (65 + n) := by
  by_cases hupper : c.isUpper = true
  · have hrange := (isUpper_iff c).1 hupper
    refine .inr ⟨c.toNat - 65, by omega, ?_⟩
    rw [show 65 + (c.toNat - 65) = c.toNat by omega, Char.ofNat_toNat]
  · exact .inl (dif_neg fun hrange => hupper (decide_eq_true hrange))

@[simp] theorem isAsciiWordChar_toLower (c : Char) :
    isAsciiWordChar c.toLower = isAsciiWordChar c := by
  rcases toLower_cases c with h | ⟨n, hn, rfl⟩
  · rw [h]
  · revert n
    decide

@[simp] theorem isWhitespace_toLower (c : Char) : isWhitespace c.toLower = isWhitespace c := by
  rcases toLower_cases c with h | ⟨n, hn, rfl⟩
  · rw [h]
  · revert n
    decide

@[simp] theorem toLower_toLower (c : Char) : c.toLower.toLower = c.toLower := by
  rcases toLower_cases c with h | ⟨n, hn, rfl⟩
  · rw [h, h]
  · revert n
    decide

@[simp] theorem utf8Size_toLower (c : Char) : c.toLower.utf8Size = c.utf8Size := by
  rcases toLower_cases c with h | ⟨n, hn, rfl⟩
  · rw [h]
  · revert n
    decide

/-- What belongs to no word has no other case. -/
theorem toLower_of_not_isAsciiWordChar {c : Char} (h : isAsciiWordChar c = false) :
    c.toLower = c := by
  rcases toLower_cases c with hc | ⟨n, hn, rfl⟩
  · exact hc
  · revert n
    decide

/-- Letters and digits of ASCII stand behind its white space. -/
theorem toNat_of_isAlphanum {c : Char} (h : c.isAlphanum = true) :
    48 ≤ c.toNat ∧ c.toNat < 0x80 := by
  have halpha : c.isAlpha = (c.isUpper || c.isLower) := rfl
  simp only [Char.isAlphanum, halpha, Bool.or_eq_true, isUpper_iff, isLower_iff, Char.isDigit,
    Bool.and_eq_true, decide_eq_true_eq, UInt32.le_iff_toNat_le, ge_iff_le] at h
  rcases h with (h | h) | h
  · exact ⟨Nat.le_trans (by decide) h.1, Nat.lt_of_le_of_lt h.2 (by decide)⟩
  · exact ⟨Nat.le_trans (by decide) h.1, Nat.lt_of_le_of_lt h.2 (by decide)⟩
  · exact ⟨h.1, Nat.lt_of_le_of_lt h.2 (by decide)⟩

/-- White space belongs to no word. -/
theorem not_isAsciiWordChar_of_isWhitespace {c : Char} (h : isWhitespace c = true) :
    isAsciiWordChar c = false := by
  rw [Bool.eq_false_iff]
  intro hword
  have hnat : 48 ≤ c.toNat ∧ c.toNat < 0x80 := by
    rw [isAsciiWordChar, Bool.or_eq_true, beq_iff_eq] at hword
    rcases hword with halphanum | rfl
    · exact toNat_of_isAlphanum halphanum
    · decide
  simp only [isWhitespace, hnat.2, if_true, Bool.or_eq_true, beq_iff_eq, Bool.and_eq_true,
    decide_eq_true_eq] at h
  omega

@[simp] theorem byteLength_map_toLower (t : Text) :
    byteLength (t.map Char.toLower) = byteLength t := by
  induction t with
  | nil => rfl
  | cons c t ih => rw [List.map_cons, byteLength_cons, byteLength_cons, ih, utf8Size_toLower]

/-! ## Cutting a text at its word edges -/

/-- Whether the second of two texts goes on with a word that the first one ends in. -/
def joins (a b : Text) : Bool :=
  a.getLast?.any isAsciiWordChar && b.head?.any isAsciiWordChar

/-- The atoms of a text: its maximal runs of ASCII word characters, and its other characters one by
one, all in lower case. -/
def atoms : Text → List Text
  | [] => []
  | c :: t =>
    match atoms t with
    | [] => [[c.toLower]]
    | a :: rest =>
      if joins [c] a then (c.toLower :: a) :: rest else [c.toLower] :: a :: rest

@[simp] theorem atoms_nil : atoms [] = [] := rfl

/-- Atoms hold the characters of the text. -/
theorem flatten_atoms (t : Text) : (atoms t).flatten = t.map Char.toLower := by
  induction t with
  | nil => rfl
  | cons c t ih =>
    rw [atoms]
    split
    case h_1 hnil =>
      rw [hnil] at ih
      simp [← ih]
    case h_2 a rest hcons =>
      rw [hcons] at ih
      split <;> simp [← ih]

theorem ne_nil_of_mem_atoms {t a : Text} (h : a ∈ atoms t) : a ≠ [] := by
  induction t generalizing a with
  | nil => cases h
  | cons c t ih =>
    rw [atoms] at h
    split at h
    case h_1 =>
      rw [List.mem_singleton.1 h]
      simp
    case h_2 a' rest hcons =>
      split at h
      · rcases List.mem_cons.1 h with rfl | h
        · simp
        · exact ih (hcons ▸ List.mem_cons_of_mem a' h)
      · rcases List.mem_cons.1 h with rfl | h
        · simp
        · exact ih (hcons ▸ h)

theorem atoms_eq_nil_iff (t : Text) : atoms t = [] ↔ t = [] := by
  constructor
  · intro h
    have hflat := flatten_atoms t
    rw [h] at hflat
    exact List.map_eq_nil_iff.1 hflat.symm
  · rintro rfl
    rfl

/-- The first atom starts as the text does. -/
theorem head?_of_atoms_eq_cons {t a : Text} {rest : List Text} (h : atoms t = a :: rest) :
    a.head? = t.head?.map Char.toLower := by
  have hne : a ≠ [] := ne_nil_of_mem_atoms (t := t) (h ▸ List.mem_cons_self)
  have hflat := flatten_atoms t
  rw [h, List.flatten_cons] at hflat
  obtain ⟨d, a, rfl⟩ := List.exists_cons_of_ne_nil hne
  rw [← List.head?_map, ← hflat]
  rfl

theorem joins_of_atoms_eq_cons {t a : Text} {rest : List Text} (c : Char)
    (h : atoms t = a :: rest) : joins [c] a = joins [c] t := by
  rw [joins, joins, head?_of_atoms_eq_cons h]
  cases t <;> simp

/-- A character that the text does not go on with is an atom of its own. -/
theorem atoms_cons_of_not_joins {c : Char} {t : Text} (h : joins [c] t = false) :
    atoms (c :: t) = [c.toLower] :: atoms t := by
  rw [atoms]
  split
  case h_1 hnil => rw [hnil]
  case h_2 a rest hcons =>
    rw [joins_of_atoms_eq_cons c hcons, h, hcons]
    simp

/-- A character that the text goes on with joins the first atom. -/
theorem atoms_cons_of_joins {c : Char} {t : Text} (h : joins [c] t = true) :
    ∃ a rest, atoms t = a :: rest ∧ atoms (c :: t) = (c.toLower :: a) :: rest := by
  have hne : atoms t ≠ [] := by
    rw [ne_eq, atoms_eq_nil_iff]
    rintro rfl
    simp [joins] at h
  obtain ⟨a, rest, hcons⟩ := List.exists_cons_of_ne_nil hne
  refine ⟨a, rest, hcons, ?_⟩
  rw [atoms, hcons]
  simp only [joins_of_atoms_eq_cons c hcons, h, if_true]

theorem joins_cons {a : Text} (c : Char) (b : Text) (h : a ≠ []) :
    joins (c :: a) b = joins a b := by
  rw [joins, joins, List.getLast?_cons_of_ne_nil h]

theorem joins_append {a : Text} (c : Char) (b : Text) (h : a ≠ []) :
    joins [c] (a ++ b) = joins [c] a := by
  obtain ⟨d, a, rfl⟩ := List.exists_cons_of_ne_nil h
  rfl

/-- **The atoms of two texts that meet at a word edge.** -/
theorem atoms_append {a b : Text} (h : joins a b = false) :
    atoms (a ++ b) = atoms a ++ atoms b := by
  induction a with
  | nil => rfl
  | cons c a ih =>
    cases a with
    | nil =>
      have hc : atoms [c] = [[c.toLower]] := rfl
      rw [List.cons_append, List.nil_append, atoms_cons_of_not_joins h, hc]
      rfl
    | cons d a =>
      have hne : d :: a ≠ [] := List.cons_ne_nil d a
      rw [joins_cons c b hne] at h
      have ih := ih h
      rw [List.cons_append]
      cases hjoins : joins [c] (d :: a) with
      | false =>
        have hlong : joins [c] (d :: a ++ b) = false := by rw [joins_append c b hne, hjoins]
        rw [atoms_cons_of_not_joins hlong, atoms_cons_of_not_joins hjoins, ih]
        rfl
      | true =>
        have hlong : joins [c] (d :: a ++ b) = true := by rw [joins_append c b hne, hjoins]
        obtain ⟨x, rest, hx, hcx⟩ := atoms_cons_of_joins hjoins
        obtain ⟨y, rest', hy, hcy⟩ := atoms_cons_of_joins hlong
        rw [ih, hx, List.cons_append] at hy
        obtain ⟨rfl, rfl⟩ := List.cons.inj hy
        rw [hcx, hcy]
        rfl

/-- Where atoms can be cut in two, the text can. -/
theorem atoms_eq_append {t : Text} {front back : List Text} (h : atoms t = front ++ back) :
    ∃ a b, t = a ++ b ∧ joins a b = false ∧ atoms a = front ∧ atoms b = back := by
  induction t generalizing front with
  | nil =>
    obtain ⟨rfl, rfl⟩ := List.append_eq_nil_iff.1 h.symm
    exact ⟨[], [], rfl, rfl, rfl, rfl⟩
  | cons c t ih =>
    cases front with
    | nil => exact ⟨[], c :: t, rfl, rfl, rfl, h⟩
    | cons x front =>
      cases hjoins : joins [c] t with
      | false =>
        rw [atoms_cons_of_not_joins hjoins] at h
        obtain ⟨rfl, hrest⟩ := List.cons.inj h
        obtain ⟨a, b, rfl, hab, ha, hb⟩ := ih hrest
        cases a with
        | nil => exact ⟨[c], b, rfl, hjoins, by rw [← ha]; rfl, hb⟩
        | cons d a =>
          have hne : d :: a ≠ [] := List.cons_ne_nil d a
          rw [joins_append c b hne] at hjoins
          refine ⟨c :: d :: a, b, rfl, ?_, ?_, hb⟩
          · rw [joins_cons c b hne, hab]
          · rw [atoms_cons_of_not_joins hjoins, ha]
      | true =>
        obtain ⟨y, rest, hy, hcy⟩ := atoms_cons_of_joins hjoins
        rw [hcy] at h
        obtain ⟨rfl, rfl⟩ := List.cons.inj h
        obtain ⟨a, b, rfl, hab, ha, hb⟩ := @ih (y :: front) hy
        have hne : a ≠ [] := by
          rintro rfl
          cases ha
        rw [joins_append c b hne] at hjoins
        obtain ⟨y', rest', hy', hcy'⟩ := atoms_cons_of_joins hjoins
        rw [ha] at hy'
        obtain ⟨rfl, rfl⟩ := List.cons.inj hy'
        exact ⟨c :: a, b, rfl, by rw [joins_cons c b hne, hab], hcy', hb⟩

/-- Case does not matter to atoms. -/
theorem atoms_map_toLower (t : Text) : atoms (t.map Char.toLower) = atoms t := by
  induction t with
  | nil => rfl
  | cons c t ih =>
    have hjoins : ∀ a, joins [c.toLower] a = joins [c] a := fun a => by simp [joins]
    rw [List.map_cons, atoms, atoms, ih]
    simp only [hjoins, toLower_toLower]

/-- Texts have the same atoms if they are the same up to case. -/
theorem atoms_eq_iff (a b : Text) :
    atoms a = atoms b ↔ a.map Char.toLower = b.map Char.toLower := by
  constructor
  · intro h
    rw [← flatten_atoms, ← flatten_atoms, h]
  · intro h
    rw [← atoms_map_toLower a, h, atoms_map_toLower]

/-- A word at the start of a text begins the first atom. -/
theorem atoms_of_word_prefix {t word : Text} (hne : word ≠ [])
    (hword : ∀ c ∈ word, isAsciiWordChar c = true) (h : word <+: t.map Char.toLower) :
    ∃ a rest, atoms t = a :: rest ∧ word <+: a := by
  induction word generalizing t with
  | nil => exact absurd rfl hne
  | cons d word ih =>
    cases t with
    | nil => simp at h
    | cons c t =>
      rw [List.map_cons, List.cons_prefix_cons] at h
      obtain ⟨rfl, hrest⟩ := h
      cases word with
      | nil =>
        cases hjoins : joins [c] t with
        | false => exact ⟨_, _, atoms_cons_of_not_joins hjoins, List.prefix_refl _⟩
        | true =>
          obtain ⟨a, rest, -, hc⟩ := atoms_cons_of_joins hjoins
          exact ⟨_, _, hc, by simp⟩
      | cons e word =>
        have hword' : ∀ x ∈ e :: word, isAsciiWordChar x = true := fun x hx =>
          hword x (List.mem_cons_of_mem _ hx)
        have hjoins : joins [c] t = true := by
          have hc : isAsciiWordChar c = true := by simpa using hword c.toLower List.mem_cons_self
          cases t with
          | nil => simp at hrest
          | cons f t =>
            rw [List.map_cons, List.cons_prefix_cons] at hrest
            have hf := hword' e List.mem_cons_self
            rw [hrest.1, isAsciiWordChar_toLower] at hf
            simp [joins, hc, hf]
        obtain ⟨a, rest, ha, hbegins⟩ := ih (List.cons_ne_nil _ _) hword' hrest
        obtain ⟨a', rest', ha', hc⟩ := atoms_cons_of_joins hjoins
        rw [ha] at ha'
        obtain ⟨rfl, rfl⟩ := List.cons.inj ha'
        exact ⟨_, _, hc, by simpa using hbegins⟩

/-! ## Beads -/

/-- Marks the visible atoms among some with whether white space comes before them; before the first
of them there is some if `gap` holds.  Punctuation that takes no blank before it has no mark. -/
def spaced (gap : Bool) : List Text → List (Text × Bool)
  | [] => []
  | a :: rest =>
    if isBlank a then spaced true rest
    else (a, gap && !a.head?.any Draft.hugsLeft) :: spaced false rest

/-- Whether white space comes last among atoms. -/
def gapAfter (gap : Bool) : List Text → Bool
  | [] => gap
  | a :: rest => gapAfter (isBlank a) rest

/-- The visible atoms of a text, and where white space parts them. -/
def beads (t : Text) : List (Text × Bool) :=
  spaced true (atoms t)

theorem spaced_append (gap : Bool) (front back : List Text) :
    spaced gap (front ++ back) = spaced gap front ++ spaced (gapAfter gap front) back := by
  induction front generalizing gap with
  | nil => rfl
  | cons a front ih =>
    rw [List.cons_append, spaced, spaced, gapAfter]
    cases isBlank a with
    | true => exact ih true
    | false => exact congrArg (_ :: ·) (ih false)

theorem spaced_cons_of_blank {gap : Bool} {a : Text} (rest : List Text) (h : isBlank a = true) :
    spaced gap (a :: rest) = spaced true rest := by
  rw [spaced, if_pos h]

theorem spaced_cons_of_visible {gap : Bool} {a : Text} (rest : List Text) (h : isBlank a = false) :
    spaced gap (a :: rest) = (a, gap && !a.head?.any Draft.hugsLeft) :: spaced false rest := by
  rw [spaced, if_neg (by simp [h])]

/-- White space is an atom of its own, and a blank one. -/
theorem atoms_cons_of_isWhitespace {c : Char} (t : Text) (h : isWhitespace c = true) :
    atoms (c :: t) = [c] :: atoms t ∧ isBlank [c] = true := by
  have hword := not_isAsciiWordChar_of_isWhitespace h
  refine ⟨?_, by simpa [isBlank] using h⟩
  rw [atoms_cons_of_not_joins (by simp [joins, hword]), toLower_of_not_isAsciiWordChar hword]

theorem joins_cons_of_isWhitespace {c : Char} (a b : Text) (h : isWhitespace c = true) :
    joins a (c :: b) = false := by
  simp [joins, not_isAsciiWordChar_of_isWhitespace h]

/-- **White space parts beads.** -/
theorem beads_append_cons {c : Char} (h : isWhitespace c = true) (a b : Text) :
    beads (a ++ c :: b) = beads a ++ beads b := by
  obtain ⟨hatoms, hblank⟩ := atoms_cons_of_isWhitespace b h
  rw [beads, atoms_append (joins_cons_of_isWhitespace a b h), hatoms, spaced_append,
    spaced_cons_of_blank _ hblank]
  rfl

/-- The beads of a text are those of its words. -/
theorem beads_eq_flatMap (t : Text) : beads t = (words t).flatMap beads := by
  -- by induction on the length: white space cuts the text in two shorter ones
  induction hn : t.length using Nat.strongRecOn generalizing t with
  | ind n ih =>
    by_cases hvisible : ∀ c ∈ t, isWhitespace c = false
    · cases t with
      | nil => rfl
      | cons c t =>
        rw [words_of_visible (List.cons_ne_nil c t) hvisible]
        simp
    · obtain ⟨c, hc, hblank⟩ : ∃ c ∈ t, isWhitespace c = true := by simpa using hvisible
      obtain ⟨a, b, rfl⟩ := List.append_of_mem hc
      rw [List.length_append, List.length_cons] at hn
      rw [beads_append_cons hblank, words_append_cons hblank, List.flatMap_append,
        ih a.length (by omega) a rfl, ih b.length (by omega) b rfl]

/-- Collapsing keeps the beads. -/
theorem beads_collapse (t : Text) : beads (collapse t) = beads t := by
  rw [beads_eq_flatMap, words_collapse, ← beads_eq_flatMap]

/-- A blank where there is white space already, or at the very start, changes no bead. -/
theorem beads_append_blank_of_gap {a : Text} (b : Text)
    (h : a = [] ∨ ∃ c, a.getLast? = some c ∧ isWhitespace c = true) :
    beads (a ++ ' ' :: b) = beads (a ++ b) := by
  rw [beads_append_cons isWhitespace_blank]
  rcases h with rfl | ⟨c, hlast, hc⟩
  · rfl
  · obtain ⟨a, rfl⟩ := List.getLast?_eq_some_iff.1 hlast
    rw [List.append_assoc, List.singleton_append, beads_append_cons hc, beads_append_cons hc]
    simp [beads, spaced]

/-- What takes no blank before it is no part of a word. -/
theorem not_isAsciiWordChar_of_hugsLeft {c : Char} (h : Draft.hugsLeft c = true) :
    isAsciiWordChar c = false ∧ isWhitespace c = false := by
  simp only [Draft.hugsLeft, Bool.or_eq_true, beq_iff_eq] at h
  rcases h with ((((rfl | rfl) | rfl) | rfl) | rfl) | rfl <;> decide

/-- A blank in front of punctuation that takes none changes no bead. -/
theorem beads_append_blank_of_hugsLeft {c : Char} (a b : Text) (h : Draft.hugsLeft c = true) :
    beads (a ++ ' ' :: c :: b) = beads (a ++ c :: b) := by
  obtain ⟨hword, hvisible⟩ := not_isAsciiWordChar_of_hugsLeft h
  have hblank : isBlank [c] = false := by simpa [isBlank] using hvisible
  have hatoms : atoms (c :: b) = [c] :: atoms b := by
    rw [atoms_cons_of_not_joins (by simp [joins, hword]), toLower_of_not_isAsciiWordChar hword]
  have hmark : ∀ gap, spaced gap (atoms (c :: b)) = ([c], false) :: spaced false (atoms b) := by
    intro gap
    rw [hatoms, spaced_cons_of_visible _ hblank]
    simp [h]
  rw [beads_append_cons isWhitespace_blank, beads, beads, beads,
    atoms_append (a := a) (by simp [joins, hword]), spaced_append, hmark, hmark]

/-! ## Atoms among beads -/

/-- Whether an atom is visible, and may have white space before it. -/
def isPlainAtom (a : Text) : Bool :=
  !isBlank a && !a.head?.any Draft.hugsLeft

theorem spaced_cons_of_isPlainAtom {gap : Bool} {a : Text} (rest : List Text)
    (h : isPlainAtom a = true) : spaced gap (a :: rest) = (a, gap) :: spaced false rest := by
  rw [isPlainAtom, Bool.and_eq_true, Bool.not_eq_true', Bool.not_eq_true'] at h
  rw [spaced_cons_of_visible _ h.1, h.2]
  simp

/-- Plain atoms in a row are unmarked beads in a row. -/
theorem spaced_append_of_plain {plain : List Text} (rest : List Text)
    (h : ∀ a ∈ plain, isPlainAtom a = true) :
    spaced false (plain ++ rest) = plain.map (·, false) ++ spaced false rest := by
  induction plain with
  | nil => rfl
  | cons a plain ih =>
    rw [List.cons_append, spaced_cons_of_isPlainAtom _ (h a List.mem_cons_self),
      ih fun b hb => h b (List.mem_cons_of_mem a hb)]
    rfl

/-- The first bead behind white space is marked, if its atom is plain. -/
theorem mark_of_spaced_true {row : List Text} {a : Text} {mark : Bool} {ys : List (Text × Bool)}
    (ha : isPlainAtom a = true) (h : spaced true row = (a, mark) :: ys) : mark = true := by
  induction row with
  | nil => cases h
  | cons b row ih =>
    cases hblank : isBlank b with
    | true =>
      rw [spaced_cons_of_blank _ hblank] at h
      exact ih h
    | false =>
      rw [spaced_cons_of_visible _ hblank] at h
      obtain ⟨rfl, rfl⟩ := Prod.mk.inj (List.cons.inj h).1
      rw [isPlainAtom, hblank] at ha
      simpa using ha

/-- A bead comes from an atom. -/
theorem exists_of_spaced_append {gap : Bool} {row : List Text} {xs ys : List (Text × Bool)}
    {a : Text} {mark : Bool} (h : spaced gap row = xs ++ (a, mark) :: ys) :
    ∃ front rest, row = front ++ a :: rest ∧ spaced false rest = ys := by
  induction row generalizing gap xs with
  | nil => cases xs <;> cases h
  | cons b row ih =>
    cases hblank : isBlank b with
    | true =>
      rw [spaced_cons_of_blank _ hblank] at h
      obtain ⟨front, rest, rfl, hys⟩ := ih h
      exact ⟨b :: front, rest, rfl, hys⟩
    | false =>
      rw [spaced_cons_of_visible _ hblank] at h
      cases xs with
      | nil =>
        obtain ⟨hab, hys⟩ := List.cons.inj h
        obtain ⟨rfl, -⟩ := Prod.mk.inj hab
        exact ⟨[], row, rfl, hys⟩
      | cons x xs =>
        obtain ⟨front, rest, rfl, hys⟩ := ih (List.cons.inj h).2
        exact ⟨b :: front, rest, rfl, hys⟩

/-- Unmarked beads come from plain atoms in a row. -/
theorem eq_append_of_spaced_plain {plain row : List Text} {ys : List (Text × Bool)}
    (h : ∀ a ∈ plain, isPlainAtom a = true)
    (hrow : spaced false row = plain.map (·, false) ++ ys) :
    ∃ rest, row = plain ++ rest ∧ spaced false rest = ys := by
  induction plain generalizing row with
  | nil => exact ⟨row, rfl, hrow⟩
  | cons a plain ih =>
    have ha := h a List.mem_cons_self
    cases row with
    | nil => cases hrow
    | cons b row =>
      cases hblank : isBlank b with
      | true =>
        -- white space would have left its mark
        rw [spaced_cons_of_blank _ hblank] at hrow
        exact absurd (mark_of_spaced_true ha hrow) (by decide)
      | false =>
        rw [spaced_cons_of_visible _ hblank] at hrow
        obtain ⟨hab, hrest⟩ := List.cons.inj hrow
        obtain ⟨rfl, -⟩ := Prod.mk.inj hab
        obtain ⟨rest, rfl, hys⟩ := ih (fun x hx => h x (List.mem_cons_of_mem b hx)) hrest
        exact ⟨rest, rfl, hys⟩

/-- **Where plain atoms stand in a row in one text, they do in every text with the same beads.** -/
theorem exists_of_beads_eq {t u : Text} (hbeads : beads t = beads u) {plain front back : List Text}
    (h : ∀ a ∈ plain, isPlainAtom a = true) (hne : plain ≠ [])
    (ht : atoms t = front ++ (plain ++ back)) :
    ∃ front' back', atoms u = front' ++ (plain ++ back') ∧
      spaced false back' = spaced false back := by
  obtain ⟨a, plain, rfl⟩ := List.exists_cons_of_ne_nil hne
  have ha := h a List.mem_cons_self
  have hplain : ∀ b ∈ plain, isPlainAtom b = true := fun b hb => h b (List.mem_cons_of_mem a hb)
  have hu : spaced true (atoms u) = spaced true front ++ (a, gapAfter true front) ::
      (plain.map (·, false) ++ spaced false back) := by
    rw [← beads, ← hbeads, beads, ht, spaced_append, List.cons_append,
      spaced_cons_of_isPlainAtom _ ha, spaced_append_of_plain _ hplain]
  obtain ⟨front', rest, hfront, hrest⟩ := exists_of_spaced_append hu
  obtain ⟨back', rfl, hback⟩ := eq_append_of_spaced_plain hplain hrest
  exact ⟨front', back', hfront, hback⟩

/-! ## Beads of collapsed texts -/

/-- The first atom of a text that begins with a visible character is a bead. -/
theorem spaced_of_visible_head (gap : Bool) {c : Char} (t : Text) (h : isWhitespace c = false) :
    ∃ a rest mark, atoms (c :: t) = a :: rest ∧ (mark = true → gap = true) ∧
      spaced gap (atoms (c :: t)) = (a, mark) :: spaced false rest := by
  have hne : atoms (c :: t) ≠ [] := by
    rw [ne_eq, atoms_eq_nil_iff]
    exact List.cons_ne_nil c t
  obtain ⟨a, rest, hrow⟩ := List.exists_cons_of_ne_nil hne
  have hvisible : isBlank a = false := by
    obtain ⟨a, rfl⟩ : ∃ x, a = c.toLower :: x :=
      List.head?_eq_some_iff.1 (head?_of_atoms_eq_cons hrow)
    simp [isBlank, h]
  refine ⟨a, rest, _, hrow, ?_, by rw [hrow, spaced_cons_of_visible _ hvisible]⟩
  simp only [Bool.and_eq_true]
  exact fun hmark => hmark.1

/-- A word at the start of a text is a bead. -/
theorem spaced_of_word_prefix {word t : Text} (hne : word ≠ [])
    (hword : ∀ c ∈ word, isAsciiWordChar c = true) (h : word <+: t.map Char.toLower) :
    ∃ a ys, word <+: a ∧ spaced true (atoms t) = (a, true) :: ys := by
  obtain ⟨a, rest, hrow, hbegins⟩ := atoms_of_word_prefix hne hword h
  obtain ⟨d, word, rfl⟩ := List.exists_cons_of_ne_nil hne
  obtain ⟨more, rfl⟩ := hbegins
  have hd := hword d List.mem_cons_self
  have hplain : isPlainAtom (d :: word ++ more) = true := by
    have hvisible : isWhitespace d = false := by
      rw [Bool.eq_false_iff]
      intro hblank
      rw [not_isAsciiWordChar_of_isWhitespace hblank] at hd
      cases hd
    have hhugs : Draft.hugsLeft d = false := by
      rw [Bool.eq_false_iff]
      intro hhugs
      rw [(not_isAsciiWordChar_of_hugsLeft hhugs).1] at hd
      cases hd
    simp [isPlainAtom, isBlank, hvisible, hhugs]
  refine ⟨d :: word ++ more, spaced false rest, List.prefix_append _ _, ?_⟩
  rw [hrow, spaced_cons_of_isPlainAtom _ hplain]

/-- Where a text without doubled white space begins with a bead that has white space before it, it
begins with a blank and that bead. -/
theorem prefix_of_marked {b a : Text} {ys : List (Text × Bool)}
    (hsingle : ∀ x y, [x, y] <:+: b → isWhitespace x = false ∨ isWhitespace y = false)
    (hblank : ∀ x ∈ b, isWhitespace x = true → x = ' ')
    (h : spaced false (atoms b) = (a, true) :: ys) : ' ' :: a <+: b.map Char.toLower := by
  cases b with
  | nil => cases h
  | cons d b =>
    cases hd : isWhitespace d with
    | false =>
      -- a visible character would be a bead without a mark
      obtain ⟨z, rest, mark, -, hmark, hvisible⟩ := spaced_of_visible_head false b hd
      rw [hvisible] at h
      obtain ⟨-, rfl⟩ := Prod.mk.inj (List.cons.inj h).1
      exact absurd (hmark rfl) (by decide)
    | true =>
      obtain ⟨hrow, hatom⟩ := atoms_cons_of_isWhitespace b hd
      rw [hrow, spaced_cons_of_blank _ hatom] at h
      cases b with
      | nil => cases h
      | cons d' b =>
        have hd' : isWhitespace d' = false := by
          rcases hsingle d d' ⟨[], b, rfl⟩ with hfalse | hfalse
          · rw [hd] at hfalse
            cases hfalse
          · exact hfalse
        obtain ⟨z, rest, mark, hz, -, hvisible⟩ := spaced_of_visible_head true b hd'
        rw [hvisible] at h
        obtain ⟨rfl, -⟩ := Prod.mk.inj (List.cons.inj h).1
        have hflat := flatten_atoms (d' :: b)
        rw [hz, List.flatten_cons] at hflat
        rw [hblank d List.mem_cons_self hd, List.map_cons, ← hflat, List.cons_prefix_cons]
        exact ⟨rfl, List.prefix_append _ _⟩

/-- **A word behind a blank stands there in every collapsed text with the same beads.** -/
theorem prefix_of_spaced_eq {word b b' : Text} (hne : word ≠ [])
    (hword : ∀ c ∈ word, isAsciiWordChar c = true)
    (hsingle : ∀ x y, [x, y] <:+: b → isWhitespace x = false ∨ isWhitespace y = false)
    (hblank : ∀ x ∈ b, isWhitespace x = true → x = ' ')
    (hspaced : spaced false (atoms b') = spaced false (atoms b))
    (h : ' ' :: word <+: b'.map Char.toLower) : ' ' :: word <+: b.map Char.toLower := by
  obtain ⟨x, r, rfl⟩ : ∃ x r, b' = x :: r := by
    refine List.exists_cons_of_ne_nil ?_
    rintro rfl
    simp at h
  rw [List.map_cons, List.cons_prefix_cons] at h
  obtain ⟨hx, hbegins⟩ := h
  have hxblank : isWhitespace x = true := by
    rw [← isWhitespace_toLower, ← hx]
    exact isWhitespace_blank
  obtain ⟨a, ys, ha, hbead⟩ := spaced_of_word_prefix hne hword hbegins
  obtain ⟨hrow, hatom⟩ := atoms_cons_of_isWhitespace r hxblank
  -- the bead is marked, so there is white space before it in the other text too
  rw [hrow, spaced_cons_of_blank _ hatom, hbead] at hspaced
  refine List.IsPrefix.trans ?_ (prefix_of_marked hsingle hblank hspaced.symm)
  rw [List.cons_prefix_cons]
  exact ⟨rfl, ha⟩

end CodeProse.Text

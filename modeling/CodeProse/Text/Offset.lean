/-
# Texts and byte offsets

A text is the list of its characters. Positions in it are byte offsets: the number of bytes that the
characters before the position take in UTF-8. An offset inside a character is not a position, so
every cut and every slice may fail.

* `Text.cutAt?` cuts a text in two at an offset.
* `Text.slice?` reads the characters between two offsets.
-/

namespace CodeProse

/-- A text is the list of its characters. -/
abbrev Text := List Char

namespace Text

/-! ## Length in bytes -/

/-- The number of bytes of the UTF-8 form of a text. -/
def byteLength : Text → Nat
  | [] => 0
  | c :: t => c.utf8Size + byteLength t

@[simp] theorem byteLength_nil : byteLength [] = 0 := rfl

@[simp] theorem byteLength_cons (c : Char) (t : Text) :
    byteLength (c :: t) = c.utf8Size + byteLength t := rfl

/-- Lengths add up. -/
@[simp] theorem byteLength_append (a b : Text) :
    byteLength (a ++ b) = byteLength a + byteLength b := by
  induction a with
  | nil => simp
  | cons c a ih => simp [ih, Nat.add_assoc]

/-- Only the empty text has no bytes. -/
theorem byteLength_eq_zero_iff (t : Text) : byteLength t = 0 ↔ t = [] := by
  cases t with
  | nil => simp
  | cons c t => have := c.utf8Size_pos; simp; omega

/-! ## Cutting -/

/-- Cuts a text at a byte offset; fails past the end and inside a character. -/
def cutAt? : Nat → Text → Option (Text × Text)
  | 0, t => some ([], t)
  | _ + 1, [] => none
  | n + 1, c :: t =>
    if c.utf8Size ≤ n + 1 then
      (cutAt? (n + 1 - c.utf8Size) t).map fun p => (c :: p.1, p.2)
    else none

/-- A cut at `n` is the only way to write the text as two texts, the first of `n` bytes. -/
theorem cutAt?_eq_some_iff (n : Nat) (t a b : Text) :
    cutAt? n t = some (a, b) ↔ t = a ++ b ∧ byteLength a = n := by
  fun_induction cutAt? n t generalizing a b with
  | case1 t =>
    constructor
    · intro h; simp only [Option.some.injEq, Prod.mk.injEq] at h; simp [← h.1, ← h.2]
    · rintro ⟨rfl, h⟩; rw [byteLength_eq_zero_iff] at h; simp [h]
  | case2 n =>
    constructor
    · intro h; cases h
    · rintro ⟨h, hn⟩
      have : a = [] := by cases a <;> simp_all
      simp [this] at hn
  | case3 n c t hc ih =>
    constructor
    · intro h
      obtain ⟨⟨x, y⟩, hx, hp⟩ := Option.map_eq_some_iff.1 h
      simp only [Prod.mk.injEq] at hp
      obtain ⟨ht, hb⟩ := (ih x y).1 hx
      refine ⟨by rw [← hp.1, ← hp.2, ht]; rfl, ?_⟩
      rw [← hp.1, byteLength_cons]; omega
    · rintro ⟨h, hn⟩
      cases a with
      | nil => simp at hn
      | cons d a =>
        simp only [List.cons_append, List.cons.injEq] at h
        obtain ⟨rfl, rfl⟩ := h
        rw [byteLength_cons] at hn
        rw [(ih a b).2 ⟨rfl, by omega⟩]; rfl
  | case4 n c t hc =>
    constructor
    · intro h; cases h
    · rintro ⟨h, hn⟩
      cases a with
      | nil => simp at hn
      | cons d a =>
        simp only [List.cons_append, List.cons.injEq] at h
        obtain ⟨rfl, -⟩ := h
        rw [byteLength_cons] at hn; omega

/-- Whether an offset lies between characters of a text. -/
def isBoundary (n : Nat) (t : Text) : Bool :=
  (cutAt? n t).isSome

/-- The characters between two offsets; fails for offsets that are reversed, past the end or inside
a character. -/
def slice? (start stop : Nat) (t : Text) : Option Text :=
  if start ≤ stop then
    (cutAt? start t).bind fun p => (cutAt? (stop - start) p.2).map (·.1)
  else none

/-! ## Lengths in UTF-16 -/

/-- The number of UTF-16 code units of a character. -/
def unitSize (c : Char) : Nat :=
  if c.toNat < 0x10000 then 1 else 2

/-- The number of UTF-16 code units of a text. -/
def unitLength : Text → Nat
  | [] => 0
  | c :: t => unitSize c + unitLength t

/-- The byte offset at which `units` code units end; fails past the end and inside a character. -/
def byteOfUnit? : Nat → Text → Option Nat
  | 0, _ => some 0
  | _ + 1, [] => none
  | n + 1, c :: t =>
    if unitSize c ≤ n + 1 then
      (byteOfUnit? (n + 1 - unitSize c) t).map (c.utf8Size + ·)
    else none

end Text

end CodeProse

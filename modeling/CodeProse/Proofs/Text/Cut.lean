/-
# Cuts and slices

Facts about byte lengths, cuts and slices that every argument about edits rests on: a text splits in
one way only at a given byte length, and a slice is what stands between two such splits.
-/
import CodeProse.Draft

namespace CodeProse.Text

/-! ## Lengths -/

/-- A text splits in one way only at a given byte length. -/
theorem append_inj {a b c d : Text} (h : a ++ b = c ++ d) (hl : byteLength a = byteLength c) :
    a = c ∧ b = d := by
  have hc : cutAt? (byteLength a) (a ++ b) = some (a, b) :=
    (cutAt?_eq_some_iff _ _ _ _).2 ⟨rfl, rfl⟩
  rw [h, hl, (cutAt?_eq_some_iff _ _ _ _).2 ⟨rfl, rfl⟩] at hc
  simpa [eq_comm] using hc

/-- Of two splits of a text, the shorter first part begins the longer one. -/
theorem append_split_of_le {a b c d : Text} (h : a ++ b = c ++ d)
    (hl : byteLength a ≤ byteLength c) : ∃ m, c = a ++ m ∧ b = m ++ d := by
  rcases List.append_eq_append_iff.1 h with ⟨m, rfl, rfl⟩ | ⟨m, rfl, rfl⟩
  · exact ⟨m, rfl, rfl⟩
  · have hm : m = [] := by
      rw [← byteLength_eq_zero_iff]
      simp only [byteLength_append] at hl
      omega
    subst hm
    exact ⟨[], by simp, by simp⟩

/-- A text has as many bytes read backwards. -/
@[simp] theorem byteLength_reverse (t : Text) : byteLength t.reverse = byteLength t := by
  induction t with
  | nil => rfl
  | cons c t ih =>
    rw [List.reverse_cons, byteLength_append, ih, byteLength_cons, byteLength_cons, byteLength_nil,
      Nat.add_zero, Nat.add_comm]

/-- Blanks are one byte each. -/
@[simp] theorem byteLength_replicate_blank (n : Nat) :
    byteLength (List.replicate n ' ') = n := by
  induction n with
  | zero => rfl
  | succ n ih =>
    rw [List.replicate_succ, byteLength_cons, ih, Nat.add_comm]
    rfl

/-! ## Characters of a class at the start -/

/-- A text that ends at a character is read up to there, whatever else follows. -/
theorem takeWhile_append_of_head {p : Char → Bool} {body rest : Text}
    (hbody : ∀ d ∈ body, p d = true) (hrest : ∀ d, rest.head? = some d → p d = false) :
    (body ++ rest).takeWhile p = body := by
  have hstop : rest.takeWhile p = [] := by
    cases rest with
    | nil => rfl
    | cons d rest => simp [hrest d rfl]
  rw [List.takeWhile_append_of_pos hbody, hstop, List.append_nil]

/-- A text splits in one way only behind all the characters of a class that it begins with. -/
theorem append_inj_of_head {p : Char → Bool} {a b c d : Text} (h : a ++ b = c ++ d)
    (ha : ∀ x ∈ a, p x = true) (hc : ∀ x ∈ c, p x = true)
    (hb : ∀ x, b.head? = some x → p x = false) (hd : ∀ x, d.head? = some x → p x = false) :
    a = c ∧ b = d := by
  have hac : a = c := by
    rw [← takeWhile_append_of_head ha hb, h, takeWhile_append_of_head hc hd]
  rw [hac] at h
  exact ⟨hac, List.append_cancel_left h⟩

/-! ## Cuts -/

/-- A text cut where its first part ends. -/
@[simp] theorem cutAt?_append (a b : Text) : cutAt? (byteLength a) (a ++ b) = some (a, b) :=
  (cutAt?_eq_some_iff _ _ _ _).2 ⟨rfl, rfl⟩

/-- A slice is what stands between two splits. -/
theorem slice?_eq_some_iff (start stop : Nat) (t m : Text) :
    slice? start stop t = some m ↔
      ∃ a b, t = a ++ m ++ b ∧ byteLength a = start ∧ start + byteLength m = stop := by
  unfold slice?
  constructor
  · intro h
    split at h
    case isTrue hle =>
      obtain ⟨⟨a, r⟩, har, h⟩ := Option.bind_eq_some_iff.1 h
      obtain ⟨⟨x, b⟩, hxb, hm⟩ := Option.map_eq_some_iff.1 h
      have hm : x = m := hm
      subst hm
      obtain ⟨rfl, rfl⟩ := (cutAt?_eq_some_iff _ _ _ _).1 har
      obtain ⟨rfl, hx⟩ := (cutAt?_eq_some_iff _ _ _ _).1 hxb
      exact ⟨a, b, by simp, rfl, by omega⟩
    case isFalse => cases h
  · rintro ⟨a, b, rfl, rfl, rfl⟩
    rw [if_pos (by omega), List.append_assoc, cutAt?_append]
    simp

/-- Both ends of a slice are in the text. -/
theorem le_of_slice?_eq_some {start stop : Nat} {t m : Text} (h : slice? start stop t = some m) :
    start ≤ stop ∧ stop ≤ byteLength t := by
  obtain ⟨a, b, rfl, rfl, rfl⟩ := (slice?_eq_some_iff _ _ _ _).1 h
  simp only [byteLength_append]
  omega

/-- A slice that ends within the beginning of a text is a slice of that beginning. -/
theorem slice?_of_prefix {start stop : Nat} {t u m : Text} (hp : u <+: t)
    (h : slice? start stop t = some m) (hl : stop ≤ byteLength u) :
    slice? start stop u = some m := by
  obtain ⟨more, rfl⟩ := hp
  obtain ⟨a, b, ht, ha, hm⟩ := (slice?_eq_some_iff _ _ _ _).1 h
  obtain ⟨rest, hrest, -⟩ := append_split_of_le (a := a ++ m) ht.symm
    (by simp only [byteLength_append]; omega)
  exact (slice?_eq_some_iff _ _ _ _).2 ⟨a, rest, hrest, ha, hm⟩

/-- A slice of a slice, in the coordinates of the whole text. -/
theorem slice?_of_slice? {start stop a b : Nat} {t u m : Text} (ht : slice? start stop t = some u)
    (hu : slice? a b u = some m) : slice? (start + a) (start + b) t = some m := by
  obtain ⟨x, y, rfl, hx, -⟩ := (slice?_eq_some_iff _ _ _ _).1 ht
  obtain ⟨v, w, rfl, hv, hm⟩ := (slice?_eq_some_iff _ _ _ _).1 hu
  refine (slice?_eq_some_iff _ _ _ _).2 ⟨x ++ v, w ++ y, by simp, ?_, by omega⟩
  rw [byteLength_append, hx, hv]

/-- Both ends of a slice lie between characters. -/
theorem isBoundary_of_slice? {start stop : Nat} {t m : Text} (h : slice? start stop t = some m) :
    isBoundary start t = true ∧ isBoundary stop t = true := by
  obtain ⟨a, b, rfl, rfl, rfl⟩ := (slice?_eq_some_iff _ _ _ _).1 h
  have hstop := cutAt?_append (a ++ m) b
  rw [byteLength_append] at hstop
  rw [isBoundary, isBoundary, hstop, List.append_assoc, cutAt?_append]
  exact ⟨rfl, rfl⟩

/-- What can be sliced out of a text is what stands between two of its boundaries. -/
theorem isSome_slice?_iff (start stop : Nat) (t : Text) :
    (slice? start stop t).isSome = true ↔
      start ≤ stop ∧ isBoundary start t = true ∧ isBoundary stop t = true := by
  constructor
  · intro h
    obtain ⟨m, hm⟩ := Option.isSome_iff_exists.1 h
    exact ⟨(le_of_slice?_eq_some hm).1, isBoundary_of_slice? hm⟩
  · rintro ⟨hle, hstart, hstop⟩
    obtain ⟨⟨a, r⟩, ha⟩ := Option.isSome_iff_exists.1 hstart
    obtain ⟨⟨b, q⟩, hb⟩ := Option.isSome_iff_exists.1 hstop
    obtain ⟨rfl, hstart'⟩ := (cutAt?_eq_some_iff _ _ _ _).1 ha
    obtain ⟨hsplit, hstop'⟩ := (cutAt?_eq_some_iff _ _ _ _).1 hb
    obtain ⟨m, rfl, rfl⟩ := append_split_of_le hsplit (by omega)
    rw [byteLength_append] at hstop'
    exact Option.isSome_iff_exists.2
      ⟨m, (slice?_eq_some_iff _ _ _ _).2 ⟨a, q, by simp, hstart', by omega⟩⟩

/-- A boundary lies within its text. -/
theorem le_of_isBoundary {n : Nat} {t : Text} (h : isBoundary n t = true) : n ≤ byteLength t := by
  obtain ⟨⟨a, b⟩, hab⟩ := Option.isSome_iff_exists.1 h
  obtain ⟨rfl, rfl⟩ := (cutAt?_eq_some_iff _ _ _ _).1 hab
  rw [byteLength_append]
  omega

/-! ## What is covered -/

/-- Between two offsets of a text stand whole characters, at least one. -/
def Covers (t : Text) (start stop : Nat) : Prop :=
  ∃ m, m ≠ [] ∧ slice? start stop t = some m

theorem Covers.lt {t : Text} {start stop : Nat} (h : Covers t start stop) : start < stop := by
  obtain ⟨m, hne, hslice⟩ := h
  obtain ⟨a, b, -, -, hstop⟩ := (slice?_eq_some_iff _ _ _ _).1 hslice
  have hm : byteLength m ≠ 0 := fun hzero => hne ((byteLength_eq_zero_iff m).1 hzero)
  omega

/-- What is covered in a slice is covered in the text. -/
theorem Covers.of_slice {t u : Text} {start stop a b : Nat} (h : Covers u a b)
    (hu : slice? start stop t = some u) : Covers t (start + a) (start + b) := by
  obtain ⟨m, hne, hm⟩ := h
  exact ⟨m, hne, slice?_of_slice? hu hm⟩

/-- A passage of a text covers what it stands for. -/
theorem covers_of_append {left m right : Text} (hne : m ≠ []) :
    Covers (left ++ m ++ right) left.byteLength (left.byteLength + m.byteLength) :=
  ⟨m, hne, (slice?_eq_some_iff _ _ _ _).2 ⟨left, right, rfl, rfl, rfl⟩⟩

end CodeProse.Text

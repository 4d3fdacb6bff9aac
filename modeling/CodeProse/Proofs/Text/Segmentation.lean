/-
# Cutting texts into pieces

A segmentation cuts every text into pieces, none of them empty. Whether it cuts a text at some place
is to hang on what stands before the place and on the character behind it, and on nothing further
on. Then a text that goes on keeps its pieces, all but the last, which may grow
(`IsSegmentation.exists_common`); so it never has fewer of them, and it has more exactly where a
piece starts behind the text (`IsSegmentation.length_lt_iff`).
-/
import CodeProse.Text.Offset
import Mathlib.Data.List.Basic

namespace CodeProse.Text

/-! ## Ends of pieces -/

/-- The first ones of some pieces make up a text. -/
def EndsAt (pieces : List Text) (a : Text) : Prop :=
  ∃ x y, pieces = x ++ y ∧ x.flatten = a

variable {x y : List Text} {a b p : Text}

theorem endsAt_flatten_left (x y : List Text) : EndsAt (x ++ y) x.flatten :=
  ⟨x, y, rfl, rfl⟩

theorem endsAt_flatten (x : List Text) : EndsAt x x.flatten :=
  ⟨x, [], (List.append_nil x).symm, rfl⟩

theorem EndsAt.isPrefix (h : EndsAt x a) : a <+: x.flatten := by
  obtain ⟨u, v, rfl, rfl⟩ := h
  exact ⟨v.flatten, List.flatten_append.symm⟩

/-- The last piece ends with the text. -/
theorem endsAt_iff_of_length_le (hle : x.flatten.length ≤ a.length) :
    EndsAt x a ↔ a = x.flatten := by
  constructor
  · intro h
    exact h.isPrefix.eq_of_length_le hle
  · rintro rfl
    exact endsAt_flatten x

/-- An end among the first pieces is one of theirs. -/
theorem endsAt_append_iff (hlt : a.length < x.flatten.length) :
    EndsAt (x ++ y) a ↔ EndsAt x a := by
  constructor
  · rintro ⟨u, v, hcut, rfl⟩
    rcases List.append_eq_append_iff.1 hcut with ⟨w, rfl, -⟩ | ⟨w, rfl, -⟩
    · rw [List.flatten_append, List.length_append] at hlt
      omega
    · exact endsAt_flatten_left u w
  · rintro ⟨u, v, rfl, rfl⟩
    exact ⟨u, v ++ y, List.append_assoc u v y, rfl⟩

/-- Behind the first piece the others end. -/
theorem endsAt_cons_append_iff {piece : Text} (hpiece : piece ≠ []) :
    EndsAt (piece :: x) (piece ++ a) ↔ EndsAt x a := by
  constructor
  · rintro ⟨u, v, hcut, hfront⟩
    cases u with
    | nil =>
      obtain ⟨hnil, -⟩ := List.append_eq_nil_iff.1 hfront.symm
      exact absurd hnil hpiece
    | cons first u =>
      obtain ⟨rfl, rfl⟩ := List.cons.inj hcut
      rw [List.flatten_cons, List.append_cancel_left_eq] at hfront
      exact ⟨u, v, rfl, hfront⟩
  · rintro ⟨u, v, rfl, rfl⟩
    exact ⟨piece :: u, v, rfl, rfl⟩

/-- Behind the first pieces the others end. -/
theorem endsAt_append_append_iff (hx : ∀ piece ∈ x, piece ≠ []) :
    EndsAt (x ++ y) (x.flatten ++ a) ↔ EndsAt y a := by
  induction x with
  | nil => rfl
  | cons piece x ih =>
    rw [List.cons_append, List.flatten_cons, List.append_assoc,
      endsAt_cons_append_iff (hx piece List.mem_cons_self),
      ih fun q hq => hx q (List.mem_cons_of_mem _ hq)]

/-- No piece ends before the first one does. -/
theorem EndsAt.prefix_of_cons {piece : Text} (h : EndsAt (piece :: x) a) (ha : a ≠ []) :
    piece <+: a := by
  obtain ⟨u, v, hcut, rfl⟩ := h
  cases u with
  | nil => exact absurd rfl ha
  | cons first u =>
    obtain rfl := (List.cons.inj hcut).1
    exact List.prefix_append _ _

/-- Pieces are known by where they end. -/
theorem eq_of_endsAt_iff (hx : ∀ piece ∈ x, piece ≠ []) (hy : ∀ piece ∈ y, piece ≠ [])
    (h : ∀ a, EndsAt x a ↔ EndsAt y a) : x = y := by
  induction x generalizing y with
  | nil =>
    have hend := ((h y.flatten).2 (endsAt_flatten y)).isPrefix
    have hempty := List.flatten_eq_nil_iff.1 (List.prefix_nil.1 hend)
    exact (List.eq_nil_iff_forall_not_mem.2 fun piece hpiece =>
      hy piece hpiece (hempty piece hpiece)).symm
  | cons piece x ih =>
    have hpiece := hx piece List.mem_cons_self
    have hend := (h piece).1 ⟨[piece], x, rfl, List.flatten_singleton⟩
    cases y with
    | nil => exact absurd (List.prefix_nil.1 hend.isPrefix) hpiece
    | cons piece' y =>
      have hpiece' := hy piece' List.mem_cons_self
      have hend' := (h piece').2 ⟨[piece'], y, rfl, List.flatten_singleton⟩
      -- each of the two first pieces starts with the other
      obtain rfl : piece = piece' :=
        (hend'.prefix_of_cons hpiece').eq_of_length_le (hend.prefix_of_cons hpiece).length_le
      rw [ih (fun q hq => hx q (List.mem_cons_of_mem _ hq))
        (fun q hq => hy q (List.mem_cons_of_mem _ hq)) fun a => ?_]
      rw [← endsAt_cons_append_iff hpiece, h, endsAt_cons_append_iff hpiece]

/-! ## Segmentations -/

/-- What the rules of Unicode for cutting a text into grapheme clusters promise, and other rules as
well. -/
structure IsSegmentation (segment : Text → List Text) : Prop where
  /-- Nothing of a text is lost, and nothing is added. -/
  flatten : ∀ t, (segment t).flatten = t
  ne_nil : ∀ t, ∀ piece ∈ segment t, piece ≠ []
  /-- Whether a piece ends at a place hangs on what stands before the place and on the character
  behind it. -/
  endsAt_congr : ∀ a c b b', EndsAt (segment (a ++ c :: b)) a → EndsAt (segment (a ++ c :: b')) a

namespace IsSegmentation

variable {segment : Text → List Text} (h : IsSegmentation segment)

include h

/-- Only the empty text has no pieces. -/
theorem eq_nil_iff (t : Text) : segment t = [] ↔ t = [] := by
  constructor
  · intro hnil
    rw [← h.flatten t, hnil]
    rfl
  · rintro rfl
    refine List.eq_nil_iff_forall_not_mem.2 fun piece hpiece => h.ne_nil [] piece hpiece ?_
    exact List.flatten_eq_nil_iff.1 (h.flatten []) piece hpiece

/-- What follows a text does not change where pieces end within it. -/
theorem endsAt_segment_append_iff (b : Text) (hlt : p.length < a.length) :
    EndsAt (segment (a ++ b)) p ↔ EndsAt (segment a) p := by
  -- an end within `a` has a character of `a` behind it, which is all that the rules look at
  have hsplit : ∀ b, EndsAt (segment (a ++ b)) p → ∃ d q, a = p ++ d :: q := by
    intro b hend
    have hprefix := hend.isPrefix
    rw [h.flatten] at hprefix
    obtain ⟨rest, rfl⟩ :=
      List.prefix_of_prefix_length_le hprefix (List.prefix_append a b) (Nat.le_of_lt hlt)
    cases rest with
    | nil => simp at hlt
    | cons d q => exact ⟨d, q, rfl⟩
  constructor
  · intro hend
    obtain ⟨d, q, rfl⟩ := hsplit b hend
    rw [List.append_assoc, List.cons_append] at hend
    exact h.endsAt_congr p d _ q hend
  · intro hend
    obtain ⟨d, q, rfl⟩ := hsplit [] (by rwa [List.append_nil])
    rw [List.append_assoc, List.cons_append]
    exact h.endsAt_congr p d q _ hend

/-- **The pieces up to an end are those of the text before it.** -/
theorem eq_segment_flatten {t : Text} (hcut : segment t = x ++ y) : x = segment x.flatten := by
  have ht : x.flatten ++ y.flatten = t := by rw [← List.flatten_append, ← hcut, h.flatten]
  have hx : ∀ piece ∈ x, piece ≠ [] := fun piece hpiece =>
    h.ne_nil t piece (hcut ▸ List.mem_append_left y hpiece)
  refine eq_of_endsAt_iff hx (h.ne_nil x.flatten) fun p => ?_
  by_cases hlt : p.length < x.flatten.length
  · rw [← endsAt_append_iff hlt, ← hcut, ← ht, h.endsAt_segment_append_iff _ hlt]
  · have hle := Nat.le_of_not_lt hlt
    rw [endsAt_iff_of_length_le hle, endsAt_iff_of_length_le (by rwa [h.flatten]), h.flatten]

/-- The last piece goes on at most. -/
theorem prefix_of_common {last more : Text} (hsegment : segment a = x ++ [last])
    (hlonger : segment (a ++ b) = x ++ more :: y) : last <+: more := by
  have hpieces := h.ne_nil (a ++ b)
  rw [hlonger] at hpieces
  have hfront : ∀ piece ∈ x, piece ≠ [] := fun q hq => hpieces q (List.mem_append_left _ hq)
  have hmore : more ≠ [] := hpieces more (List.mem_append_right x List.mem_cons_self)
  have ha : a = x.flatten ++ last := by
    rw [← h.flatten a, hsegment, List.flatten_append, List.flatten_singleton]
  by_cases hlt : more.length < last.length
  · -- then `more` ends within the last piece of the shorter text, which is its only end
    have hend : EndsAt (segment (a ++ b)) (x.flatten ++ more) := by
      rw [hlonger, endsAt_append_append_iff hfront]
      exact ⟨[more], y, rfl, List.flatten_singleton⟩
    have hshort : (x.flatten ++ more).length < a.length := by
      rw [ha, List.length_append, List.length_append]
      omega
    rw [h.endsAt_segment_append_iff b hshort, hsegment, endsAt_append_append_iff hfront] at hend
    exact hend.prefix_of_cons hmore
  · have hrest : more ++ y.flatten = last ++ b := by
      have hflatten := h.flatten (a ++ b)
      rwa [hlonger, ha, List.flatten_append, List.append_assoc,
        List.append_cancel_left_eq, List.flatten_cons] at hflatten
    exact List.prefix_of_prefix_length_le (List.prefix_append last b) ⟨y.flatten, hrest⟩
      (Nat.le_of_not_lt hlt)

/-- **A text that goes on keeps its pieces,** all but the last, which may grow. -/
theorem exists_common (ha : a ≠ []) (b : Text) :
    ∃ x last more y, segment a = x ++ [last] ∧ segment (a ++ b) = x ++ more :: y ∧
      last <+: more := by
  obtain ⟨x, last, hsegment⟩ : ∃ x last, segment a = x ++ [last] :=
    ⟨_, _, (List.dropLast_append_getLast (mt (h.eq_nil_iff a).1 ha)).symm⟩
  have hshort : x.flatten.length < a.length := by
    have hlast := h.ne_nil a last (hsegment ▸ List.mem_append_right x List.mem_cons_self)
    rw [← h.flatten a, hsegment, List.flatten_append, List.length_append, List.flatten_singleton]
    exact Nat.lt_add_of_pos_right (List.length_pos_of_ne_nil hlast)
  -- the pieces before the last one end in the longer text as well
  obtain ⟨u, v, hcut, hfront⟩ := (h.endsAt_segment_append_iff b hshort).2
    (hsegment ▸ endsAt_flatten_left x [last])
  obtain rfl : u = x := by
    rw [h.eq_segment_flatten hcut, hfront, ← h.eq_segment_flatten hsegment]
  cases v with
  | nil =>
    have hflatten := congrArg List.length (h.flatten (a ++ b))
    rw [hcut, List.append_nil, List.length_append] at hflatten
    omega
  | cons more y => exact ⟨u, last, more, y, hsegment, hcut, h.prefix_of_common hsegment hcut⟩

/-- A text that goes on has no fewer pieces. -/
theorem length_le (a b : Text) : (segment a).length ≤ (segment (a ++ b)).length := by
  by_cases ha : a = []
  · rw [(h.eq_nil_iff a).2 ha]
    exact Nat.zero_le _
  · obtain ⟨x, last, more, y, hsegment, hlonger, -⟩ := h.exists_common ha b
    rw [hsegment, hlonger]
    simp

/-- **A text that goes on has more pieces exactly if one starts behind it.** -/
theorem length_lt_iff (a b : Text) :
    (segment a).length < (segment (a ++ b)).length ↔
      ∃ x piece y, segment (a ++ b) = x ++ piece :: y ∧ a <+: x.flatten := by
  constructor
  · intro hlt
    by_cases ha : a = []
    · obtain ⟨piece, y, hcut⟩ := List.exists_cons_of_length_pos (Nat.zero_lt_of_lt hlt)
      exact ⟨[], piece, y, hcut, ha ▸ List.nil_prefix⟩
    · obtain ⟨x, last, more, y, hsegment, hlonger, w, hw⟩ := h.exists_common ha b
      rw [hsegment, hlonger] at hlt
      cases y with
      | nil => simp at hlt
      | cons piece y =>
        refine ⟨x ++ [more], piece, y, by rw [hlonger, List.append_cons], w, ?_⟩
        rw [← h.flatten a, hsegment, List.flatten_append, List.flatten_append,
          List.flatten_singleton, List.flatten_singleton, List.append_assoc, hw]
  · rintro ⟨x, piece, y, hcut, w, hfront⟩
    calc (segment a).length ≤ (segment (a ++ w)).length := h.length_le a w
      _ = x.length := by rw [hfront, ← h.eq_segment_flatten hcut]
      _ < (segment (a ++ b)).length := by rw [hcut]; simp

end IsSegmentation

end CodeProse.Text

/-
# What an edit does to a draft

An edit of a draft splits the untouched part around its range. What is left of it, the new text and
what was finished before make up the next draft, and closing the gap of a deletion takes at most one
blank.
-/
import CodeProse.Proofs.Text.Cut
import CodeProse.Text.Blank

namespace CodeProse

namespace Draft

@[simp] theorem before_ofText (t : Text) : (ofText t).before = t := rfl

@[simp] theorem after_ofText (t : Text) : (ofText t).after = [] := rfl

/-! ## The text around a range -/

/-- What lies around a range is the only way to split the untouched part at both its ends. -/
theorem around?_eq_some_iff (d : Draft) (start stop : Nat) (left right : Text) :
    d.around? start stop = some (left, right) ↔
      ∃ gone, d.before = left ++ gone ++ right ∧ left.byteLength = start ∧
        start + gone.byteLength = stop := by
  refine ⟨around?_eq_some, ?_⟩
  rintro ⟨gone, hb, rfl, rfl⟩
  rw [around?, if_pos (by omega), hb, List.append_assoc, Text.cutAt?_append]
  simp

/-- The text around a range, up to the finished part and on. -/
theorem text_of_split {d : Draft} {left gone right : Text}
    (hb : d.before = left ++ gone ++ right) : d.text = left ++ gone ++ (right ++ d.after) := by
  rw [text, hb, List.append_assoc]

/-- A range has a text around it exactly where it can be sliced out. -/
theorem isSome_around? (d : Draft) (start stop : Nat) :
    (d.around? start stop).isSome = (Text.slice? start stop d.before).isSome := by
  rw [Bool.eq_iff_iff, Option.isSome_iff_exists, Option.isSome_iff_exists]
  constructor
  · rintro ⟨⟨left, right⟩, h⟩
    obtain ⟨gone, hb, hl, hg⟩ := around?_eq_some h
    exact ⟨gone, (Text.slice?_eq_some_iff _ _ _ _).2 ⟨left, right, hb, hl, hg⟩⟩
  · rintro ⟨gone, h⟩
    obtain ⟨left, right, hb, hl, hg⟩ := (Text.slice?_eq_some_iff _ _ _ _).1 h
    exact ⟨(left, right), (around?_eq_some_iff _ _ _ _ _).2 ⟨gone, hb, hl, hg⟩⟩

/-! ## Closing a gap -/

/-- Closing a gap leaves both sides as they are, or takes one blank from one of them: the blank in
front of punctuation from the left one, or one of two blanks from the right one. -/
theorem closeGap_cases (left right : Text) :
    (closeGap left right = (left, right)) ∨
      (∃ right', right = ' ' :: right' ∧ closeGap left right = (left, right') ∧
        (left.getLast? = some ' ' ∨ left = [])) ∨
      (∃ left', left = left' ++ [' '] ∧ right.head?.any hugsLeft = true ∧
        closeGap left right = (left', right)) := by
  unfold closeGap
  split
  case isTrue h =>
    simp only [Bool.and_eq_true, beq_iff_eq, Bool.or_eq_true, List.isEmpty_iff] at h
    obtain ⟨hr, hl⟩ := h
    obtain ⟨right', rfl⟩ : ∃ right', right = ' ' :: right' := by
      cases right with
      | nil => simp at hr
      | cons c r => simp only [List.head?_cons, Option.some.injEq] at hr; exact ⟨r, by rw [hr]⟩
    exact .inr (.inl ⟨right', rfl, rfl, hl⟩)
  case isFalse h =>
    split
    case isTrue h2 =>
      simp only [Bool.and_eq_true, beq_iff_eq] at h2
      obtain ⟨left', rfl⟩ := List.getLast?_eq_some_iff.1 h2.1
      exact .inr (.inr ⟨left', rfl, h2.2, by simp⟩)
    case isFalse => exact .inl rfl

/-- Closing a gap only looks at the first character behind it. -/
theorem closeGap_append (left : Text) {right : Text} (more : Text) (h : right ≠ []) :
    closeGap left (right ++ more) = ((closeGap left right).1, (closeGap left right).2 ++ more) := by
  obtain ⟨c, right, rfl⟩ := List.exists_cons_of_ne_nil h
  by_cases hc : c = ' '
  · by_cases hl : left.getLast? = some ' ' ∨ left = []
    · simp [closeGap, hc, hl]
    · simp [closeGap, hc, not_or.1 hl]
  · by_cases hl : left.getLast? = some ' ' ∧ hugsLeft c = true
    · simp [closeGap, hc, hl]
    · simp [closeGap, hc, hl]

end Draft

/-! ## The range of a deletion -/

/-- The range that a deletion really takes reaches to what closing the gap leaves of both sides. -/
theorem deletionRange_eq {t left gone right : Text} {start stop : Nat}
    (ht : t = left ++ gone ++ right) (hstart : left.byteLength = start)
    (hstop : start + gone.byteLength = stop) :
    deletionRange t start stop
      = (start - (start - (Draft.closeGap left right).1.byteLength),
        stop + (right.byteLength - (Draft.closeGap left right).2.byteLength)) := by
  have ha : (Draft.ofText t).around? start stop = some (left, right) :=
    (Draft.around?_eq_some_iff _ _ _ _ _).2 ⟨gone, ht, hstart, hstop⟩
  rw [deletionRange, ha, ← hstart]

/-- A deletion takes its range, or with it one of two blanks behind it, or the blank that it would
leave in front of punctuation. -/
theorem deletionRange_cases {t left gone right : Text} {start stop : Nat}
    (ht : t = left ++ gone ++ right) (hstart : left.byteLength = start)
    (hstop : start + gone.byteLength = stop) :
    (deletionRange t start stop = (start, stop) ∧ Draft.closeGap left right = (left, right)) ∨
      (∃ right', right = ' ' :: right' ∧ deletionRange t start stop = (start, stop + 1) ∧
        Draft.closeGap left right = (left, right') ∧ (left.getLast? = some ' ' ∨ left = [])) ∨
      (∃ left', left = left' ++ [' '] ∧ deletionRange t start stop = (left'.byteLength, stop) ∧
        Draft.closeGap left right = (left', right) ∧
        right.head?.any Draft.hugsLeft = true) := by
  have hrange := deletionRange_eq ht hstart hstop
  rcases Draft.closeGap_cases left right with
    hq | ⟨right', rfl, hq, hleft⟩ | ⟨left', rfl, hpunct, hq⟩
  · refine .inl ⟨?_, hq⟩
    rw [hrange, hq, hstart]
    simp
  · refine .inr (.inl ⟨right', rfl, ?_, hq, hleft⟩)
    rw [hrange, hq, hstart]
    simp [show ' '.utf8Size = 1 from rfl]
  · refine .inr (.inr ⟨left', rfl, ?_, hq, hpunct⟩)
    rw [hrange, hq]
    simp only [Text.byteLength_append] at hstart
    simp only [Prod.mk.injEq]
    omega

end CodeProse

/-
# Drafts

Edits go into a text from its end backwards, so that offsets into what is still untouched stay
valid. A draft is a text in the middle of this: the part before the last edit, which is still as it
was given, and the part from there on, which is finished.

* `Draft.replace?` puts a new text in the place of a range of the untouched part.
* `Draft.delete?` removes a range, and one blank with it where two words would otherwise be left
  with two blanks between them, or a blank before punctuation.
-/
import CodeProse.Text.Offset

namespace CodeProse

/-- A text that is edited from its end backwards. -/
structure Draft where
  /-- The part that is still untouched. -/
  before : Text
  /-- The part that is finished. -/
  after : Text
  deriving DecidableEq, Repr, Inhabited

namespace Draft

/-- The draft of a text without any edit. -/
def ofText (t : Text) : Draft := ⟨t, []⟩

/-- The text as edited so far. -/
def text (d : Draft) : Text := d.before ++ d.after

@[simp] theorem text_ofText (t : Text) : (ofText t).text = t := by simp [ofText, text]

/-- The untouched text up to `start` and from `stop` on; fails for a range that is reversed, that
reaches into the finished part, or that does not lie between characters. -/
def around? (d : Draft) (start stop : Nat) : Option (Text × Text) :=
  if start ≤ stop then
    (Text.cutAt? start d.before).bind fun p => (Text.cutAt? (stop - start) p.2).map fun q => (p.1, q.2)
  else none

/-- What lies around a range is what is left of the untouched part. -/
theorem around?_eq_some {d : Draft} {start stop : Nat} {left right : Text}
    (h : d.around? start stop = some (left, right)) :
    ∃ gone, d.before = left ++ gone ++ right ∧ left.byteLength = start ∧
      start + gone.byteLength = stop := by
  unfold around? at h
  split at h
  case isTrue hle =>
    obtain ⟨⟨a, b⟩, hab, h⟩ := Option.bind_eq_some_iff.1 h
    obtain ⟨⟨x, y⟩, hxy, h⟩ := Option.map_eq_some_iff.1 h
    simp only [Prod.mk.injEq] at h
    obtain ⟨rfl, rfl⟩ := h
    obtain ⟨hb, ha⟩ := (Text.cutAt?_eq_some_iff _ _ _ _).1 hab
    obtain ⟨hy, hx⟩ := (Text.cutAt?_eq_some_iff _ _ _ _).1 hxy
    simp only at hy ha
    exact ⟨x, by rw [hb, hy]; simp, ha, by omega⟩
  case isFalse => cases h

/-- Puts `new` in the place of a range. -/
def replace? (d : Draft) (start stop : Nat) (new : Text) : Option Draft :=
  (d.around? start stop).map fun p => ⟨p.1, new ++ p.2 ++ d.after⟩

/-- The punctuation that takes no blank before it. -/
def hugsLeft (c : Char) : Bool :=
  c == '.' || c == ',' || c == ';' || c == ':' || c == '!' || c == '?'

/-- What is left of two texts when they meet after a deletion: of two blanks one goes, as does a
blank at the very start and one before punctuation. -/
def closeGap (left right : Text) : Text × Text :=
  if right.head? == some ' ' && (left.getLast? == some ' ' || left.isEmpty) then
    (left, right.drop 1)
  else if left.getLast? == some ' ' && right.head?.any hugsLeft then
    (left.dropLast, right)
  else (left, right)

/-- Removes a range and closes the gap. -/
def delete? (d : Draft) (start stop : Nat) : Option Draft :=
  (d.around? start stop).map fun p =>
    let q := closeGap p.1 (p.2 ++ d.after)
    ⟨q.1, q.2⟩

end Draft

/-- The range that a deletion of `start` to `stop` really removes from a text: the range itself and
the blank that closing the gap takes with it. -/
def deletionRange (t : Text) (start stop : Nat) : Nat × Nat :=
  match (Draft.ofText t).around? start stop with
  | none => (start, stop)
  | some (left, right) =>
    let q := Draft.closeGap left right
    (start - (left.byteLength - q.1.byteLength), stop + (right.byteLength - q.2.byteLength))

/-- The order in which edits go into a text: from the end backwards, the longer first. -/
def laterFirst (a b : Nat × Nat) : Bool :=
  b.1 < a.1 || (a.1 == b.1 && b.2 ≤ a.2)

end CodeProse

/-
# Items strung along a text

Sentences, runs and words all stand in a text one behind the other, with something between them. A
strand says what may stand before, in and behind an item; items that follow it are `Along` a text.
Whatever the strand, each item is what stands between its offsets (`Along.slice`), and none begins
before the one in front of it has ended (`Along.pairwise`).
-/
import CodeProse.Proofs.Text.Cut
import CodeProse.Text.Sentence

namespace CodeProse.Text

/-- What items that are strung along a text look like. -/
structure Strand (α : Type) where
  /-- The text of an item and where it stands. -/
  place : α → Span
  /-- What an item may be, given the gap in front of it and all that follows it. -/
  fits : Text → α → Text → Prop
  /-- What may follow the last item. -/
  ends : Text → Prop

namespace Strand

variable {α : Type} {s : Strand α}

/-- The items of a list stand one behind the other in a text that starts at `offset`. -/
def Along (s : Strand α) (offset : Nat) (t : Text) : List α → Prop
  | [] => s.ends t
  | a :: rest => ∃ gap post, t = gap ++ (s.place a).text ++ post ∧
      offset + gap.byteLength = (s.place a).start ∧
      (s.place a).start + (s.place a).text.byteLength = (s.place a).stop ∧
      s.fits gap a post ∧ Along s (s.place a).stop post rest

/-- What may stand in front of any item and of any end may stand in front of the items of a text. -/
theorem Along.append_left {offset : Nat} (lead : Text) {t : Text} {items : List α}
    (hends : ∀ u, s.ends u → s.ends (lead ++ u))
    (hfits : ∀ gap a post, s.fits gap a post → s.fits (lead ++ gap) a post)
    (h : s.Along (offset + lead.byteLength) t items) : s.Along offset (lead ++ t) items := by
  cases items with
  | nil => exact hends t h
  | cons a rest =>
    obtain ⟨gap, post, rfl, hstart, hstop, hgap, hrest⟩ := h
    refine ⟨lead ++ gap, post, by simp, ?_, hstop, hfits gap a post hgap, hrest⟩
    rw [byteLength_append, ← hstart, Nat.add_assoc]

/-- Items along a text stand in it. -/
theorem Along.bounds {offset : Nat} {t : Text} {items : List α} (h : s.Along offset t items) :
    ∀ a ∈ items, offset ≤ (s.place a).start ∧ (s.place a).stop ≤ offset + t.byteLength := by
  induction items generalizing offset t with
  | nil => intro a ha; cases ha
  | cons b rest ih =>
    obtain ⟨gap, post, rfl, hstart, hstop, -, hrest⟩ := h
    intro a ha
    simp only [byteLength_append]
    rcases List.mem_cons.1 ha with rfl | ha
    · omega
    · have := ih hrest a ha
      omega

/-- The last of some items along a text stand along what the text goes on with behind the others. -/
theorem Along.of_append {pre t : Text} {front back : List α}
    (h : s.Along pre.byteLength t (front ++ back)) :
    ∃ pre' t', pre ++ t = pre' ++ t' ∧ s.Along pre'.byteLength t' back := by
  induction front generalizing pre t with
  | nil => exact ⟨pre, t, rfl, h⟩
  | cons a front ih =>
    obtain ⟨gap, post, rfl, hstart, hstop, -, hrest⟩ := h
    have hpre : (s.place a).stop = (pre ++ gap ++ (s.place a).text).byteLength := by
      simp only [byteLength_append]
      omega
    rw [hpre] at hrest
    obtain ⟨pre', t', hsplit, hback⟩ := ih hrest
    refine ⟨pre', t', ?_, hback⟩
    rw [← hsplit]
    simp

/-- The text of an item is what stands between its offsets. -/
theorem Along.slice {pre t : Text} {items : List α} (h : s.Along pre.byteLength t items) :
    ∀ a ∈ items, slice? (s.place a).start (s.place a).stop (pre ++ t) = some (s.place a).text := by
  intro a ha
  obtain ⟨front, back, rfl⟩ := List.append_of_mem ha
  obtain ⟨pre', t', hsplit, gap, post, rfl, hstart, hstop, -⟩ := h.of_append
  rw [hsplit]
  refine (slice?_eq_some_iff _ _ _ _).2 ⟨pre' ++ gap, post, by simp, ?_, hstop⟩
  rw [byteLength_append, hstart]

/-- No item begins before the one in front of it has ended. -/
theorem Along.pairwise {offset : Nat} {t : Text} {items : List α} (h : s.Along offset t items) :
    items.Pairwise fun a b => (s.place a).stop ≤ (s.place b).start := by
  induction items generalizing offset t with
  | nil => exact .nil
  | cons a rest ih =>
    obtain ⟨gap, post, rfl, -, -, -, hrest⟩ := h
    exact List.pairwise_cons.2 ⟨fun b hb => (hrest.bounds b hb).1, ih hrest⟩

/-- An item fits what stands before and behind it. -/
theorem Along.exists_fits {offset : Nat} {t : Text} {items : List α} (h : s.Along offset t items) :
    ∀ a ∈ items, ∃ gap post, s.fits gap a post := by
  induction items generalizing offset t with
  | nil => intro a ha; cases ha
  | cons b rest ih =>
    obtain ⟨gap, post, -, -, -, hfits, hrest⟩ := h
    intro a ha
    rcases List.mem_cons.1 ha with rfl | ha
    · exact ⟨gap, post, hfits⟩
    · exact ih hrest a ha

end Strand

end CodeProse.Text

/-
# The order of edits

Edits and fixes are tried from the end of a text backwards, the longer first. The order is total and
transitive, so sorting by it does what one expects; sorting two rows of which the second lies wholly
behind the first sorts them one by one (`mergeSort_append_of_later`), and what is left of a row is
sorted as it was in the row (`mergeSort_sublist_mergeSort`).
-/
import CodeProse.Draft

namespace CodeProse

theorem laterFirst_iff (a b : Nat × Nat) :
    laterFirst a b = true ↔ b.1 < a.1 ∨ (a.1 = b.1 ∧ b.2 ≤ a.2) := by
  simp [laterFirst]

theorem laterFirst_total (a b : Nat × Nat) : (laterFirst a b || laterFirst b a) = true := by
  rw [Bool.or_eq_true, laterFirst_iff, laterFirst_iff]
  omega

theorem laterFirst_trans (a b c : Nat × Nat) (hab : laterFirst a b = true)
    (hbc : laterFirst b c = true) : laterFirst a c = true := by
  rw [laterFirst_iff] at *
  omega

section Sorting

variable {α : Type} {le : α → α → Bool}

/-- An element sorts in between those that come strictly before it and those that do not. -/
theorem exists_mergeSort_cons (trans : ∀ a b c, le a b → le b c → le a c)
    (total : ∀ a b, le a b || le b a) (a : α) (l : List α) :
    ∃ l₁ l₂, (a :: l).mergeSort le = l₁ ++ a :: l₂ ∧ l.mergeSort le = l₁ ++ l₂ ∧
      (∀ b ∈ l₁, (!le a b) = true) ∧ ∀ b ∈ l₂, le a b = true := by
  obtain ⟨l₁, l₂, hcons, hl, hbefore⟩ := List.mergeSort_cons trans total a l
  have hsorted := List.pairwise_mergeSort trans total (a :: l)
  rw [hcons] at hsorted
  have hafter : ∀ b ∈ l₂, le a b = true :=
    (List.pairwise_cons.1 (List.pairwise_append.1 hsorted).2.1).1
  exact ⟨l₁, l₂, hcons, hl, hbefore, hafter⟩

/-- An element sorts in front of the first one that does not come strictly before it. -/
theorem mergeSort_cons_eq (trans : ∀ a b c, le a b → le b c → le a c)
    (total : ∀ a b, le a b || le b a) (a : α) (l : List α) :
    (a :: l).mergeSort le
      = (l.mergeSort le).takeWhile (fun b => !le a b)
        ++ a :: (l.mergeSort le).dropWhile (fun b => !le a b) := by
  obtain ⟨l₁, l₂, hcons, hl, hbefore, hafter⟩ := exists_mergeSort_cons trans total a l
  have htake : (l₁ ++ l₂).takeWhile (fun b => !le a b) = l₁ := by
    rw [List.takeWhile_append_of_pos hbefore]
    cases l₂ with
    | nil => simp
    | cons b l₂ => simp [hafter b List.mem_cons_self]
  have hdrop : (l₁ ++ l₂).dropWhile (fun b => !le a b) = l₂ := by
    rw [List.dropWhile_append_of_pos hbefore]
    cases l₂ with
    | nil => simp
    | cons b l₂ => simp [hafter b List.mem_cons_self]
  rw [hl, htake, hdrop, hcons]

theorem mergeSort_cons_eq_filter (trans : ∀ a b c, le a b → le b c → le a c)
    (total : ∀ a b, le a b || le b a) (a : α) (l : List α) :
    (a :: l).mergeSort le
      = (l.mergeSort le).filter (fun b => !le a b) ++ a :: (l.mergeSort le).filter (le a) := by
  obtain ⟨l₁, l₂, hcons, hl, hbefore, hafter⟩ := exists_mergeSort_cons trans total a l
  have hbefore' : ∀ b ∈ l₁, ¬ le a b = true := by
    intro b hb
    simpa using hbefore b hb
  have hafter' : ∀ b ∈ l₂, ¬ (!le a b) = true := by
    intro b hb
    simp [hafter b hb]
  rw [hcons, hl, List.filter_append, List.filter_append, List.filter_eq_self.2 hbefore,
    List.filter_eq_nil_iff.2 hafter', List.filter_eq_nil_iff.2 hbefore',
    List.filter_eq_self.2 hafter, List.append_nil, List.nil_append]

/-- What is left of a row sorts into what is left of the sorted row. -/
theorem mergeSort_sublist_mergeSort (trans : ∀ a b c, le a b → le b c → le a c)
    (total : ∀ a b, le a b || le b a) {l₁ l₂ : List α} (h : l₁.Sublist l₂) :
    (l₁.mergeSort le).Sublist (l₂.mergeSort le) := by
  induction h with
  | slnil => exact .refl _
  | @cons l₁ l₂ a _ ih =>
    obtain ⟨front, back, hcons, hl, -⟩ := exists_mergeSort_cons trans total a l₂
    rw [hl] at ih
    rw [hcons]
    exact ih.trans ((List.Sublist.refl front).append (List.sublist_cons_self a back))
  | @cons_cons l₁ l₂ a _ ih =>
    rw [mergeSort_cons_eq_filter trans total, mergeSort_cons_eq_filter trans total]
    exact (ih.filter _).append ((ih.filter _).cons_cons a)

/-- Two rows of which the second comes strictly before the first are sorted one by one. -/
theorem mergeSort_append_of_later (trans : ∀ a b c, le a b → le b c → le a c)
    (total : ∀ a b, le a b || le b a) (l₁ l₂ : List α)
    (h : ∀ a ∈ l₁, ∀ b ∈ l₂, le a b = false) :
    (l₁ ++ l₂).mergeSort le = l₂.mergeSort le ++ l₁.mergeSort le := by
  induction l₁ with
  | nil => simp
  | cons a l₁ ih =>
    have hbefore : ∀ b ∈ l₂.mergeSort le, (!le a b) = true := by
      intro b hb
      simp [h a List.mem_cons_self b (List.mem_mergeSort.1 hb)]
    rw [List.cons_append, mergeSort_cons_eq trans total,
      ih fun x hx => h x (List.mem_cons_of_mem a hx), mergeSort_cons_eq trans total a l₁,
      List.takeWhile_append_of_pos hbefore, List.dropWhile_append_of_pos hbefore]
    simp

end Sorting

end CodeProse

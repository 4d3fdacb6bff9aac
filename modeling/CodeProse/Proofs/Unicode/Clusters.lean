/-
# Grapheme clusters as a segmentation

A text is cut into grapheme clusters where one ends: between two characters where what stands
before the place and the character behind it say so (`exists_clusters_eq_append_iff`). So grapheme
clusters are a segmentation (`isSegmentation_clusters`).
-/
import CodeProse.Proofs.Text.Segmentation
import CodeProse.Unicode.Grapheme

namespace CodeProse.Unicode

/-! ## The state -/

/-- The state after a text. -/
def ClusterState.read (s : ClusterState) (t : List Char) : ClusterState :=
  t.foldl ClusterState.push s

@[simp] theorem ClusterState.read_nil (s : ClusterState) : s.read [] = s := rfl

@[simp] theorem ClusterState.read_cons (s : ClusterState) (c : Char) (t : List Char) :
    s.read (c :: t) = (s.push c).read t := rfl

/-- A cluster starts with the first character. -/
theorem ClusterState.breaksBefore_start (c : Char) : ClusterState.start.breaksBefore c = true := rfl

/-! ## Cutting into clusters -/

section

variable {s : ClusterState} {c d : Char} {t a b : List Char}

theorem clustersAfter_cons_of_breaksBefore (h : s.breaksBefore c = true) :
    clustersAfter s (c :: t) =
      ([], (c :: (clustersAfter (s.push c) t).1) :: (clustersAfter (s.push c) t).2) := by
  rw [clustersAfter, if_pos h]

theorem clustersAfter_cons_of_not_breaksBefore (h : s.breaksBefore c = false) :
    clustersAfter s (c :: t) =
      (c :: (clustersAfter (s.push c) t).1, (clustersAfter (s.push c) t).2) := by
  rw [clustersAfter, if_neg (by simp [h])]

/-- Nothing of a text is lost. -/
theorem clustersAfter_flatten (s : ClusterState) (t : List Char) :
    (clustersAfter s t).1 ++ (clustersAfter s t).2.flatten = t := by
  induction t generalizing s with
  | nil => rfl
  | cons c t ih =>
    cases h : s.breaksBefore c with
    | true =>
      rw [clustersAfter_cons_of_breaksBefore h, List.nil_append, List.flatten_cons,
        List.cons_append, ih]
    | false => rw [clustersAfter_cons_of_not_breaksBefore h, List.cons_append, ih]

/-- No cluster is empty. -/
theorem ne_nil_of_mem_clustersAfter {cluster : List Char}
    (h : cluster ∈ (clustersAfter s t).2) : cluster ≠ [] := by
  induction t generalizing s with
  | nil => cases h
  | cons c t ih =>
    cases hbreak : s.breaksBefore c with
    | true =>
      rw [clustersAfter_cons_of_breaksBefore hbreak, List.mem_cons] at h
      rcases h with rfl | h
      · exact List.cons_ne_nil _ _
      · exact ih h
    | false =>
      rw [clustersAfter_cons_of_not_breaksBefore hbreak] at h
      exact ih h

/-- At the end of a cluster the text is cut. -/
theorem clustersAfter_append_of_breaksBefore (h : (s.read a).breaksBefore d = true) :
    clustersAfter s (a ++ d :: b) =
      ((clustersAfter s a).1,
        (clustersAfter s a).2 ++ (clustersAfter (s.read a) (d :: b)).2) := by
  induction a generalizing s with
  | nil =>
    rw [ClusterState.read_nil] at h
    rw [List.nil_append, ClusterState.read_nil, clustersAfter_cons_of_breaksBefore h]
    rfl
  | cons c a ih =>
    rw [ClusterState.read_cons] at h
    rw [List.cons_append, ClusterState.read_cons]
    cases hc : s.breaksBefore c with
    | true =>
      rw [clustersAfter_cons_of_breaksBefore hc, clustersAfter_cons_of_breaksBefore hc, ih h]
      rfl
    | false =>
      rw [clustersAfter_cons_of_not_breaksBefore hc, clustersAfter_cons_of_not_breaksBefore hc,
        ih h]

/-- Where a text is cut, a cluster ends. -/
theorem breaksBefore_of_clustersAfter {x y : List (List Char)} (ht : t = a ++ d :: b)
    (hcut : (clustersAfter s t).2 = x ++ y)
    (hfront : (clustersAfter s t).1 ++ x.flatten = a) : (s.read a).breaksBefore d = true := by
  induction t generalizing s x a with
  | nil => exact absurd ht.symm (by simp)
  | cons c t ih =>
    cases hc : s.breaksBefore c with
    | true =>
      rw [clustersAfter_cons_of_breaksBefore hc] at hcut hfront
      cases x with
      | nil =>
        obtain rfl : [] = a := hfront
        obtain rfl : c = d := (List.cons.inj ht).1
        exact hc
      | cons first x =>
        obtain ⟨rfl, hrest⟩ := List.cons.inj hcut
        obtain rfl : c :: ((clustersAfter (s.push c) t).1 ++ x.flatten) = a := hfront
        rw [ClusterState.read_cons]
        exact ih (List.cons.inj ht).2 hrest rfl
    | false =>
      rw [clustersAfter_cons_of_not_breaksBefore hc] at hcut hfront
      obtain rfl : c :: ((clustersAfter (s.push c) t).1 ++ x.flatten) = a := hfront
      rw [ClusterState.read_cons]
      exact ih (List.cons.inj ht).2 hcut rfl

end

/-! ## The clusters of a whole text -/

/-- Before the first cluster there is nothing. -/
theorem clustersAfter_start_fst (t : List Char) : (clustersAfter .start t).1 = [] := by
  cases t with
  | nil => rfl
  | cons c t => rw [clustersAfter_cons_of_breaksBefore (ClusterState.breaksBefore_start c)]

/-- A text is the concatenation of its clusters. -/
theorem clusters_flatten (t : List Char) : (clusters t).flatten = t := by
  have hflatten := clustersAfter_flatten .start t
  rwa [clustersAfter_start_fst, List.nil_append] at hflatten

theorem ne_nil_of_mem_clusters {t cluster : List Char} (h : cluster ∈ clusters t) :
    cluster ≠ [] :=
  ne_nil_of_mem_clustersAfter h

/-- **A text is cut where a cluster ends,** and nowhere else. -/
theorem exists_clusters_eq_append_iff (a b : List Char) (d : Char) :
    (∃ x y, clusters (a ++ d :: b) = x ++ y ∧ x.flatten = a) ↔
      (ClusterState.start.read a).breaksBefore d = true := by
  constructor
  · rintro ⟨x, y, hcut, hfront⟩
    refine breaksBefore_of_clustersAfter rfl hcut ?_
    rw [clustersAfter_start_fst, List.nil_append, hfront]
  · intro h
    refine ⟨clusters a, (clustersAfter (ClusterState.start.read a) (d :: b)).2, ?_,
      clusters_flatten a⟩
    rw [clusters, clustersAfter_append_of_breaksBefore h]
    rfl

/-- **Grapheme clusters are a segmentation.** -/
theorem isSegmentation_clusters : Text.IsSegmentation clusters where
  flatten := clusters_flatten
  ne_nil _ _ h := ne_nil_of_mem_clusters h
  endsAt_congr a c b b' h :=
    (exists_clusters_eq_append_iff a b' c).2 ((exists_clusters_eq_append_iff a b c).1 h)

end CodeProse.Unicode

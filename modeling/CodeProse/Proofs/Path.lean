/-
# Components of paths

A name that is appended to a path becomes its last component (`components_append`), whether or not
the path ends with a slash. Paths are ordered by their components, and two paths precede each other
only if their components are the same (`components_eq_of_le_of_le`).
-/
import CodeProse.Path
import CodeProse.FileTree.Basic
import Mathlib.Data.List.Basic

namespace CodeProse

/-! ## Pieces between separators -/

namespace Text

theorem splitOn_ne_nil (sep : Char) (t : Text) : splitOn sep t ≠ [] := by
  cases t with
  | nil => simp [splitOn]
  | cons c t =>
    rw [splitOn]
    split
    · simp
    · split <;> simp

/-- Without a separator there is one piece. -/
theorem splitOn_of_notMem {sep : Char} {t : Text} (h : sep ∉ t) : splitOn sep t = [t] := by
  induction t with
  | nil => rfl
  | cons c t ih =>
    rw [List.mem_cons, not_or] at h
    rw [splitOn, if_neg (Ne.symm h.1), ih h.2]

/-- The pieces on both sides of a separator. -/
theorem splitOn_append_cons (sep : Char) (a b : Text) :
    splitOn sep (a ++ sep :: b) = splitOn sep a ++ splitOn sep b := by
  induction a with
  | nil => simp [splitOn]
  | cons c a ih =>
    rw [List.cons_append, splitOn, splitOn]
    split
    · rw [ih]; rfl
    · obtain ⟨p, ps, hp⟩ := List.exists_cons_of_ne_nil (splitOn_ne_nil sep a)
      rw [ih, hp]
      rfl

/-- Only the empty text has a single piece that is empty. -/
theorem eq_nil_of_splitOn {sep : Char} {t : Text} (h : splitOn sep t = [[]]) : t = [] := by
  cases t with
  | nil => rfl
  | cons c t =>
    rw [splitOn] at h
    split at h
    · exact absurd (List.cons.inj h).2 (splitOn_ne_nil sep t)
    · split at h <;> cases h

end Text

namespace Path

open Text (splitOn)

/-! ## Names below a path -/

/-- Whether a directory can have something under a name. -/
structure IsName (name : Text) : Prop where
  ne_nil : name ≠ []
  no_slash : '/' ∉ name
  ne_current : name ≠ ['.']
  ne_parent : name ≠ ['.', '.']

theorem component?_of_isName {name : Text} (h : IsName name) (first : Bool) :
    component? first name = some (.name name) := by
  rw [component?, if_neg (by simpa using h.ne_nil), if_neg h.ne_current, if_neg h.ne_parent]

/-- A name is appended behind a slash, which the path may end with already. -/
theorem append_eq {dir name : Text} (hdir : dir ≠ []) (hname : IsName name) :
    ∃ stem, append dir name = stem ++ '/' :: name ∧ (dir = stem ∨ dir = stem ++ ['/']) := by
  have hhead : name.head? ≠ some '/' := fun h => hname.no_slash (List.mem_of_head? h)
  rw [append, if_neg hhead]
  split
  case isTrue hslash =>
    have hlast : dir.getLast? = some '/' := by simpa [hdir] using hslash
    obtain ⟨stem, rfl⟩ := List.getLast?_eq_some_iff.1 hlast
    exact ⟨stem, by simp, .inr rfl⟩
  case isFalse => exact ⟨dir, rfl, .inl rfl⟩

theorem append_ne_nil {dir name : Text} (hdir : dir ≠ []) (hname : IsName name) :
    append dir name ≠ [] := by
  obtain ⟨stem, happend, -⟩ := append_eq hdir hname
  rw [happend]
  simp

/-- The components of a path that is cut into pieces at its slashes. -/
theorem components_of_splitOn {path first : Text} {rest : List Text}
    (h : splitOn '/' path = first :: rest) :
    components path =
      if first.isEmpty then
        if rest.isEmpty then [] else .root :: rest.filterMap (component? false)
      else (component? true first).toList ++ rest.filterMap (component? false) := by
  rw [components, h]

/-- **A name that is appended to a path is its last component.** -/
theorem components_append {dir name : Text} (hdir : dir ≠ []) (hname : IsName name) :
    components (append dir name) = components dir ++ [.name name] := by
  obtain ⟨stem, happend, hstem⟩ := append_eq hdir hname
  obtain ⟨first, rest, hpieces⟩ := List.exists_cons_of_ne_nil (Text.splitOn_ne_nil '/' stem)
  have hsplit : splitOn '/' (append dir name) = first :: (rest ++ [name]) := by
    rw [happend, Text.splitOn_append_cons, hpieces, Text.splitOn_of_notMem hname.no_slash]
    rfl
  have hlast : [name].filterMap (component? false) = [.name name] := by
    rw [List.filterMap_cons, component?_of_isName hname]
    rfl
  rw [components_of_splitOn hsplit]
  rcases hstem with rfl | rfl
  · rw [components_of_splitOn hpieces, List.filterMap_append, hlast]
    by_cases hfirst : first.isEmpty
    · -- only the path without characters has no pieces behind an empty one
      have hrest : rest ≠ [] := by
        rintro rfl
        rw [List.isEmpty_iff.1 hfirst] at hpieces
        exact hdir (Text.eq_nil_of_splitOn hpieces)
      simp [hfirst, hrest]
    · simp [hfirst]
  · have hslash : splitOn '/' (stem ++ ['/']) = first :: (rest ++ [[]]) := by
      rw [Text.splitOn_append_cons, hpieces]
      rfl
    rw [components_of_splitOn hslash, List.filterMap_append, List.filterMap_append, hlast]
    by_cases hfirst : first.isEmpty <;> simp [hfirst, component?]

/-- A path that ends with a name may lead to a file. -/
theorem meansDirectory_append {dir name : Text} (hdir : dir ≠ []) (hname : IsName name) :
    meansDirectory (append dir name) = false := by
  obtain ⟨stem, happend, -⟩ := append_eq hdir hname
  obtain ⟨first, rest, hpieces⟩ := List.exists_cons_of_ne_nil
    (List.reverse_ne_nil_iff.2 (Text.splitOn_ne_nil '/' stem))
  have hsplit : (splitOn '/' (append dir name)).reverse = name :: first :: rest := by
    rw [happend, Text.splitOn_append_cons, Text.splitOn_of_notMem hname.no_slash,
      List.reverse_append, hpieces]
    rfl
  rw [meansDirectory, hsplit]
  simp [hname.ne_nil, hname.ne_current]

/-- The path of what names lead to from a path. -/
def below (path : Text) (names : List Text) : Text :=
  names.foldl append path

theorem below_cons (path name : Text) (names : List Text) :
    below path (name :: names) = below (append path name) names := rfl

/-- **Names that are appended to a path are its last components.** -/
theorem components_below {path : Text} {names : List Text} (hpath : path ≠ [])
    (hnames : ∀ name ∈ names, IsName name) :
    components (below path names) = components path ++ names.map .name := by
  induction names generalizing path with
  | nil => simp [below]
  | cons name names ih =>
    have hname : IsName name := hnames name List.mem_cons_self
    rw [below_cons, ih (append_ne_nil hpath hname) fun n hn => hnames n (List.mem_cons_of_mem _ hn),
      components_append hpath hname, List.append_assoc]
    rfl

/-! ## Order -/

theorem compare_eq_compareLex :
    Text.compare = List.compareLex (compareOn Char.toNat) := by
  funext a b
  induction a generalizing b with
  | nil => cases b <;> rfl
  | cons c a ih =>
    cases b with
    | nil => rfl
    | cons d b => rw [Text.compare, List.compareLex_cons_cons, ih, compareOn]

instance lawfulEqCmp_toNat : Std.LawfulEqCmp (compareOn Char.toNat) where
  eq_of_compare h := Char.toNat_inj.1 (Nat.compare_eq_eq.1 h)

instance : Std.TransCmp Text.compare := by
  rw [compare_eq_compareLex]
  infer_instance

instance : Std.LawfulEqCmp Text.compare := by
  rw [compare_eq_compareLex]
  infer_instance

/-- The text of a name; other components have none. -/
def nameText : PathComponent → Text
  | .name text => text
  | _ => []

/-- Components are compared by their ranks and then by their texts. -/
theorem compareComponent_eq_compareLex :
    compareComponent
      = compareLex (compareOn rank) fun a b => Text.compare (nameText a) (nameText b) := by
  funext a b
  cases a <;> cases b <;> rfl

instance : Std.TransCmp fun a b => Text.compare (nameText a) (nameText b) where
  eq_swap := Std.OrientedCmp.eq_swap
  isLE_trans := Std.TransCmp.isLE_trans

instance : Std.TransCmp compareComponent := by
  rw [compareComponent_eq_compareLex]
  infer_instance

/-- A component is known by its rank and its text. -/
theorem eq_of_rank_eq {a b : PathComponent} (hrank : rank a = rank b)
    (htext : nameText a = nameText b) : a = b := by
  cases a <;> cases b <;> simp_all [rank, nameText]

instance : Std.LawfulEqCmp compareComponent where
  eq_of_compare {a b} h := by
    rw [compareComponent_eq_compareLex] at h
    obtain ⟨hrank, hcompare⟩ := Ordering.then_eq_eq.1 h
    have htext : Text.compare (nameText a) (nameText b) = .eq := hcompare
    exact eq_of_rank_eq (Nat.compare_eq_eq.1 hrank) (Std.LawfulEqCmp.eq_of_compare htext)

theorem compareComponents_eq_compareLex :
    compareComponents = List.compareLex compareComponent := by
  funext a b
  induction a generalizing b with
  | nil => cases b <;> rfl
  | cons c a ih =>
    cases b with
    | nil => rfl
    | cons d b => rw [compareComponents, List.compareLex_cons_cons, ih]

instance : Std.TransCmp compareComponents := by
  rw [compareComponents_eq_compareLex]
  infer_instance

instance : Std.LawfulEqCmp compareComponents := by
  rw [compareComponents_eq_compareLex]
  infer_instance

theorem le_iff (a b : Text) :
    le a b = true ↔ (compareComponents (components a) (components b)).isLE = true := by
  rw [le]
  cases compareComponents (components a) (components b) <;> decide

theorem le_trans (a b c : Text) (hab : le a b = true) (hbc : le b c = true) : le a c = true := by
  rw [le_iff] at *
  exact Std.TransCmp.isLE_trans hab hbc

theorem le_total (a b : Text) : (le a b || le b a) = true := by
  have hswap : compareComponents (components b) (components a)
      = (compareComponents (components a) (components b)).swap := Std.OrientedCmp.eq_swap
  rw [Bool.or_eq_true, le_iff, le_iff, hswap]
  cases compareComponents (components a) (components b) <;> decide

theorem le_of_components_eq {a b : Text} (h : components a = components b) : le a b = true := by
  have hself : compareComponents (components b) (components b) = .eq := Std.ReflCmp.compare_self
  rw [le_iff, h, hself]
  rfl

/-- Paths that precede each other have the same components. -/
theorem components_eq_of_le_of_le {a b : Text} (hab : le a b = true) (hba : le b a = true) :
    components a = components b := by
  rw [le_iff] at *
  exact Std.LawfulEqCmp.eq_of_compare (Std.OrientedCmp.isLE_antisymm hab hba)

end Path

end CodeProse

/-
# File systems

A file system says to which place of a directory tree a path leads. There are no links, so a path
leads where its components do, and a name leads down to what the directory has under it; where a
leading slash or dots lead is left open, so that the directory to start from may be anywhere in the
tree. Each tree is the file system that is seen from its top (`FileTree.find?_fileSystem`).

The names that lead to a place are told by the components of a path to it, as far as these are names
(`FileSystem.exists_follow?_of_names`).
-/
import CodeProse.Proofs.Path

namespace CodeProse

/-- The entries of each directory of the tree have names that differ. -/
inductive FileTree.IsProper : FileTree → Prop where
  | file (content : FileContent) : IsProper (.file content)
  | directory (entries : List (Text × FileTree)) (nodup : (entries.map (·.1)).Nodup)
      (isName : ∀ e ∈ entries, Path.IsName e.1) (trees : ∀ e ∈ entries, IsProper e.2) :
      IsProper (.directory entries)

/-- The names that lead to a place end with the one that leads to it from the directory above. -/
theorem Place.names_mk_cons (tree dir : FileTree) (name : Text) (above : List (Text × FileTree)) :
    Place.names ⟨tree, (name, dir) :: above⟩ = Place.names ⟨dir, above⟩ ++ [name] :=
  List.reverse_cons

/-- A directory tree, as it is seen from a directory to start from. -/
structure FileSystem where
  /-- The place that components lead to. -/
  follow? : List PathComponent → Option Place
  /-- A name leads to what is there under it. -/
  follow?_name : ∀ components name,
    follow? (components ++ [.name name]) = (follow? components).bind (·.step? (.name name))
  /-- What is there is a proper tree. -/
  isProper : ∀ {components place}, follow? components = some place → place.tree.IsProper

namespace FileSystem

open CodeProse.Path (components meansDirectory IsName)

/-- The place that a path leads to. -/
def find? (fs : FileSystem) (path : Text) : Option Place :=
  if path.isEmpty then none
  else (fs.follow? (components path)).filter fun place =>
    !meansDirectory path || place.tree.isDirectory

variable {fs : FileSystem}

theorem find?_eq_some_iff (path : Text) (place : Place) :
    fs.find? path = some place ↔ path ≠ [] ∧ fs.follow? (components path) = some place ∧
      (meansDirectory path = true → place.tree.isDirectory = true) := by
  rw [find?]
  split
  case isTrue hempty => simp [List.isEmpty_iff.1 hempty]
  case isFalse hempty =>
    have hne : path ≠ [] := fun hnil => hempty (List.isEmpty_iff.2 hnil)
    rw [Option.filter_eq_some_iff, Bool.or_eq_true, Bool.not_eq_true', ← Bool.not_eq_true,
      ← imp_iff_not_or]
    simp [hne]

/-- Paths with the same components lead to the same place, if they lead anywhere. -/
theorem place_eq {a b : Text} (h : components a = components b) {place place' : Place}
    (ha : fs.find? a = some place) (hb : fs.find? b = some place') : place = place' := by
  have ha' := ((find?_eq_some_iff a place).1 ha).2.1
  have hb' := ((find?_eq_some_iff b place').1 hb).2.1
  rw [h, hb'] at ha'
  exact (Option.some.inj ha').symm

/-- A name that is appended to a path leads to what is there under it. -/
theorem find?_append {dir name : Text} {place : Place} {tree : FileTree} (hname : IsName name)
    (hdir : fs.find? dir = some place) (hchild : place.tree.child? name = some tree) :
    fs.find? (Path.append dir name) = some ⟨tree, (name, place.tree) :: place.above⟩ := by
  obtain ⟨hne, hfollow, -⟩ := (find?_eq_some_iff dir place).1 hdir
  refine (find?_eq_some_iff _ _).2 ⟨Path.append_ne_nil hne hname, ?_, ?_⟩
  · rw [Path.components_append hne hname, fs.follow?_name, hfollow, Option.bind_some, Place.step?,
      hchild]
    rfl
  · rw [Path.meansDirectory_append hne hname]
    exact nofun

/-- **Components that are names lead downwards.**  The names that lead to a place end with the names
that a path to it ends with. -/
theorem exists_follow?_of_names {cs : List PathComponent} {names : List Text} {place : Place}
    (h : fs.follow? (cs ++ names.map .name) = some place) :
    ∃ start, fs.follow? cs = some start ∧ place.names = start.names ++ names := by
  induction names generalizing cs with
  | nil => exact ⟨place, by simpa using h, by simp⟩
  | cons name names ih =>
    rw [List.map_cons, List.append_cons] at h
    obtain ⟨next, hnext, hnames⟩ := ih h
    rw [fs.follow?_name] at hnext
    obtain ⟨start, hstart, hstep⟩ := Option.bind_eq_some_iff.1 hnext
    obtain ⟨tree, -, rfl⟩ := Option.map_eq_some_iff.1 hstep
    rw [Place.names_mk_cons, List.append_assoc] at hnames
    exact ⟨start, hstart, hnames⟩

end FileSystem

/-! ## Trees as file systems -/

/-- What a proper directory has under a name is proper. -/
theorem FileTree.IsProper.of_child? {tree child : FileTree} {name : Text} (h : tree.IsProper)
    (hchild : tree.child? name = some child) : child.IsProper := by
  cases h with
  | file => cases hchild
  | directory entries _ _ trees =>
    obtain ⟨before, after, hentries, -⟩ := List.lookup_eq_some_iff.1 hchild
    exact trees (name, child) (by rw [show entries = _ from hentries]; simp)

/-- Under the name of an entry a directory has the entry. -/
theorem FileTree.child?_of_mem {entries : List (Text × FileTree)}
    (hnodup : (entries.map (·.1)).Nodup) {e : Text × FileTree} (he : e ∈ entries) :
    (FileTree.directory entries).child? e.1 = some e.2 := by
  obtain ⟨before, after, rfl⟩ := List.append_of_mem he
  refine List.lookup_eq_some_iff.2 ⟨before, after, rfl, fun p hp => ?_⟩
  rw [List.map_append, List.map_cons, List.nodup_append] at hnodup
  exact bne_iff_ne.2 (hnodup.2.2 _ (List.mem_map_of_mem hp) _ List.mem_cons_self).symm

/-- All that a place has below or above it is proper. -/
structure Place.IsProper (place : Place) : Prop where
  tree : place.tree.IsProper
  above : ∀ e ∈ place.above, e.2.IsProper

/-- Steps lead from proper places to proper places. -/
theorem Place.IsProper.step? {place next : Place} {c : PathComponent} (h : place.IsProper)
    (hstep : place.step? c = some next) : next.IsProper := by
  cases c with
  | root => cases hstep
  | current =>
    rw [Place.step?] at hstep
    split at hstep
    · exact Option.some.inj hstep ▸ h
    · cases hstep
  | parent =>
    rw [Place.step?] at hstep
    split at hstep
    case h_1 name tree above htree habove =>
      obtain rfl := Option.some.inj hstep
      have hall := h.above
      rw [habove] at hall
      exact ⟨hall (name, tree) List.mem_cons_self, fun e he => hall e (List.mem_cons_of_mem _ he)⟩
    case h_2 => cases hstep
  | name name =>
    obtain ⟨child, hchild, rfl⟩ := Option.map_eq_some_iff.1 hstep
    exact ⟨h.tree.of_child? hchild, List.forall_mem_cons.2 ⟨h.tree, h.above⟩⟩

theorem Place.IsProper.foldlM_step? {place next : Place} {cs : List PathComponent}
    (h : place.IsProper) (hsteps : cs.foldlM Place.step? place = some next) : next.IsProper := by
  induction cs generalizing place with
  | nil => exact Option.some.inj hsteps ▸ h
  | cons c cs ih =>
    obtain ⟨mid, hmid, hrest⟩ := Option.bind_eq_some_iff.1 hsteps
    exact ih (h.step? hmid) hrest

/-- The file system that is seen from a place, where a leading slash leads nowhere. -/
def Place.fileSystem (place : Place) (h : place.IsProper) : FileSystem where
  follow? cs := cs.foldlM Place.step? place
  follow?_name cs name := by
    rw [List.foldlM_append]
    cases cs.foldlM Place.step? place with
    | none => rfl
    | some next => cases hstep : next.step? (.name name) <;> simp [hstep]
  isProper hnext := (h.foldlM_step? hnext).tree

/-- The file system that is seen from the top of a tree. -/
def FileTree.fileSystem (tree : FileTree) (h : tree.IsProper) : FileSystem :=
  Place.fileSystem ⟨tree, []⟩ ⟨h, by simp⟩

/-- From the top of a tree paths lead where they lead in the tree. -/
theorem FileTree.find?_fileSystem (tree : FileTree) (h : tree.IsProper) :
    (tree.fileSystem h).find? = tree.find? := rfl

end CodeProse

/-
# Files are listed once

Of the files that given paths stand for, those with the same components are listed once, as the
first one is written (`find?_collect`); and the list is in order, whatever the order of the given
paths is and however often they are given. Still a file is listed twice if it is given in two
spellings, as with `a.js` and `./a.js` (`not_listsOnce_of_two_spellings`). Just that is to be
excluded: each file is listed once if, of any two given paths with a file in common, one goes on from
the other by names (`listsOnce_iff`).

All of this rests on where the files come from: a file is given, or names lead down to it from a
directory that is given (`leadsToFile_of_mem_filesAt`). So, as far as paths are names, the components
of a file tell where it is.
-/
import CodeProse.Proofs.FileSystem
import CodeProse.Source.Files
import Mathlib.Data.List.Nodup

namespace CodeProse.Source

open CodeProse.Path (components IsName)

/-! ## Files below a directory -/

/-- From a place, to which a path leads, names lead down to a file. -/
structure LeadsToFile (fs : FileSystem) (path : Text) (place : Place) (names : List Text)
    (f : Text) : Prop where
  isName : ∀ name ∈ names, IsName name
  eq_below : f = Path.below path names
  file : ∃ file, fs.find? f = some file ∧ file.tree.isDirectory = false ∧
    file.names = place.names ++ names

variable {fs : FileSystem}

/-- What is led to from an entry of a directory is led to from the directory. -/
theorem LeadsToFile.of_entry {dir name f : Text} {place : Place} {tree : FileTree}
    {names : List Text} (hname : IsName name)
    (h : LeadsToFile fs (Path.append dir name) ⟨tree, (name, place.tree) :: place.above⟩ names f) :
    LeadsToFile fs dir place (name :: names) f := by
  obtain ⟨file, hfile, hleaf, hplace⟩ := h.file
  refine ⟨List.forall_mem_cons.2 ⟨hname, h.isName⟩, h.eq_below, file, hfile, hleaf, ?_⟩
  rw [hplace, Place.names_mk_cons, List.append_assoc]
  rfl

/-- A file that a path leads to is led to by no names. -/
theorem leadsToFile_self {path : Text} {content : FileContent} {above : List (Text × FileTree)}
    (h : fs.find? path = some ⟨.file content, above⟩) :
    LeadsToFile fs path ⟨.file content, above⟩ [] path :=
  ⟨nofun, rfl, _, h, rfl, (List.append_nil _).symm⟩

/-- The components of a path that leads down from another one. -/
theorem LeadsToFile.components_eq {path f : Text} {place : Place} {names : List Text}
    (hpath : fs.find? path = some place) (h : LeadsToFile fs path place names f) :
    components f = components path ++ names.map .name := by
  have hne : path ≠ [] := ((FileSystem.find?_eq_some_iff _ _).1 hpath).1
  rw [h.eq_below, Path.components_below hne h.isName]

mutual

/-- Names lead to the files of a tree. -/
theorem leadsToFile_of_mem_filesOf {levels : List IgnoreLevel} {path f : Text}
    {above : List (Text × FileTree)} :
    ∀ {tree : FileTree}, fs.find? path = some ⟨tree, above⟩ → f ∈ filesOf levels path tree →
      ∃ names, LeadsToFile fs path ⟨tree, above⟩ names f
  | .file content, hpath, hf => by
    rw [filesOf, List.mem_singleton] at hf
    subst hf
    exact ⟨[], leadsToFile_self hpath⟩
  | .directory entries, hpath, hf => by
    rw [filesOf] at hf
    cases fs.isProper ((FileSystem.find?_eq_some_iff _ _).1 hpath).2.1 with
    | directory _ nodup isName _ =>
      exact leadsToFile_of_mem_filesIn hpath
        (fun e he => ⟨isName e he, FileTree.child?_of_mem nodup he⟩) hf

/-- Names lead to the files of entries of a directory. -/
theorem leadsToFile_of_mem_filesIn {levels : List IgnoreLevel} {dir f : Text} {place : Place} :
    ∀ {entries : List (Text × FileTree)}, fs.find? dir = some place →
      (∀ e ∈ entries, IsName e.1 ∧ place.tree.child? e.1 = some e.2) →
      f ∈ filesIn levels dir entries → ∃ names, LeadsToFile fs dir place names f
  | [], _, _, hf => by cases hf
  | (name, tree) :: rest, hdir, hentries, hf => by
    obtain ⟨⟨hname, hchild⟩, hrest⟩ := List.forall_mem_cons.1 hentries
    rw [filesIn, List.mem_append] at hf
    rcases hf with hf | hf
    · split at hf
      · cases hf
      · obtain ⟨names, h⟩ :=
          leadsToFile_of_mem_filesOf (FileSystem.find?_append hname hdir hchild) hf
        exact ⟨name :: names, h.of_entry hname⟩
    · exact leadsToFile_of_mem_filesIn hdir hrest hf

end

/-- Names lead to the files that a path stands for. -/
theorem leadsToFile_of_mem_filesAt {path f : Text} (hf : f ∈ filesAt path (fs.find? path)) :
    ∃ place names, fs.find? path = some place ∧ LeadsToFile fs path place names f := by
  cases hpath : fs.find? path with
  | none => rw [hpath] at hf; cases hf
  | some place =>
    obtain ⟨tree, above⟩ := place
    rw [hpath] at hf
    cases tree with
    | file content =>
      -- a file that is given is listed whatever it is
      rw [filesAt, List.mem_singleton] at hf
      subst hf
      exact ⟨_, [], rfl, leadsToFile_self hpath⟩
    | directory entries =>
      rw [filesAt, List.mem_filter] at hf
      · obtain ⟨names, h⟩ := leadsToFile_of_mem_filesOf hpath hf.1
        exact ⟨_, names, rfl, h⟩
      · exact nofun

theorem map_name_injective : Function.Injective (List.map PathComponent.name) :=
  List.map_injective_iff.2 fun _ _ => PathComponent.name.inj

/-- The files that a path stands for are known by their components. -/
theorem eq_of_mem_filesAt {path f g : Text} (hf : f ∈ filesAt path (fs.find? path))
    (hg : g ∈ filesAt path (fs.find? path)) (h : components f = components g) : f = g := by
  obtain ⟨place, names, hpath, hleads⟩ := leadsToFile_of_mem_filesAt hf
  obtain ⟨place', names', hpath', hleads'⟩ := leadsToFile_of_mem_filesAt hg
  rw [hleads.components_eq hpath, hleads'.components_eq hpath', List.append_cancel_left_eq] at h
  obtain rfl : names = names' := map_name_injective h
  rw [hleads.eq_below, hleads'.eq_below]

/-! ## The list -/

/-- The files that paths stand for, path by path. -/
def listed (find? : Text → Option Place) (paths : List Text) : List Text :=
  paths.flatMap fun path => filesAt path (find? path)

theorem mem_listed {find? : Text → Option Place} {paths : List Text} {f : Text} :
    f ∈ listed find? paths ↔ ∃ path ∈ paths, f ∈ filesAt path (find? path) :=
  List.mem_flatMap

theorem dropRepeats_sublist (files : List Text) : (dropRepeats files).Sublist files := by
  fun_induction dropRepeats files with
  | case1 a b rest _ ih => exact ih.trans (((List.sublist_cons_self b rest)).cons_cons a)
  | case2 a b rest _ ih => exact ih.cons_cons a
  | case3 files => exact List.Sublist.refl files

/-- Of the files with some components the first one is left. -/
theorem find?_dropRepeats (files : List Text) (cs : List PathComponent) :
    ((dropRepeats files).find? fun f => components f = cs)
      = files.find? fun f => components f = cs := by
  fun_induction dropRepeats files with
  | case1 a b rest heq ih =>
    rw [ih, List.find?_cons, List.find?_cons, List.find?_cons, ← heq]
    cases decide (components a = cs) <;> rfl
  | case2 a b rest _ ih => rw [List.find?_cons, ih, List.find?_cons (a := a)]
  | case3 => rfl

/-- Files are in order, and no two have the same components. -/
def Ascending (files : List Text) : Prop :=
  files.Pairwise fun f g => Path.le f g = true ∧ components f ≠ components g

/-- What is left of files in order is ascending. -/
theorem ascending_dropRepeats {files : List Text}
    (h : files.Pairwise fun f g => Path.le f g = true) : Ascending (dropRepeats files) := by
  fun_induction dropRepeats files with
  | case1 a b rest _ ih => exact ih (h.sublist ((List.sublist_cons_self b rest).cons_cons a))
  | case2 a b rest hne ih =>
    obtain ⟨ha, hrest⟩ := List.pairwise_cons.1 h
    refine List.pairwise_cons.2 ⟨fun g hg => ?_, ih hrest⟩
    have hmem := (dropRepeats_sublist _).subset hg
    refine ⟨ha g hmem, fun heq => hne ?_⟩
    -- what stands between files with the same components has these components too
    have hbg : Path.le b g = true := by
      rcases List.mem_cons.1 hmem with rfl | hmem
      · exact Path.le_of_components_eq rfl
      · exact (List.pairwise_cons.1 hrest).1 g hmem
    exact Path.components_eq_of_le_of_le (ha b List.mem_cons_self)
      (Path.le_trans b g a hbg (Path.le_of_components_eq heq.symm))
  | case3 files hshort =>
    match files with
    | [] => exact .nil
    | [a] => exact List.pairwise_singleton _ a
    | a :: b :: rest => exact (hshort a b rest rfl).elim

/-- Sorting keeps the order of the files with some components. -/
theorem filter_mergeSort (files : List Text) (cs : List PathComponent) :
    ((files.mergeSort Path.le).filter fun f => components f = cs)
      = files.filter fun f => components f = cs := by
  have hsame : (files.filter fun f => components f = cs).Pairwise fun f g => Path.le f g = true := by
    refine List.pairwise_of_forall_mem_list fun f hf g hg => Path.le_of_components_eq ?_
    rw [List.mem_filter, decide_eq_true_eq] at hf hg
    rw [hf.2, hg.2]
  have hsublist := (List.sublist_mergeSort Path.le_trans Path.le_total hsame
    List.filter_sublist).filter fun f => components f = cs
  rw [List.filter_filter] at hsublist
  simp only [Bool.and_self] at hsublist
  exact (hsublist.eq_of_length
    ((List.mergeSort_perm files Path.le).filter _).length_eq.symm).symm

/-- **Of the files with some components the first one is listed.** -/
theorem find?_collect (find? : Text → Option Place) (paths : List Text) (cs : List PathComponent) :
    ((collect find? paths).find? fun f => components f = cs)
      = (listed find? paths).find? fun f => components f = cs := by
  rw [collect, find?_dropRepeats, ← List.head?_filter, ← List.head?_filter, filter_mergeSort]
  rfl

theorem ascending_collect (find? : Text → Option Place) (paths : List Text) :
    Ascending (collect find? paths) :=
  ascending_dropRepeats (List.pairwise_mergeSort Path.le_trans Path.le_total _)

theorem mem_listed_of_mem_collect {find? : Text → Option Place} {paths : List Text} {f : Text}
    (h : f ∈ collect find? paths) : f ∈ listed find? paths :=
  List.mem_mergeSort.1 ((dropRepeats_sublist _).subset h)

/-- The components of the files in the list are those of the files that the paths stand for. -/
theorem mem_map_components_collect {find? : Text → Option Place} {paths : List Text}
    {cs : List PathComponent} :
    cs ∈ (collect find? paths).map components ↔ ∃ f ∈ listed find? paths, components f = cs := by
  rw [List.mem_map]
  constructor
  · rintro ⟨f, hf, hcs⟩
    exact ⟨f, mem_listed_of_mem_collect hf, hcs⟩
  · rintro ⟨f, hf, hcs⟩
    have hsome : ((listed find? paths).find? fun f => components f = cs).isSome = true :=
      List.find?_isSome.2 ⟨f, hf, by simpa using hcs⟩
    rw [← find?_collect] at hsome
    obtain ⟨g, hg, hgcs⟩ := List.find?_isSome.1 hsome
    exact ⟨g, hg, by simpa using hgcs⟩

/-! ## The order of the given paths -/

/-- Ascending lists are the same, component by component, if they have the same components. -/
theorem map_components_eq {files others : List Text} (h : Ascending files) (h' : Ascending others)
    (hmem : ∀ cs, cs ∈ files.map components ↔ cs ∈ others.map components) :
    files.map components = others.map components := by
  have hstrict : ∀ {l : List Text}, Ascending l → (l.map components).Pairwise fun a b =>
      (Path.compareComponents a b).isLE = true ∧ a ≠ b := by
    intro l hl
    exact List.pairwise_map.2 (hl.imp fun {f g} hfg => ⟨(Path.le_iff f g).1 hfg.1, hfg.2⟩)
  have hnodup : ∀ {l : List Text}, Ascending l → (l.map components).Nodup := by
    intro l hl
    exact (hstrict hl).imp And.right
  refine List.Perm.eq_of_pairwise (fun a b _ _ hab hba => ?_) (hstrict h) (hstrict h')
    ((List.perm_ext_iff_of_nodup (hnodup h) (hnodup h')).2 hmem)
  exact Std.LawfulEqCmp.eq_of_compare (Std.OrientedCmp.isLE_antisymm hab.1 hba.1)

theorem mem_listed_congr {find? : Text → Option Place} {paths others : List Text}
    (h : ∀ path, path ∈ others ↔ path ∈ paths) (f : Text) :
    f ∈ listed find? others ↔ f ∈ listed find? paths := by
  simp only [mem_listed, h]

/-- The components of the files in the list depend neither on the order of the given paths nor on
how often they are given. -/
theorem map_components_collect_congr (find? : Text → Option Place) {paths others : List Text}
    (h : ∀ path, path ∈ others ↔ path ∈ paths) :
    (collect find? others).map components = (collect find? paths).map components := by
  refine map_components_eq (ascending_collect find? others) (ascending_collect find? paths) ?_
  intro cs
  simp only [mem_map_components_collect, mem_listed_congr h]

/-- Lists with the same components are the same, if no files are written in two ways. -/
theorem eq_of_map_components_eq {files others : List Text}
    (h : files.map components = others.map components)
    (hsame : ∀ f ∈ files, ∀ g ∈ others, components f = components g → f = g) : files = others := by
  induction files generalizing others with
  | nil => exact (List.map_eq_nil_iff.1 h.symm).symm
  | cons f files ih =>
    cases others with
    | nil => cases h
    | cons g others =>
      obtain ⟨hfirst, hrest⟩ := List.cons.inj h
      rw [hsame f List.mem_cons_self g List.mem_cons_self hfirst, ih hrest fun x hx y hy =>
        hsame x (List.mem_cons_of_mem f hx) y (List.mem_cons_of_mem g hy)]

/-- A file of the path that is given first is listed as it is written there. -/
theorem find?_collect_cons {path f : Text} (paths : List Text)
    (hf : f ∈ filesAt path (fs.find? path)) :
    ((collect fs.find? (path :: paths)).find? fun g => components g = components f) = some f := by
  have hsome : ((filesAt path (fs.find? path)).find? fun g => components g = components f).isSome :=
    List.find?_isSome.2 ⟨f, hf, by simp⟩
  obtain ⟨g, hg⟩ := Option.isSome_iff_exists.1 hsome
  have hcomponents : components g = components f := by simpa using List.find?_some hg
  obtain rfl : g = f := eq_of_mem_filesAt (List.mem_of_find?_eq_some hg) hf hcomponents
  rw [find?_collect, listed, List.flatMap_cons, List.find?_append, hg]
  rfl

/-- The list is the same whatever the order of the given paths, exactly if no files with the same
components are written in two ways. -/
theorem collect_congr_iff (fs : FileSystem) (paths : List Text) :
    (∀ others, (∀ path, path ∈ others ↔ path ∈ paths) →
        collect fs.find? others = collect fs.find? paths) ↔
      ∀ f ∈ listed fs.find? paths, ∀ g ∈ listed fs.find? paths,
        components f = components g → f = g := by
  constructor
  · intro h f hf g hg hcomponents
    obtain ⟨p, hp, hfp⟩ := mem_listed.1 hf
    obtain ⟨q, hq, hgq⟩ := mem_listed.1 hg
    have hrepeat : ∀ p ∈ paths, ∀ path, path ∈ p :: paths ↔ path ∈ paths := by
      intro p hp path
      rw [List.mem_cons, or_iff_right_of_imp]
      rintro rfl
      exact hp
    -- each of them is listed if the path that it comes from is given once more, in front
    have hfirst := find?_collect_cons paths hfp
    have hsecond := find?_collect_cons paths hgq
    rw [h _ (hrepeat p hp)] at hfirst
    rw [h _ (hrepeat q hq), ← hcomponents, hfirst] at hsecond
    exact Option.some.inj hsecond
  · intro h others hothers
    refine eq_of_map_components_eq (map_components_collect_congr fs.find? hothers) ?_
    intro f hf g hg
    exact h f ((mem_listed_congr hothers f).1 (mem_listed_of_mem_collect hf)) g
      (mem_listed_of_mem_collect hg)

/-! ## Files in common -/

/-- Two paths stand for a file at the same place. -/
def ShareFile (fs : FileSystem) (p q : Text) : Prop :=
  ∃ f ∈ filesAt p (fs.find? p), ∃ g ∈ filesAt q (fs.find? q), fs.find? f = fs.find? g

/-- One path goes on from another one by names. -/
def GoesOnFrom (p q : Text) : Prop :=
  ∃ names : List Text, components q = components p ++ names.map .name

/-- Paths that stand for files with the same components go on from one another. -/
theorem goesOnFrom_of_components_eq {p q f g : Text} (hf : f ∈ filesAt p (fs.find? p))
    (hg : g ∈ filesAt q (fs.find? q)) (h : components f = components g) :
    GoesOnFrom p q ∨ GoesOnFrom q p := by
  obtain ⟨place, names, hp, hleads⟩ := leadsToFile_of_mem_filesAt hf
  obtain ⟨place', names', hq, hleads'⟩ := leadsToFile_of_mem_filesAt hg
  rw [hleads.components_eq hp, hleads'.components_eq hq] at h
  rcases List.append_eq_append_iff.1 h with ⟨mid, hmid, hnames⟩ | ⟨mid, hmid, hnames⟩
  · obtain ⟨more, rest, -, rfl, -⟩ := List.map_eq_append_iff.1 hnames
    exact .inl ⟨more, hmid⟩
  · obtain ⟨more, rest, -, rfl, -⟩ := List.map_eq_append_iff.1 hnames
    exact .inr ⟨more, hmid⟩

/-- From the place that a path begins with, as far as names follow, names lead to its files. -/
theorem exists_names_of_mem_filesAt {p f : Text} {beginning : List PathComponent}
    {more : List Text} (hp : components p = beginning ++ more.map .name)
    (hf : f ∈ filesAt p (fs.find? p)) :
    ∃ start names file, fs.follow? beginning = some start ∧ fs.find? f = some file ∧
      components f = beginning ++ names.map .name ∧ file.names = start.names ++ names := by
  obtain ⟨place, names, hfind, hleads⟩ := leadsToFile_of_mem_filesAt hf
  obtain ⟨file, hfile, -, hnames⟩ := hleads.file
  have hfollow := ((FileSystem.find?_eq_some_iff _ _).1 hfind).2.1
  rw [hp] at hfollow
  obtain ⟨start, hstart, hplace⟩ := FileSystem.exists_follow?_of_names hfollow
  refine ⟨start, more ++ names, file, hstart, hfile, ?_, ?_⟩
  · rw [hleads.components_eq hfind, hp, List.map_append, List.append_assoc]
  · rw [hnames, hplace, List.append_assoc]

/-- **Files at the same place have the same components,** if the paths that they come from go on by
names from the same beginning. -/
theorem components_eq_of_beginning {p q f g : Text} {beginning : List PathComponent}
    {more more' : List Text} (hp : components p = beginning ++ more.map .name)
    (hq : components q = beginning ++ more'.map .name) (hf : f ∈ filesAt p (fs.find? p))
    (hg : g ∈ filesAt q (fs.find? q)) (h : fs.find? f = fs.find? g) :
    components f = components g := by
  obtain ⟨start, names, file, hstart, hfile, hcomponents, hnames⟩ :=
    exists_names_of_mem_filesAt hp hf
  obtain ⟨start', names', file', hstart', hfile', hcomponents', hnames'⟩ :=
    exists_names_of_mem_filesAt hq hg
  obtain rfl : start = start' := Option.some.inj (hstart.symm.trans hstart')
  obtain rfl : file = file' := Option.some.inj (hfile.symm.trans (h.trans hfile'))
  rw [hcomponents, hcomponents', List.append_cancel_left (hnames.symm.trans hnames')]

theorem components_eq_of_goesOnFrom {p q f g : Text} (h : GoesOnFrom p q)
    (hf : f ∈ filesAt p (fs.find? p)) (hg : g ∈ filesAt q (fs.find? q))
    (hplace : fs.find? f = fs.find? g) : components f = components g := by
  obtain ⟨more, hmore⟩ := h
  have hself : components p = components p ++ List.map .name [] := (List.append_nil _).symm
  exact components_eq_of_beginning hself hmore hf hg hplace

/-- A path that is listed leads to a file. -/
theorem exists_file_of_mem_listed {paths : List Text} {f : Text} (hf : f ∈ listed fs.find? paths) :
    ∃ file, fs.find? f = some file ∧ file.tree.isDirectory = false := by
  obtain ⟨p, -, hfp⟩ := mem_listed.1 hf
  obtain ⟨place, names, -, hleads⟩ := leadsToFile_of_mem_filesAt hfp
  obtain ⟨file, hfile, hleaf, -⟩ := hleads.file
  exact ⟨file, hfile, hleaf⟩

/-- Files with the same components are at the same place. -/
theorem find?_eq_of_components_eq {paths : List Text} {f g : Text}
    (hf : f ∈ listed fs.find? paths) (hg : g ∈ listed fs.find? paths)
    (h : components f = components g) : fs.find? f = fs.find? g := by
  obtain ⟨file, hfile, -⟩ := exists_file_of_mem_listed hf
  obtain ⟨file', hfile', -⟩ := exists_file_of_mem_listed hg
  rw [hfile, hfile', FileSystem.place_eq h hfile hfile']

/-- **No file is listed twice exactly if given paths with a file in common go on from one another.**
-/
theorem apart_collect_iff (fs : FileSystem) (paths : List Text) :
    ((collect fs.find? paths).Pairwise fun f g => fs.find? f ≠ fs.find? g) ↔
      ∀ p ∈ paths, ∀ q ∈ paths, ShareFile fs p q → GoesOnFrom p q ∨ GoesOnFrom q p := by
  constructor
  · rintro h p hp q hq ⟨f, hf, g, hg, hplace⟩
    have hlisted : f ∈ listed fs.find? paths := mem_listed.2 ⟨p, hp, hf⟩
    have hlisted' : g ∈ listed fs.find? paths := mem_listed.2 ⟨q, hq, hg⟩
    -- entries stand for both files, and they are one entry
    obtain ⟨f', hf', hff'⟩ := List.mem_map.1 (mem_map_components_collect.2 ⟨f, hlisted, rfl⟩)
    obtain ⟨g', hg', hgg'⟩ := List.mem_map.1 (mem_map_components_collect.2 ⟨g, hlisted', rfl⟩)
    have hsame : fs.find? f' = fs.find? g' := by
      rw [find?_eq_of_components_eq (mem_listed_of_mem_collect hf') hlisted hff', hplace,
        find?_eq_of_components_eq (mem_listed_of_mem_collect hg') hlisted' hgg']
    rw [List.inj_on_of_nodup_map (List.pairwise_map.2 h) hf' hg' hsame, hgg'] at hff'
    exact goesOnFrom_of_components_eq hf hg hff'.symm
  · intro h
    refine (ascending_collect fs.find? paths).imp_of_mem fun {f g} hf hg hfg hplace => hfg.2 ?_
    obtain ⟨p, hp, hfp⟩ := mem_listed.1 (mem_listed_of_mem_collect hf)
    obtain ⟨q, hq, hgq⟩ := mem_listed.1 (mem_listed_of_mem_collect hg)
    rcases h p hp q hq ⟨f, hfp, g, hgq, hplace⟩ with hpq | hqp
    · exact components_eq_of_goesOnFrom hpq hfp hgq hplace
    · exact (components_eq_of_goesOnFrom hqp hgq hfp hplace.symm).symm

/-! ## Once only -/

/-- The files that paths stand for are listed in order, whatever the order of the paths. -/
structure ListsInOrder (fs : FileSystem) (paths : List Text) : Prop where
  /-- Each entry leads to a file. -/
  file : ∀ f ∈ collect fs.find? paths,
    ∃ place, fs.find? f = some place ∧ place.tree.isDirectory = false
  /-- The entries are in order, and no two of them have the same components. -/
  ascending : Ascending (collect fs.find? paths)
  /-- Component by component, they depend neither on the order of the given paths nor on how often
  they are given. -/
  settled : ∀ others, (∀ path, path ∈ others ↔ path ∈ paths) →
    (collect fs.find? others).map components = (collect fs.find? paths).map components

/-- The files that paths stand for are listed in order, and each of them once. -/
structure ListsOnce (fs : FileSystem) (paths : List Text) : Prop
    extends ListsInOrder fs paths where
  /-- No two entries lead to the same file. -/
  apart : (collect fs.find? paths).Pairwise fun f g => fs.find? f ≠ fs.find? g

theorem listsInOrder (fs : FileSystem) (paths : List Text) : ListsInOrder fs paths where
  file _ hf := exists_file_of_mem_listed (mem_listed_of_mem_collect hf)
  ascending := ascending_collect fs.find? paths
  settled _ := map_components_collect_congr fs.find?

theorem listsOnce_of_goesOnFrom {paths : List Text}
    (h : ∀ p ∈ paths, ∀ q ∈ paths, ShareFile fs p q → GoesOnFrom p q ∨ GoesOnFrom q p) :
    ListsOnce fs paths :=
  ⟨listsInOrder fs paths, (apart_collect_iff fs paths).2 h⟩

/-- **When files are listed once.**  The list is always in order, whatever the order of the given
paths. No file is in it twice exactly if, of any two given paths with a file in common, one goes on
from the other by names; as they do if all of them go on by names from one beginning. The entries are
even written in the same way, whatever the order of the given paths, exactly if no two files are
written differently with the same components. -/
theorem listsOnce_iff (fs : FileSystem) (paths : List Text) :
    ListsInOrder fs paths ∧
    (ListsOnce fs paths ↔
      ∀ p ∈ paths, ∀ q ∈ paths, ShareFile fs p q → GoesOnFrom p q ∨ GoesOnFrom q p) ∧
    ((∃ beginning, ∀ p ∈ paths, ∃ names : List Text, components p = beginning ++ names.map .name) →
      ListsOnce fs paths) ∧
    ((∀ others, (∀ path, path ∈ others ↔ path ∈ paths) →
        collect fs.find? others = collect fs.find? paths) ↔
      ∀ f ∈ listed fs.find? paths, ∀ g ∈ listed fs.find? paths,
        components f = components g → f = g) := by
  refine ⟨listsInOrder fs paths, ⟨fun h => ?_, listsOnce_of_goesOnFrom⟩, ?_,
    collect_congr_iff fs paths⟩
  · exact (apart_collect_iff fs paths).1 h.apart
  · rintro ⟨beginning, h⟩
    refine listsOnce_of_goesOnFrom ?_
    rintro p hp q hq ⟨f, hf, g, hg, hplace⟩
    obtain ⟨more, hmore⟩ := h p hp
    obtain ⟨more', hmore'⟩ := h q hq
    have hcomponents : components f = components g :=
      components_eq_of_beginning hmore hmore' hf hg hplace
    exact goesOnFrom_of_components_eq hf hg hcomponents

/-! ## Two spellings of one file -/

/-- A directory with one file in it. -/
def oneFile : FileTree :=
  .directory [("a.js".toList, .file (.text []))]

theorem isProper_oneFile : oneFile.IsProper := by
  refine .directory _ (by simp) ?_ ?_
  · intro e he
    rw [List.mem_singleton.1 he]
    exact ⟨by decide, by decide, by decide, by decide⟩
  · intro e he
    rw [List.mem_singleton.1 he]
    exact .file _

/-- A file is listed twice if it is given in two spellings. -/
theorem not_listsOnce_of_two_spellings :
    ¬ ListsOnce (oneFile.fileSystem isProper_oneFile) ["a.js".toList, "./a.js".toList] := by
  intro h
  have hplain : "a.js".toList ∈ filesAt "a.js".toList (oneFile.find? "a.js".toList) := by decide
  have hdotted : "./a.js".toList ∈ filesAt "./a.js".toList (oneFile.find? "./a.js".toList) := by
    decide
  have hshare : ShareFile (oneFile.fileSystem isProper_oneFile) "a.js".toList "./a.js".toList := by
    rw [ShareFile, FileTree.find?_fileSystem]
    exact ⟨_, hplain, _, hdotted, rfl⟩
  have hcomponents : components "a.js".toList = [.name "a.js".toList] := by decide
  have hcomponents' : components "./a.js".toList = [.current, .name "a.js".toList] := by decide
  rcases (apart_collect_iff _ _).1 h.apart _ List.mem_cons_self _ (by simp) hshare with
    ⟨names, hnames⟩ | ⟨names, hnames⟩
  · rw [hcomponents, hcomponents'] at hnames
    cases hnames
  · rw [hcomponents, hcomponents'] at hnames
    cases hnames

end CodeProse.Source

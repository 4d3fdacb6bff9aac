/-
# Fixing a file unit by unit

The reports of a file are those of its nodes, each shifted to where its node stands. Applying the
fixes of all of them from the end of the file backwards comes to applying the fixes of each node to
the text of the node (`applyEach_units`): the nodes are laid in the file one behind the other, so
the fixes of different nodes sort apart, and no fix reaches out of its node.
-/
import CodeProse.Checker
import CodeProse.Proofs.Source.Layout
import CodeProse.Proofs.Widening
import Mathlib.Algebra.GroupWithZero.Nat

namespace CodeProse

open Correction Source

/-! ## Shifted fixes -/

/-- What is finished of a draft does not matter to what fixes do. -/
theorem applyEach_append_after (before after more : Text) (fixes : List Fix) :
    applyEach ⟨before, after ++ more⟩ fixes
      = (⟨(applyEach ⟨before, after⟩ fixes).1.before,
          (applyEach ⟨before, after⟩ fixes).1.after ++ more⟩,
          (applyEach ⟨before, after⟩ fixes).2) := by
  induction fixes generalizing before after with
  | nil => rfl
  | cons f rest ih =>
    cases hd : (⟨before, after⟩ : Draft).replace? f.start f.stop f.text with
    | none =>
      have hmore : (⟨before, after ++ more⟩ : Draft).replace? f.start f.stop f.text = none := by
        rw [Draft.replace?, Option.map_eq_none_iff] at hd ⊢
        exact hd
      rw [applyEach_cons_of_none _ hd, applyEach_cons_of_none _ hmore, ih]
    | some d =>
      obtain ⟨left, gone, right, hb, hl, hg, rfl⟩ := (Draft.replace?_eq_some_iff _ _ _ _ _).1 hd
      have hmore : (⟨before, after ++ more⟩ : Draft).replace? f.start f.stop f.text
          = some ⟨left, f.text ++ right ++ after ++ more⟩ :=
        (Draft.replace?_eq_some_iff _ _ _ _ _).2 ⟨left, gone, right, hb, hl, hg, by simp⟩
      rw [applyEach_cons_of_some _ hd, applyEach_cons_of_some _ hmore, ih]

/-- A fix of a unit does to the file what it does to the unit, as long as it cannot reach into what
follows the unit. -/
theorem replace?_shift (lead value trail after : Text) (f : Fix)
    (h : trail = [] ∨ f.stop ≤ value.byteLength) :
    (⟨lead ++ value ++ trail, after⟩ : Draft).replace? (f.shift lead.byteLength).start
        (f.shift lead.byteLength).stop (f.shift lead.byteLength).text
      = ((⟨value, trail ++ after⟩ : Draft).replace? f.start f.stop f.text).map
          fun d => ⟨lead ++ d.before, d.after⟩ := by
  ext d
  rw [Option.map_eq_some_iff, Draft.replace?_eq_some_iff]
  simp only [Draft.replace?_eq_some_iff, Fix.shift]
  constructor
  · rintro ⟨left, gone, right, hb, hl, hg, rfl⟩
    -- the range starts behind the lead
    obtain ⟨left, rfl, hvalue⟩ := Text.append_split_of_le
      ((List.append_assoc ..).symm.trans (hb.trans (List.append_assoc ..))) (by omega)
    rw [Text.byteLength_append] at hl
    have hright : ∃ right', value = left ++ gone ++ right' ∧ right = right' ++ trail := by
      rcases h with rfl | hle
      · exact ⟨right, by simpa using hvalue, by simp⟩
      · refine Text.append_split_of_le ((List.append_assoc ..).trans hvalue.symm) ?_
        rw [Text.byteLength_append]
        omega
    obtain ⟨right', rfl, rfl⟩ := hright
    exact ⟨⟨left, f.text ++ right' ++ (trail ++ after)⟩,
      ⟨left, gone, right', rfl, by omega, by omega, rfl⟩, by simp⟩
  · rintro ⟨_, ⟨left, gone, right, rfl, hl, hg, rfl⟩, rfl⟩
    exact ⟨lead ++ left, gone, right ++ trail, by simp, by rw [Text.byteLength_append, hl],
      by omega, by simp⟩

/-- **Fixes of a unit do to the file what they do to the unit.** Up to the first fix that is made,
no fix may reach beyond the unit; after it, none can. -/
theorem applyEach_shift (lead value trail after : Text) (fixes : List Fix)
    (h : trail = [] ∨ ∀ f ∈ fixes, f.stop ≤ value.byteLength) :
    ∃ b a, applyEach ⟨lead ++ value ++ trail, after⟩ (fixes.map (Fix.shift lead.byteLength))
        = (⟨lead ++ b, a⟩, (applyEach (.ofText value) fixes).2) ∧
      b ++ a = (applyEach (.ofText value) fixes).1.text ++ trail ++ after := by
  -- what is finished behind the unit takes no part in its fixes
  suffices hgoal : ∃ b a,
      applyEach ⟨lead ++ value ++ trail, after⟩ (fixes.map (Fix.shift lead.byteLength))
        = (⟨lead ++ b, a⟩, (applyEach ⟨value, trail ++ after⟩ fixes).2) ∧
      b ++ a = (applyEach ⟨value, trail ++ after⟩ fixes).1.text by
    have hafter := applyEach_append_after value [] (trail ++ after) fixes
    rw [List.nil_append] at hafter
    rw [hafter] at hgoal
    simpa [Draft.ofText, Draft.text] using hgoal
  induction fixes generalizing value trail after with
  | nil => exact ⟨value ++ trail, after, by simp [applyEach], by simp [applyEach, Draft.text]⟩
  | cons f rest ih =>
    have hf : trail = [] ∨ f.stop ≤ value.byteLength := h.imp id fun h => h f List.mem_cons_self
    have hstep := replace?_shift lead value trail after f hf
    rw [List.map_cons]
    cases hd : (⟨value, trail ++ after⟩ : Draft).replace? f.start f.stop f.text with
    | none =>
      rw [hd, Option.map_none] at hstep
      rw [applyEach_cons_of_none _ hstep, applyEach_cons_of_none _ hd]
      exact ih value trail after (h.imp id fun h g hg => h g (List.mem_cons_of_mem f hg))
    | some d =>
      rw [hd, Option.map_some] at hstep
      rw [applyEach_cons_of_some _ hstep, applyEach_cons_of_some _ hd]
      obtain ⟨b, a, heq, htext⟩ := ih d.before [] d.after (.inl rfl)
      rw [List.append_nil, List.nil_append] at heq
      rw [List.nil_append] at htext
      exact ⟨b, a, by rw [heq], htext⟩

/-! ## Nodes with their fixes -/

/-- The order in which fixes are made. -/
def sorted (fixes : List Fix) : List Fix :=
  fixes.mergeSort fun a b => laterFirst (a.start, a.stop) (b.start, b.stop)

theorem mem_sorted_iff (fixes : List Fix) (f : Fix) : f ∈ sorted fixes ↔ f ∈ fixes :=
  List.mem_mergeSort

theorem sorted_map_shift (offset : Nat) (fixes : List Fix) :
    sorted (fixes.map (Fix.shift offset)) = (sorted fixes).map (Fix.shift offset) := by
  refine (List.map_mergeSort fun a _ b _ => ?_).symm
  rw [Bool.eq_iff_iff, laterFirst_iff, laterFirst_iff]
  simp only [Fix.shift]
  omega

/-- What the fixes of a node's own reports, whose offsets count from the start of its text, make of
the text, in place of the text. -/
def fixedRegion (u : Node × List Report) : Fix :=
  ⟨u.1.contentStart, u.1.contentStop, (applyFixes u.1.value u.2).1⟩

/-- The fixes of a node's own reports, in its file. -/
def fileFixes (u : Node × List Report) : List Fix :=
  (u.2.filterMap (·.fix)).map (Fix.shift u.1.contentStart)

/-- The fixes of the nodes of a file sort apart: those of the first node come last. -/
theorem sorted_fileFixes {u : Node × List Report} {us : List (Node × List Report)}
    (hfit : ∀ w ∈ u :: us, ∀ f ∈ w.2.filterMap (·.fix),
      f.start < f.stop ∧ f.stop ≤ w.1.value.byteLength)
    (hlater : ∀ w ∈ us, u.1.contentStop ≤ w.1.contentStart) :
    sorted ((u :: us).flatMap fileFixes)
      = sorted (us.flatMap fileFixes) ++ sorted (fileFixes u) := by
  rw [List.flatMap_cons, sorted, mergeSort_append_of_later
    (fun a b _ => laterFirst_trans (a.start, a.stop) (b.start, b.stop) _)
    (fun a b => laterFirst_total (a.start, a.stop) (b.start, b.stop))]
  · rfl
  · intro a ha b hb
    obtain ⟨f, hf, rfl⟩ := List.mem_map.1 ha
    obtain ⟨w, hw, hb⟩ := List.mem_flatMap.1 hb
    obtain ⟨g, hg, rfl⟩ := List.mem_map.1 hb
    obtain ⟨hlt, hle⟩ := hfit u List.mem_cons_self f hf
    have := hlater w hw
    rw [Bool.eq_false_iff, ne_eq, laterFirst_iff]
    simp only [Fix.shift, Node.contentStop] at *
    omega

/-- **The fixes of all nodes make of a file what the own fixes of each node make of its text.** -/
theorem applyEach_units {pre t : Text} {us : List (Node × List Report)}
    (hlaid : Laid pre.byteLength t [] (us.map (·.1)))
    (hfit : ∀ u ∈ us, ∀ f ∈ u.2.filterMap (·.fix),
      f.start < f.stop ∧ f.stop ≤ u.1.value.byteLength) :
    ∃ b a, applyEach ⟨pre ++ t, []⟩ (sorted (us.flatMap fileFixes))
        = (⟨pre ++ b, a⟩, (us.map fun u => (applyFixes u.1.value u.2).2).sum) ∧
      substituteFrom pre.byteLength (us.map fixedRegion) t = some (b ++ a) := by
  induction us generalizing pre t with
  | nil => exact ⟨t, [], by simp [sorted, applyEach], by simp⟩
  | cons u us ih =>
    simp only [List.map_cons] at hlaid
    obtain ⟨gap, opening, closing, post, rfl, hstart, hcontent, -, hrest⟩ := hlaid
    have hlead : (pre ++ gap ++ opening).byteLength = u.1.contentStart := by
      simp only [Text.byteLength_append]
      omega
    have hpre : (pre ++ gap ++ opening ++ u.1.value ++ closing).byteLength
        = u.1.contentStop + closing.byteLength := by
      rw [Text.byteLength_append, Text.byteLength_append, hlead, Node.contentStop]
    have hlater : ∀ w ∈ us, u.1.contentStop ≤ w.1.contentStart := by
      intro w hw
      have := hrest.bounds w.1 (List.mem_map_of_mem hw)
      omega
    rw [← hpre] at hrest
    -- the fixes of the later nodes are made first, and leave the text of this one untouched
    obtain ⟨b, a, heach, hsub⟩ := ih hrest fun w hw => hfit w (List.mem_cons_of_mem u hw)
    obtain ⟨b', a', hown, htext⟩ := applyEach_shift (pre ++ gap ++ opening) u.1.value
      (closing ++ b) a (sorted (u.2.filterMap (·.fix)))
      (.inr fun f hf => (hfit u List.mem_cons_self f ((mem_sorted_iff _ _).1 hf)).2)
    refine ⟨gap ++ opening ++ b', a', ?_, ?_⟩
    · have hsplit : pre ++ (gap ++ opening ++ u.1.value ++ closing ++ post)
          = pre ++ gap ++ opening ++ u.1.value ++ closing ++ post := by simp
      have hnext : pre ++ gap ++ opening ++ u.1.value ++ closing ++ b
          = pre ++ gap ++ opening ++ u.1.value ++ (closing ++ b) := by simp
      rw [sorted_fileFixes hfit hlater, applyEach_append, hsplit, heach]
      simp only
      rw [hnext, fileFixes, sorted_map_shift, ← hlead, hown]
      simp only [List.map_cons, List.sum_cons, applyFixes, List.append_assoc]
      rw [Nat.add_comm]
      rfl
    · rw [List.map_cons, substituteFrom_cons_eq_some_iff]
      refine ⟨gap ++ opening, u.1.value, closing ++ post, closing ++ (b ++ a), by simp, ?_, rfl,
        ?_, ?_⟩
      · rw [fixedRegion, ← hlead]
        simp only [Text.byteLength_append]
        omega
      · refine substituteFrom_append_left closing ?_
        rw [fixedRegion]
        simp only
        rw [← hpre]
        exact hsub
      · rw [List.append_assoc, htext]
        simp [fixedRegion, applyFixes, orderedFixes, sorted]

/-! ## Checking a file -/

namespace Checker

variable (load : Loader) (service : Option GrammarService) (s : Settings)

/-- The reports of a node, whose offsets count from the start of its text. -/
def ownReports (node : Node) (outcome : UnitOutcome) : List Report :=
  match outcome.result with
  | .ok c => nodeReports { node with contentStart := 0 } c
  | .error _ => []

/-- The nodes of a file, each with its own reports. A node that is not checked has none. -/
def checkEach : List Node → DictionaryCache → List (Node × List Report)
  | [], _ => []
  | node :: rest, cache =>
    if node.isCheckable then
      let (outcome, cache) := checkUnit load service s node.value node.kind cache
      (node, ownReports node outcome) :: checkEach rest cache
    else (node, []) :: checkEach rest cache

/-- Spelling has suggestions, but no replacements. -/
theorem replacement_of_mem_spelling {d : Dictionary} {t : Text} {i : Issue}
    (h : i ∈ Spelling.check s d t) : i.replacement = none := by
  obtain ⟨token, -, rfl⟩ := List.mem_map.1 h
  rfl

/-- A unit is reconciled unless its check fails, and all its replacements come from the style rules
or from the grammar service. -/
theorem checkUnit_result (t : Text) (kind : UnitKind) (cache : DictionaryCache) :
    (∃ e, (checkUnit load service s t kind cache).1.result = .error e) ∨
      ∃ issues, (checkUnit load service s t kind cache).1.result = .ok (reconcile t issues) ∧
        ∀ i ∈ issues, i.replacement.isSome = true → i ∈ styleIssues s t kind ∨
          ∃ found, (grammarIssues service s t kind).2 = .ok found ∧ i ∈ found := by
  unfold checkUnit
  split
  case isTrue => exact .inr ⟨[], rfl, by simp⟩
  split
  case h_1 => exact .inl ⟨_, rfl⟩
  case h_2 d cache' hget =>
    unfold checkWith
    simp only
    cases hfound : (grammarIssues service s t kind).2 with
    | error e => exact .inl ⟨_, rfl⟩
    | ok found =>
      refine .inr ⟨_, rfl, fun i hi hr => ?_⟩
      rw [List.mem_mergeSort, List.mem_append, List.mem_append] at hi
      rcases hi with (hi | hi) | hi
      · rw [replacement_of_mem_spelling s hi] at hr
        cases hr
      · exact .inl hi
      · exact .inr ⟨found, rfl, hi⟩

/-- The own reports of a node come from a reconciliation of its text, or there are none. -/
theorem ownReports_cases (node : Node) (cache : DictionaryCache) :
    let outcome := (checkUnit load service s node.value node.kind cache).1
    (∃ e, outcome.result = .error e) ∧ ownReports node outcome = [] ∨
      ∃ issues, outcome.result = .ok (reconcile node.value issues) ∧
        ownReports node outcome
          = (reconcile node.value issues).issues.map (Report.ofIssue node.value node.kind 0) ∧
        ∀ i ∈ issues, i.replacement.isSome = true → i ∈ styleIssues s node.value node.kind ∨
          ∃ found, (grammarIssues service s node.value node.kind).2 = .ok found ∧ i ∈ found := by
  rcases checkUnit_result load service s node.value node.kind cache with
    ⟨e, he⟩ | ⟨issues, hok, hissues⟩
  · exact .inl ⟨⟨e, he⟩, by rw [ownReports, he]⟩
  · exact .inr ⟨issues, hok, by rw [ownReports, hok]; rfl, hissues⟩

/-- The reports of the checked nodes have the fixes of the nodes' own reports, shifted. -/
theorem filterMap_fix_checkNodes (nodes : List Node) (cache : DictionaryCache) :
    (checkNodes load service s (nodes.filter (·.isCheckable)) cache).1.2.filterMap (·.fix)
      = (checkEach load service s nodes cache).flatMap fileFixes := by
  induction nodes generalizing cache with
  | nil => rfl
  | cons node rest ih =>
    rw [checkEach, List.filter_cons]
    split
    case isTrue =>
      rw [checkNodes, List.flatMap_cons]
      simp only [List.filterMap_append]
      rw [ih]
      congr 1
      rw [fileFixes]
      rcases ownReports_cases load service s node cache with
        ⟨⟨e, he⟩, hown⟩ | ⟨issues, hok, hown, -⟩
      · rw [hown, he]
        rfl
      · rw [hown, hok]
        simp only [nodeReports]
        rw [filterMap_fix_ofIssue, filterMap_fix_ofIssue, List.map_map]
        simp only [Function.comp_def, Fix.shift_zero]
    case isFalse =>
      rw [List.flatMap_cons, ih]
      rfl

theorem map_fst_checkEach (nodes : List Node) (cache : DictionaryCache) :
    (checkEach load service s nodes cache).map (·.1) = nodes := by
  induction nodes generalizing cache with
  | nil => rfl
  | cons node rest ih =>
    rw [checkEach]
    split
    · rw [List.map_cons, ih]
    · rw [List.map_cons, ih]

/-- The own reports of a node in a file: none, or those of a reconciliation of its text with the
replacements of the style rules and of the grammar service. -/
theorem mem_checkEach {nodes : List Node} {cache : DictionaryCache} {u : Node × List Report}
    (hu : u ∈ checkEach load service s nodes cache) :
    u.2 = [] ∨ u.1.isCheckable = true ∧ ∃ issues,
      u.2 = (reconcile u.1.value issues).issues.map (Report.ofIssue u.1.value u.1.kind 0) ∧
      ∀ i ∈ issues, i.replacement.isSome = true → i ∈ styleIssues s u.1.value u.1.kind ∨
        ∃ found, (grammarIssues service s u.1.value u.1.kind).2 = .ok found ∧ i ∈ found := by
  induction nodes generalizing cache with
  | nil => cases hu
  | cons node rest ih =>
    rw [checkEach] at hu
    split at hu
    case isTrue hcheck =>
      rcases List.mem_cons.1 hu with rfl | hu
      · rcases ownReports_cases load service s node cache with
          ⟨-, hown⟩ | ⟨issues, -, hown, hissues⟩
        · exact .inl hown
        · exact .inr ⟨hcheck, issues, hown, hissues⟩
      · exact ih hu
    case isFalse =>
      rcases List.mem_cons.1 hu with rfl | hu
      · exact .inl rfl
      · exact ih hu

/-- No fix of a node's own reports reaches out of the text of the node. -/
theorem fits_checkEach {nodes : List Node} {cache : DictionaryCache} {u : Node × List Report}
    (hu : u ∈ checkEach load service s nodes cache) {f : Fix} (hf : f ∈ u.2.filterMap (·.fix)) :
    f.start < f.stop ∧ f.stop ≤ u.1.value.byteLength := by
  rcases mem_checkEach load service s hu with hnone | ⟨-, issues, hown, -⟩
  · rw [hnone] at hf
    cases hf
  · rw [hown, filterMap_fix_reconcile] at hf
    obtain ⟨hlt, hslice⟩ := fits_widen_reconcile hf
    obtain ⟨gone, hslice⟩ := Option.isSome_iff_exists.1 hslice
    exact ⟨hlt, (Text.le_of_slice?_eq_some hslice).2⟩

/-- A fix of a node's own reports puts in the replacement of an issue of style or grammar. -/
theorem exists_issue_of_mem_fixes {nodes : List Node} {cache : DictionaryCache}
    {u : Node × List Report} (hu : u ∈ checkEach load service s nodes cache) {f : Fix}
    (hf : f ∈ u.2.filterMap (·.fix)) :
    ∃ i : Issue, i.replacement = some f.text ∧ (i ∈ styleIssues s u.1.value u.1.kind ∨
      ∃ found, (grammarIssues service s u.1.value u.1.kind).2 = .ok found ∧ i ∈ found) := by
  rcases mem_checkEach load service s hu with hnone | ⟨-, issues, hown, hissues⟩
  · rw [hnone] at hf
    cases hf
  · rw [hown, filterMap_fix_reconcile] at hf
    obtain ⟨g, hg, rfl⟩ := List.mem_map.1 hf
    obtain ⟨i, hi, -, -, hr⟩ := exists_issue_of_mem_replacements hg
    have hkept : i.replacement.isSome = true := by
      rw [hr]
      rfl
    exact ⟨i, by rw [Fix.text_widen, hr], hissues i hi hkept⟩

/-- Identifiers are not prose: their own reports have no fix. -/
theorem filterMap_fix_of_identifier {nodes : List Node} {cache : DictionaryCache}
    {u : Node × List Report} (hu : u ∈ checkEach load service s nodes cache)
    (hkind : u.1.kind = .identifier) : u.2.filterMap (·.fix) = [] := by
  rw [List.eq_nil_iff_forall_not_mem]
  intro f hf
  obtain ⟨i, -, hstyle | ⟨found, hfound, hmem⟩⟩ := exists_issue_of_mem_fixes load service s hu hf
  · rw [styleIssues, if_pos hkind] at hstyle
    cases hstyle
  · have hempty : (grammarIssues service s u.1.value u.1.kind).2 = .ok [] := by
      cases service with
      | none => rfl
      | some g => simp [grammarIssues, hkind]
    rw [hempty] at hfound
    obtain rfl := Except.ok.inj hfound
    cases hmem

/-- Without fixes a text stays as it is. -/
theorem applyFixes_of_no_fix {t : Text} {reports : List Report}
    (h : reports.filterMap (·.fix) = []) : applyFixes t reports = (t, 0) := by
  rw [applyFixes, orderedFixes, h]
  simp [applyEach]

/-- A unit that is not prose stays as it is. -/
theorem applyFixes_of_mem_checkEach {nodes : List Node} {cache : DictionaryCache}
    {u : Node × List Report} (hu : u ∈ checkEach load service s nodes cache)
    (h : u.1.kind = .identifier ∨ u.1.isCheckable = false) :
    applyFixes u.1.value u.2 = (u.1.value, 0) := by
  refine applyFixes_of_no_fix ?_
  rcases h with hkind | hskip
  · exact filterMap_fix_of_identifier load service s hu hkind
  · rcases mem_checkEach load service s hu with hnone | ⟨hcheck, -⟩
    · rw [hnone]
      rfl
    · rw [hskip] at hcheck
      cases hcheck

/-- The fixes of the reports of a file put what the own fixes of each node make of its text in the
place of that text. -/
theorem substitute?_checkSource (path content : Text) (cache : DictionaryCache) :
    let units := checkEach load service s ((nodesOfFile? path content).getD []) cache
    let fixed := applyFixes content (checkSource load service s path content cache).1.2
    substitute? (units.map fixedRegion) content = some fixed.1 ∧
      fixed.2 = (units.map fun u => (applyFixes u.1.value u.2).2).sum := by
  intro units fixed
  have hfixes : (checkSource load service s path content cache).1.2.filterMap (·.fix)
      = units.flatMap fileFixes := by
    cases hnodes : nodesOfFile? path content with
    | none => simp [checkSource, units, hnodes, checkEach]
    | some ns =>
      simp only [checkSource, units, hnodes, Option.getD_some]
      exact filterMap_fix_checkNodes load service s ns cache
  have hlaid := laid_nodesOfFile path content
  rw [← map_fst_checkEach load service s ((nodesOfFile? path content).getD []) cache] at hlaid
  obtain ⟨b, a, heach, hsub⟩ := @applyEach_units [] content units hlaid
    fun u hu f hf => fits_checkEach load service s hu hf
  have hfixed : fixed = (b ++ a, (units.map fun u => (applyFixes u.1.value u.2).2).sum) := by
    simp only [fixed, applyFixes, orderedFixes]
    rw [hfixes]
    rw [List.nil_append, sorted] at heach
    rw [Draft.ofText, heach]
    rfl
  rw [hfixed]
  exact ⟨hsub, rfl⟩

/-- **A file is fixed unit by unit.**  The fixes of the reports of a file replace the text of each
of its nodes by what the node's own fixes make of it, and change nothing else; as many are applied
as are applied to the nodes.  The texts of the nodes stand in the file one behind the other.
Identifiers and names of modules stay as they are. -/
theorem applyFixes_checkSource (path content : Text) (cache : DictionaryCache) :
    let nodes := (nodesOfFile? path content).getD []
    let units := checkEach load service s nodes cache
    let fixed := applyFixes content (checkSource load service s path content cache).1.2
    units.map (·.1) = nodes ∧
      (∀ n ∈ nodes, Text.slice? n.contentStart n.contentStop content = some n.value) ∧
      nodes.Pairwise (fun a b => a.contentStop ≤ b.contentStart) ∧
      substitute? (units.map fun u => ⟨u.1.contentStart, u.1.contentStop,
        (applyFixes u.1.value u.2).1⟩) content = some fixed.1 ∧
      fixed.2 = (units.map fun u => (applyFixes u.1.value u.2).2).sum ∧
      ∀ u ∈ units, u.1.kind = .identifier ∨ u.1.isCheckable = false →
        applyFixes u.1.value u.2 = (u.1.value, 0) := by
  intro nodes units fixed
  have hlaid : Laid 0 content [] nodes := laid_nodesOfFile path content
  obtain ⟨hsub, hcount⟩ := substitute?_checkSource load service s path content cache
  exact ⟨map_fst_checkEach load service s nodes cache, @Laid.slice [] content [] nodes hlaid,
    hlaid.pairwise, hsub, hcount, fun u hu h => applyFixes_of_mem_checkEach load service s hu h⟩

end Checker

end CodeProse

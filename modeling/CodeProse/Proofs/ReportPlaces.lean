/-
# Where reports point

Whoever finds an issue, the issue covers some whole characters of its unit: spelling a word, a rule
of style a phrase or a remark, the grammar service a passage of a sentence. Reconciling moves no
issue, and a report only adds the place of the unit. So every report of a file names just the text
between its offsets, and that lies within one unit; and as the units stand in the file one behind
the other, the reports of the file are sorted (`pointsAt_checkSource`).
-/
import CodeProse.Checker
import CodeProse.Proofs.GrammarChecks
import CodeProse.Proofs.Reconciliation
import CodeProse.Proofs.Source.Layout
import CodeProse.Proofs.Style.Remark
import CodeProse.Proofs.Text.Sentence
import CodeProse.Proofs.Text.Word

namespace CodeProse

open Correction Source
open Text (Covers)

/-! ## Spelling -/

/-- A misspelled word covers itself. -/
theorem Spelling.covers_of_mem_check {s : Settings} {d : Dictionary} {t : Text} {i : Issue}
    (h : i ∈ Spelling.check s d t) : Covers t i.start i.stop := by
  obtain ⟨token, htoken, rfl⟩ := List.mem_map.1 h
  obtain ⟨hne, hslice⟩ := Text.wordToken_slice (List.mem_filter.1 htoken).1
  exact ⟨token.text, hne, hslice⟩

/-! ## Style -/

namespace Style

/-- An occurrence of a phrase of a catalog covers it. -/
theorem covers_of_mem_occurrences {α : Type} {catalog : List α} {phrase : α → Text} {t : Text}
    {e : α} {o : Occurrence} (hne : ∀ e ∈ catalog, phrase e ≠ [])
    (h : (e, o) ∈ occurrences catalog phrase t) : Covers t o.start o.stop := by
  obtain ⟨he, hstop, hoccurs⟩ := (mem_occurrences_iff e o).1 h
  rw [hstop]
  exact hoccurs.covers (hne e (List.mem_of_getElem? he))

/-- No phrase of the rules is empty. -/
theorem phrase_ne_nil :
    (∀ e ∈ weakWords, e.phrase ≠ []) ∧ (∀ e ∈ prohibited, e.phrase ≠ []) ∧
      (∀ e ∈ terminology, e.phrase ≠ []) ∧ (∀ e ∈ contractions, e.phrase ≠ []) ∧
      ∀ e ∈ genderNeutral, e.phrase ≠ [] := by
  decide +kernel

/-- An issue of one of the style rules covers a phrase or a remark. -/
theorem covers_of_mem_check {checks : StyleChecks} {t : Text} {i : Issue}
    (h : i ∈ check checks analyze t) : Covers t i.start i.stop := by
  obtain ⟨hweak, hprohibited, hterm, hcontraction, hgender⟩ := phrase_ne_nil
  unfold check at h
  simp only [List.mem_append, List.mem_ite_nil_right] at h
  rcases h with (((((⟨-, h⟩ | ⟨-, h⟩) | ⟨-, h⟩) | ⟨-, h⟩) | ⟨-, h⟩) | ⟨-, h⟩) | ⟨-, h⟩
  · obtain ⟨⟨e, o⟩, ho, rfl⟩ := List.mem_map.1 h
    exact covers_of_mem_occurrences hweak ho
  · obtain ⟨r, hr, rfl⟩ := List.mem_map.1 h
    exact covers_of_mem_analyze (List.mem_filter.1 hr).1
  · obtain ⟨⟨e, o⟩, ho, rfl⟩ := List.mem_map.1 h
    exact covers_of_mem_occurrences hterm (List.mem_filter.1 ho).1
  · obtain ⟨⟨e, o⟩, ho, rfl⟩ := List.mem_map.1 h
    exact covers_of_mem_occurrences hcontraction ho
  · obtain ⟨⟨e, o⟩, ho, rfl⟩ := List.mem_map.1 h
    exact covers_of_mem_occurrences hprohibited ho
  · obtain ⟨⟨e, o⟩, ho, rfl⟩ := List.mem_map.1 h
    exact covers_of_mem_occurrences hgender ho
  · obtain ⟨r, hr, rfl⟩ := List.mem_map.1 h
    exact covers_of_mem_analyze hr

end Style

/-! ## Grammar -/

namespace Grammar

/-- Whatever range a service answers with, an issue is made of it only if it covers whole characters
of the sentence. -/
theorem covers_of_matchIssue? {s : Settings} {sentence : Text} {m : GrammarMatch} {i : Issue}
    (h : matchIssue? s sentence m = some i) : Covers sentence i.start i.stop := by
  obtain ⟨start, stop, before, word, after, hmade⟩ := matchIssue?_eq_some h
  have hlt := hmade.lt
  rw [hmade.eq]
  refine ⟨word, ?_, hmade.slice⟩
  rintro rfl
  obtain ⟨left, right, -, hstart, hlength⟩ := (Text.slice?_eq_some_iff _ _ _ _).1 hmade.slice
  rw [Text.byteLength_nil] at hlength
  omega

/-- The issues of a sentence cover some of it. -/
theorem covers_of_mem_checkSentence {service : GrammarService} {s : Settings} {sentence : Text}
    {issues : List Issue} (h : (checkSentence service s sentence).issues = .ok issues) {i : Issue}
    (hi : i ∈ issues) : Covers sentence i.start i.stop := by
  rw [checkSentence] at h
  split at h
  case isTrue =>
    dsimp only at h
    cases hanswer : service (request s sentence) with
    | error e =>
      rw [hanswer] at h
      cases h
    | ok answer =>
      rw [hanswer] at h
      obtain rfl := Except.ok.inj h
      obtain ⟨m, -, hm⟩ := List.mem_filterMap.1 hi
      exact covers_of_matchIssue? hm
  case isFalse =>
    obtain rfl := Except.ok.inj h
    cases hi

end Grammar

namespace Checker

/-- The issues of sentences cover some of the text that the sentences stand in. -/
theorem covers_of_mem_checkSentences {service : GrammarService} {s : Settings} {t : Text}
    {spans : List Span} (hspans : ∀ span ∈ spans, span ∈ t.sentences) {found : List Issue}
    (h : (checkSentences service s spans).2 = .ok found) {i : Issue} (hi : i ∈ found) :
    Covers t i.start i.stop := by
  induction spans generalizing found with
  | nil =>
    obtain rfl := Except.ok.inj h
    cases hi
  | cons span rest ih =>
    rw [checkSentences] at h
    cases hissues : (Grammar.checkSentence service s span.text).issues with
    | error e =>
      rw [hissues] at h
      cases h
    | ok issues =>
      rw [hissues] at h
      cases hlater : (checkSentences service s rest).2 with
      | error e =>
        simp only [hlater] at h
        cases h
      | ok later =>
        simp only [hlater] at h
        obtain rfl := Except.ok.inj h
        rcases List.mem_append.1 hi with hi | hi
        · obtain ⟨j, hj, rfl⟩ := List.mem_map.1 hi
          obtain ⟨-, hslice⟩ := Text.sentence_slice (hspans span List.mem_cons_self)
          have hcovers := (Grammar.covers_of_mem_checkSentence hissues hj).of_slice hslice
          rwa [Nat.add_comm, Nat.add_comm span.start j.stop] at hcovers
        · exact ih (fun s hs => hspans s (List.mem_cons_of_mem span hs)) hlater hi

/-! ## Units -/

/-- Ranges in the order of their start, the shorter first. -/
def InOrder (a b : Nat × Nat) : Prop :=
  a.1 < b.1 ∨ a.1 = b.1 ∧ a.2 ≤ b.2

theorem earlierFirst_iff (a b : Issue) :
    earlierFirst a b = true ↔ InOrder (a.start, a.stop) (b.start, b.stop) := by
  simp [earlierFirst, InOrder]

theorem earlierFirst_trans (a b c : Issue) (hab : earlierFirst a b = true)
    (hbc : earlierFirst b c = true) : earlierFirst a c = true := by
  rw [earlierFirst_iff] at *
  simp only [InOrder] at *
  omega

theorem earlierFirst_total (a b : Issue) : (earlierFirst a b || earlierFirst b a) = true := by
  rw [Bool.or_eq_true, earlierFirst_iff, earlierFirst_iff]
  simp only [InOrder]
  omega

/-- Sorted issues are in order. -/
theorem pairwise_earlierFirst (issues : List Issue) :
    ((issues.mergeSort earlierFirst).map fun i => (i.start, i.stop)).Pairwise InOrder := by
  rw [List.pairwise_map]
  exact (List.pairwise_mergeSort earlierFirst_trans earlierFirst_total issues).imp fun {a b} hab =>
    (earlierFirst_iff a b).1 hab

/-- Reconciling moves no issue. -/
theorem map_range_reconcile (t : Text) (issues : List Issue) :
    (reconcile t issues).issues.map (fun i => (i.start, i.stop))
      = issues.map fun i => (i.start, i.stop) :=
  map_reconcile (fun _ => rfl) t issues

/-- A reconciled issue covers what the issue covers that it was made of. -/
theorem covers_of_mem_reconcile {t : Text} {issues : List Issue}
    (h : ∀ i ∈ issues, Covers t i.start i.stop) {i : Issue} (hi : i ∈ (reconcile t issues).issues) :
    Covers t i.start i.stop := by
  have hrange : (i.start, i.stop) ∈ (reconcile t issues).issues.map fun i => (i.start, i.stop) :=
    List.mem_map_of_mem hi
  rw [map_range_reconcile] at hrange
  obtain ⟨j, hj, hij⟩ := List.mem_map.1 hrange
  obtain ⟨hstart, hstop⟩ := Prod.mk.inj hij
  rw [← hstart, ← hstop]
  exact h j hj

variable (load : Loader) (service : Option GrammarService) (s : Settings)

/-- Issues of grammar cover some of the text. -/
theorem covers_of_mem_grammarIssues {t : Text} {kind : UnitKind} {found : List Issue}
    (h : (grammarIssues service s t kind).2 = .ok found) {i : Issue} (hi : i ∈ found) :
    Covers t i.start i.stop := by
  have hnone : ∀ {asked : List GrammarRequest},
      ((asked, .ok []) : List GrammarRequest × Except GrammarError (List Issue)).2 = .ok found →
        Covers t i.start i.stop := by
    intro asked h
    obtain rfl := Except.ok.inj h
    cases hi
  unfold grammarIssues at h
  split at h
  · split at h
    · exact covers_of_mem_checkSentences (fun _ hspan => hspan) h hi
    · exact hnone h
  · exact hnone h

/-- A unit is reconciled with issues that cover some of its characters each and are in order. -/
theorem exists_reconcile_of_checkUnit {t : Text} {kind : UnitKind} {cache : DictionaryCache}
    {c : Correction} (h : (checkUnit load service s t kind cache).1.result = .ok c) :
    ∃ issues, c = reconcile t issues ∧ (∀ i ∈ issues, Covers t i.start i.stop) ∧
      (issues.map fun i => (i.start, i.stop)).Pairwise InOrder := by
  unfold checkUnit at h
  split at h
  case isTrue => exact ⟨[], (Except.ok.inj h).symm, by simp, .nil⟩
  split at h
  case h_1 => cases h
  case h_2 d cache' hget =>
    unfold checkWith at h
    simp only at h
    cases hfound : (grammarIssues service s t kind).2 with
    | error e =>
      rw [hfound] at h
      cases h
    | ok found =>
      rw [hfound] at h
      refine ⟨_, (Except.ok.inj h).symm, fun i hi => ?_, pairwise_earlierFirst _⟩
      rw [List.mem_mergeSort, List.mem_append, List.mem_append] at hi
      rcases hi with (hi | hi) | hi
      · exact Spelling.covers_of_mem_check hi
      · rw [styleIssues] at hi
        split at hi
        · cases hi
        · exact Style.covers_of_mem_check hi
      · exact covers_of_mem_grammarIssues service s hfound hi

/-- **The issues of a unit cover some of its characters each, and they are in order.** -/
theorem covers_of_checkUnit {t : Text} {kind : UnitKind} {cache : DictionaryCache} {c : Correction}
    (h : (checkUnit load service s t kind cache).1.result = .ok c) :
    (∀ i ∈ c.issues, Covers t i.start i.stop) ∧
      (c.issues.map fun i => (i.start, i.stop)).Pairwise InOrder := by
  obtain ⟨issues, rfl, hcovers, hordered⟩ := exists_reconcile_of_checkUnit load service s h
  rw [map_range_reconcile]
  exact ⟨fun i hi => covers_of_mem_reconcile hcovers hi, hordered⟩

/-! ## Files -/

/-- A report points at the text it names: whole characters of the file, at least one, within the
text of one of the nodes that are checked. -/
structure PointsAt (content : Text) (nodes : List Node) (r : Report) : Prop where
  nonempty : r.start < r.stop
  inFile : r.stop ≤ content.byteLength
  startBoundary : Text.isBoundary r.start content = true
  stopBoundary : Text.isBoundary r.stop content = true
  /-- What stands between the offsets is the word that the data of the report name. -/
  word : ∃ w, Text.slice? r.start r.stop content = some w ∧ r.data.find? "word".toList = some w
  inNode : ∃ n ∈ nodes, n.isCheckable = true ∧ n.contentStart ≤ r.start ∧ r.stop ≤ n.contentStop

theorem find?_word (data : ReportData) : data.find? "word".toList = some data.word := by
  obtain ⟨word, unit, message, suggestion⟩ := data
  cases suggestion with
  | none => rfl
  | some text => rfl

/-- The report of an issue that covers some of a node points there. -/
theorem pointsAt_ofIssue {content : Text} {n : Node} {i : Issue}
    (hslice : Text.slice? n.contentStart n.contentStop content = some n.value)
    (hn : n.isCheckable = true) (hi : Covers n.value i.start i.stop) :
    PointsAt content [n] (Report.ofIssue n.value n.kind n.contentStart i) := by
  obtain ⟨w, hne, hw⟩ := hi
  have hfile := Text.slice?_of_slice? hslice hw
  obtain ⟨hstart, hstop⟩ := Text.isBoundary_of_slice? hfile
  have hbound := (Text.le_of_slice?_eq_some hw).2
  exact {
    nonempty := Covers.lt ⟨w, hne, hfile⟩
    inFile := (Text.le_of_slice?_eq_some hfile).2
    startBoundary := hstart
    stopBoundary := hstop
    word := ⟨w, hfile, by rw [find?_word]; simp [Report.ofIssue, hw]⟩
    inNode := ⟨n, by simp, hn, Nat.le_add_right .., Nat.add_le_add_left hbound _⟩ }

theorem PointsAt.mono {content : Text} {nodes nodes' : List Node} {r : Report}
    (h : PointsAt content nodes r) (hsub : nodes ⊆ nodes') : PointsAt content nodes' r := by
  obtain ⟨n, hn, hinside⟩ := h.inNode
  exact { h with inNode := ⟨n, hsub hn, hinside⟩ }

/-- The reports of one node, whatever comes of its check. -/
def reportsOf (n : Node) (outcome : UnitOutcome) : List Report :=
  match outcome.result with
  | .ok c => nodeReports n c
  | .error _ => []

/-- The first of some nodes is checked on its own, and leaves its dictionary to the others. -/
theorem reports_checkNodes_cons (n : Node) (rest : List Node) (cache : DictionaryCache) :
    (checkNodes load service s (n :: rest) cache).1.2
      = reportsOf n (checkUnit load service s n.value n.kind cache).1
        ++ (checkNodes load service s rest
            (checkUnit load service s n.value n.kind cache).2).1.2 :=
  rfl

/-- The reports of one node point into it, and they are in order. -/
theorem pointsAt_reportsOf {content : Text} {n : Node} (cache : DictionaryCache)
    (hslice : Text.slice? n.contentStart n.contentStop content = some n.value)
    (hn : n.isCheckable = true) :
    let reports := reportsOf n (checkUnit load service s n.value n.kind cache).1
    (∀ r ∈ reports, PointsAt content [n] r) ∧
      (reports.map fun r => (r.start, r.stop)).Pairwise InOrder := by
  intro reports
  cases hresult : (checkUnit load service s n.value n.kind cache).1.result with
  | error e =>
    have hnone : reports = [] := by simp only [reports, reportsOf, hresult]
    rw [hnone]
    exact ⟨by simp, .nil⟩
  | ok c =>
    obtain ⟨hcovers, hordered⟩ := covers_of_checkUnit load service s hresult
    have hreports : reports = c.issues.map (Report.ofIssue n.value n.kind n.contentStart) := by
      simp only [reports, reportsOf, hresult, nodeReports]
    rw [hreports]
    constructor
    · intro r hr
      obtain ⟨i, hi, rfl⟩ := List.mem_map.1 hr
      exact pointsAt_ofIssue hslice hn (hcovers i hi)
    · rw [List.map_map, List.pairwise_map]
      rw [List.pairwise_map] at hordered
      refine hordered.imp fun {i j} hij => ?_
      simp only [InOrder, Function.comp_apply, Report.ofIssue] at hij ⊢
      omega

/-- **The reports of nodes that stand one behind the other point into the nodes, and they are in
order.** -/
theorem pointsAt_checkNodes {content : Text} {nodes : List Node} (cache : DictionaryCache)
    (hslice : ∀ n ∈ nodes, Text.slice? n.contentStart n.contentStop content = some n.value)
    (hcheck : ∀ n ∈ nodes, n.isCheckable = true)
    (hbehind : nodes.Pairwise fun a b => a.contentStop ≤ b.contentStart) :
    let reports := (checkNodes load service s nodes cache).1.2
    (∀ r ∈ reports, PointsAt content nodes r) ∧
      (reports.map fun r => (r.start, r.stop)).Pairwise InOrder := by
  induction nodes generalizing cache with
  | nil =>
    refine ⟨?_, .nil⟩
    intro r hr
    cases hr
  | cons n rest ih =>
    obtain ⟨hfirst, hbehind⟩ := List.pairwise_cons.1 hbehind
    obtain ⟨hown, hownOrder⟩ := pointsAt_reportsOf load service s cache
      (hslice n List.mem_cons_self) (hcheck n List.mem_cons_self)
    obtain ⟨hlater, hlaterOrder⟩ := ih (checkUnit load service s n.value n.kind cache).2
      (fun m hm => hslice m (List.mem_cons_of_mem n hm))
      (fun m hm => hcheck m (List.mem_cons_of_mem n hm)) hbehind
    rw [reports_checkNodes_cons]
    constructor
    · intro r hr
      rcases List.mem_append.1 hr with hr | hr
      · exact (hown r hr).mono (by simp)
      · exact (hlater r hr).mono (by simp)
    · rw [List.map_append]
      refine List.pairwise_append.2 ⟨hownOrder, hlaterOrder, ?_⟩
      simp only [List.mem_map]
      rintro _ ⟨r, hr, rfl⟩ _ ⟨r', hr', rfl⟩
      -- a report of the first node ends before the node does, and all others begin behind it
      obtain ⟨m, hm, -, -, hstop⟩ := (hown r hr).inNode
      obtain rfl := List.mem_singleton.1 hm
      obtain ⟨m', hm', -, hstart, -⟩ := (hlater r' hr').inNode
      have hnodes := hfirst m' hm'
      have hlt := (hown r hr).nonempty
      exact .inl (by show r.start < r'.start; omega)

/-- **Every report points at the text it names.**  A report of a file covers whole characters of it,
at least one, which are the word that its data name, within the text of one node that is checked;
and the reports are sorted by their start, then by their stop. -/
theorem pointsAt_checkSource (path content : Text) (cache : DictionaryCache) :
    let nodes := (nodesOfFile? path content).getD []
    let reports := (checkSource load service s path content cache).1.2
    (∀ r ∈ reports, PointsAt content nodes r) ∧
      reports.Pairwise fun a b => a.start < b.start ∨ a.start = b.start ∧ a.stop ≤ b.stop := by
  intro nodes reports
  have hreports : reports
      = (checkNodes load service s (nodes.filter (·.isCheckable)) cache).1.2 := by
    simp only [reports, nodes, checkSource]
    cases nodesOfFile? path content with
    | none => rfl
    | some ns => rfl
  have hlaid := laid_nodesOfFile path content
  have hslice : ∀ n ∈ nodes, Text.slice? n.contentStart n.contentStop content = some n.value :=
    @Laid.slice [] content [] nodes hlaid
  obtain ⟨hpoints, hordered⟩ := pointsAt_checkNodes load service s cache
    (fun n hn => hslice n (List.mem_filter.1 hn).1) (fun n hn => (List.mem_filter.1 hn).2)
    (hlaid.pairwise.filter (·.isCheckable))
  rw [← hreports] at hpoints hordered
  refine ⟨fun r hr => (hpoints r hr).mono (List.filter_subset_self nodes), ?_⟩
  exact List.pairwise_map.1 hordered

end Checker

end CodeProse

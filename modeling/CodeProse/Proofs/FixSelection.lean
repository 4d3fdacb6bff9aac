/-
# Which fixes are chosen

Applying the fixes of a list of reports substitutes some of them, all at once, and leaves the others
out (`Selects`). The chosen ones do not overlap, and none of the others could be added: its range
does not fit the text, or it holds the start of a chosen one. When a fix does not go into a draft,
the last one that did ends the untouched part, and it came before in the order of the edits
(`crowded_of_mem_leftOut`).

That order knows fixes by their ranges alone. So where fixes of one range have one text, it does
not matter in which order the reports come (`orderedFixes_eq_of_perm_reports`).
-/
import Mathlib
import CodeProse.Proofs.Widening

namespace CodeProse

/-! ## Fixes that do not fit -/

/-- The range of a fix is reversed, reaches past the end of the text, or begins or ends inside of a
character. -/
def Fix.Misplaced (content : Text) (f : Fix) : Prop :=
  f.stop < f.start ∨ content.byteLength < f.stop ∨ Text.isBoundary f.start content = false ∨
    Text.isBoundary f.stop content = false

theorem Fix.misplaced_of_slice? {content : Text} {f : Fix}
    (h : Text.slice? f.start f.stop content = none) : f.Misplaced content := by
  have hnot : ¬ (Text.slice? f.start f.stop content).isSome = true := by simp [h]
  rw [Text.isSome_slice?_iff] at hnot
  rcases Nat.lt_or_ge f.stop f.start with hreversed | hle
  · exact .inl hreversed
  · cases hstart : Text.isBoundary f.start content with
    | false => exact .inr (.inr (.inl hstart))
    | true =>
      have hstop : Text.isBoundary f.stop content = false := by simpa [hle, hstart] using hnot
      exact .inr (.inr (.inr hstop))

/-- A fix is in the way of another one: the range of that one holds its start, strictly before its
own end, and the two overlap. -/
def Fix.Crowds (g f : Fix) : Prop :=
  f.start ≤ g.start ∧ g.start < f.stop ∧ ¬ f.apart g

/-- A fix that comes before another one and starts within its range is in its way, also where one of
the two covers nothing. -/
theorem Fix.crowds_of_later {f g : Fix}
    (horder : laterFirst (g.start, g.stop) (f.start, f.stop) = true) (hlt : g.start < f.stop)
    (hg : g.start ≤ g.stop) : g.Crowds f := by
  have horder := (laterFirst_iff _ _).1 horder
  refine ⟨?_, hlt, ?_⟩
  · simp only at horder
    omega
  · rw [Fix.apart, Fix.precedes, Fix.precedes]
    simp only at horder
    omega

/-! ## The fixes that are left out -/

/-- The fixes that do not go into a draft when they are tried one after the other. -/
def leftOut : Draft → List Fix → List Fix
  | _, [] => []
  | d, f :: rest =>
    match d.replace? f.start f.stop f.text with
    | some d' => leftOut d' rest
    | none => f :: leftOut d rest

/-- Each fix goes in or is left out. -/
theorem appliedFixes_append_leftOut_perm (d : Draft) (fixes : List Fix) :
    (appliedFixes d fixes ++ leftOut d fixes).Perm fixes := by
  induction fixes generalizing d with
  | nil => exact .refl _
  | cons f rest ih =>
    rw [appliedFixes, leftOut]
    cases hd : d.replace? f.start f.stop f.text with
    | some d' => exact (ih d').cons f
    | none => exact List.perm_middle.trans ((ih d).cons f)

/-- **Why a fix is left out.**  Its range does not fit the text, or a fix that went in is in its way.
The draft is in the middle of a run: `earlier` are the fixes that went in so far, and the last of
them ends the untouched part. -/
theorem crowded_of_mem_leftOut {content : Text} {d : Draft} {earlier fixes : List Fix}
    (hsorted : fixes.Pairwise fun f g => laterFirst (f.start, f.stop) (g.start, g.stop) = true)
    (hbegins : d.before <+: content)
    (hend : d.before = content ∨ ∃ g ∈ earlier, g.start = d.before.byteLength ∧ g.start ≤ g.stop ∧
      ∀ f ∈ fixes, laterFirst (g.start, g.stop) (f.start, f.stop) = true)
    {f : Fix} (hf : f ∈ leftOut d fixes) :
    f.Misplaced content ∨ ∃ g ∈ earlier ++ appliedFixes d fixes, g.Crowds f := by
  -- by induction on the fixes still to be tried; `hend` says what the untouched part ends with
  induction fixes generalizing d earlier with
  | nil => cases hf
  | cons f₀ rest ih =>
    obtain ⟨hfirst, hsorted⟩ := List.pairwise_cons.1 hsorted
    rw [appliedFixes]
    rw [leftOut] at hf
    cases hd : d.replace? f₀.start f₀.stop f₀.text with
    | none =>
      rw [hd] at hf
      have hslice := (Draft.replace?_eq_none_iff _ _ _ _).1 hd
      rcases List.mem_cons.1 hf with rfl | hf
      · cases hcontent : Text.slice? f.start f.stop content with
        | none => exact .inl (Fix.misplaced_of_slice? hcontent)
        | some gone =>
          -- the range fits the text, so it must reach beyond the untouched part
          have hbeyond : d.before.byteLength < f.stop := by
            refine Nat.lt_of_not_le fun hle => ?_
            rw [Text.slice?_of_prefix hbegins hcontent hle] at hslice
            cases hslice
          rcases hend with hwhole | ⟨g, hg, hstart, hle, horder⟩
          · rw [hwhole] at hslice
            rw [hslice] at hcontent
            cases hcontent
          · refine .inr ⟨g, List.mem_append_left _ hg, ?_⟩
            exact Fix.crowds_of_later (horder f List.mem_cons_self) (by omega) hle
      · refine ih hsorted hbegins ?_ hf
        rcases hend with hwhole | ⟨g, hg, hstart, hle, horder⟩
        · exact .inl hwhole
        · exact .inr ⟨g, hg, hstart, hle, fun x hx => horder x (List.mem_cons_of_mem f₀ hx)⟩
    | some d' =>
      rw [hd] at hf
      obtain ⟨left, gone, right, hb, hl, hg, rfl⟩ := (Draft.replace?_eq_some_iff _ _ _ _ _).1 hd
      have hbegins' : left <+: content := by
        refine List.IsPrefix.trans ⟨gone ++ right, ?_⟩ hbegins
        rw [hb, List.append_assoc]
      have hnext := @ih ⟨left, f₀.text ++ right ++ d.after⟩ (earlier ++ [f₀]) hsorted hbegins'
        (.inr ⟨f₀, by simp, hl.symm, by omega, hfirst⟩) hf
      simpa using hnext

/-! ## The chosen fixes -/

/-- What comes of a text when fixes are applied: `chosen` are substituted all at once, in the order
of the text, and `left` are all others. -/
structure Selects (content : Text) (fixes : List Fix) (chosen left : List Fix) (r : Text × Nat) :
    Prop where
  /-- Each fix is chosen or left out, as often as it is given. -/
  perm : (chosen ++ left).Perm fixes
  /-- The number that is reported is that of the chosen ones. -/
  count : r.2 = chosen.length
  /-- The ranges of the chosen ones lie in the text, between characters; they may be empty. -/
  range : ∀ f ∈ chosen, f.start ≤ f.stop ∧ f.stop ≤ content.byteLength ∧
    Text.isBoundary f.start content = true ∧ Text.isBoundary f.stop content = true
  /-- No two of them overlap. -/
  disjoint : chosen.Pairwise Fix.precedes
  /-- Each of them replaces its range, and nothing else changes. -/
  substitute : substitute? chosen content = some r.1
  /-- Those left out do not fit the text, or a chosen one is in their way. -/
  crowded : ∀ f ∈ left, f.Misplaced content ∨ ∃ g ∈ chosen, g.Crowds f

/-- The fixes that go in, in the order of the text, are the chosen ones. -/
theorem selects_applyFixes (content : Text) (reports : List Report) :
    Selects content (reports.filterMap (·.fix))
      (appliedFixes (.ofText content) (orderedFixes reports)).reverse
      (leftOut (.ofText content) (orderedFixes reports)) (applyFixes content reports) := by
  obtain ⟨s, hs, htext, hcount⟩ := applyEach_eq_substitute (.ofText content) (orderedFixes reports)
  obtain ⟨hslice, hpair⟩ := (isSome_substitute?_iff _ _).1 (Option.isSome_iff_exists.2 ⟨s, hs⟩)
  constructor
  case perm =>
    refine ((List.reverse_perm _).append_right _).trans ?_
    exact (appliedFixes_append_leftOut_perm _ _).trans (orderedFixes_perm reports)
  case count => rw [applyFixes, List.length_reverse, hcount]
  case range =>
    intro f hf
    obtain ⟨hle, hstart, hstop⟩ := (Text.isSome_slice?_iff _ _ _).1 (hslice f hf)
    exact ⟨hle, Text.le_of_isBoundary hstop, hstart, hstop⟩
  case disjoint => exact hpair
  case substitute =>
    rw [applyFixes, htext]
    simpa using hs
  case crowded =>
    intro f hf
    have hwhy := @crowded_of_mem_leftOut content (.ofText content) [] (orderedFixes reports)
      (pairwise_orderedFixes reports) (List.prefix_refl _) (.inl rfl) f hf
    simpa using hwhy

/-! ## The order of the reports -/

/-- Fixes of the same range have the same text. -/
def AgreeOnRanges (fixes : List Fix) : Prop :=
  ∀ f ∈ fixes, ∀ g ∈ fixes, f.start = g.start → f.stop = g.stop → f.text = g.text

instance (fixes : List Fix) : Decidable (AgreeOnRanges fixes) :=
  inferInstanceAs (Decidable (∀ f ∈ fixes, ∀ g ∈ fixes, _ → _ → _))

/-- Reports in another order give the same fixes in the same order, if fixes of the same range have
the same text. -/
theorem orderedFixes_eq_of_perm_reports {reports others : List Report}
    (hagree : AgreeOnRanges (reports.filterMap (·.fix))) (hperm : others.Perm reports) :
    orderedFixes others = orderedFixes reports := by
  have hall : (orderedFixes others).Perm (orderedFixes reports) :=
    ((orderedFixes_perm others).trans (hperm.filterMap _)).trans (orderedFixes_perm reports).symm
  have hmem : ∀ f ∈ orderedFixes reports, f ∈ reports.filterMap (·.fix) :=
    fun f hf => (orderedFixes_perm reports).subset hf
  refine List.Perm.eq_of_pairwise ?_ (pairwise_orderedFixes others)
    (pairwise_orderedFixes reports) hall
  -- two fixes that each may come first have the same range
  intro f g hf hg hfg hgf
  rw [laterFirst_iff] at hfg hgf
  simp only at hfg hgf
  have hstart : f.start = g.start := by omega
  have hstop : f.stop = g.stop := by omega
  have htext := hagree f (hmem f (hall.subset hf)) g (hmem g hg) hstart hstop
  cases f
  cases g
  simp_all

/-- **Applying fixes substitutes a maximal choice of them that do not overlap.**  If fixes of the
same range have the same text, the order of the reports does not matter. -/
theorem applyFixes_selects (content : Text) (reports : List Report) :
    (∃ chosen left, Selects content (reports.filterMap (·.fix)) chosen left
        (applyFixes content reports)) ∧
      (AgreeOnRanges (reports.filterMap (·.fix)) →
        ∀ others : List Report, others.Perm reports →
          applyFixes content others = applyFixes content reports) := by
  refine ⟨⟨_, _, selects_applyFixes content reports⟩, fun hagree others hperm => ?_⟩
  rw [applyFixes, applyFixes, orderedFixes_eq_of_perm_reports hagree hperm]

/-- A report of nothing but a fix. -/
def Report.ofFix (f : Fix) : Report where
  rule := .grammar
  severity := .warning
  message := []
  data := default
  start := f.start
  stop := f.stop
  fix := some f

/-- The deletion of the character of two bytes in "aébc", an insertion in front of it, a fix across
both, and twice one that ends inside of that character. -/
def crossingReports : List Report :=
  [.ofFix ⟨1, 3, []⟩, .ofFix ⟨0, 2, ['q']⟩, .ofFix ⟨1, 1, ['x']⟩, .ofFix ⟨0, 4, ['z']⟩,
    .ofFix ⟨0, 2, ['q']⟩]

/-- The deletion and the insertion are chosen, from either end of the list. -/
theorem applyFixes_selects_insertion :
    AgreeOnRanges (crossingReports.filterMap (·.fix)) ∧
      crossingReports.reverse.Perm crossingReports ∧
      (∃ chosen left, Selects "aébc".toList (crossingReports.filterMap (·.fix)) chosen left
        ("axbc".toList, 2)) ∧
      applyFixes "aébc".toList crossingReports.reverse = ("axbc".toList, 2) := by
  have hresult : applyFixes "aébc".toList crossingReports = ("axbc".toList, 2) := by cbv
  have hagree : AgreeOnRanges (crossingReports.filterMap (·.fix)) := by decide
  obtain ⟨hselects, horder⟩ := applyFixes_selects "aébc".toList crossingReports
  rw [hresult] at hselects horder
  exact ⟨hagree, List.reverse_perm _, hselects, horder hagree _ (List.reverse_perm _)⟩

end CodeProse

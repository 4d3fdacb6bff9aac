/-
# Fixes and the corrected text

Two things are made of the replacements that a correction keeps: the corrected text, and the fixes
of its reports. A deletion takes a blank with it in both, but the correction looks for the blank in
the text as edited so far, and a report in the text as given.

The fixes of a report all go in exactly if their widened ranges do not overlap
(`applyEach_length_iff_apart`). If so, and if no edit starts where a deletion ends, then each fix
does to the text as given what its edit does to the text as edited so far (`replace?_widen`), and by
induction over the edits applying the fixes gives the text that was corrected
(`applyEach_widen_made`).
-/
import CodeProse.Proofs.Reconciliation

namespace CodeProse

open Text (visible)

open Correction

/-! ## Widened ranges -/

/-- The fix that a report makes of a replacement in its unit: a deletion takes a blank with it. -/
def Fix.widen (unit : Text) (f : Fix) : Fix :=
  if f.text.isEmpty then
    ⟨(deletionRange unit f.start f.stop).1, (deletionRange unit f.start f.stop).2, f.text⟩
  else f

/-- A fix of a unit that starts at `offset` in its file. -/
def Fix.shift (offset : Nat) (f : Fix) : Fix :=
  ⟨offset + f.start, offset + f.stop, f.text⟩

theorem Fix.shift_zero (f : Fix) : f.shift 0 = f := by
  rw [Fix.shift, Nat.zero_add, Nat.zero_add]

/-- The fixes of the reports of a unit are its replacements, widened. -/
theorem filterMap_fix_ofIssue (unit : Text) (kind : UnitKind) (offset : Nat) (issues : List Issue) :
    (issues.map (Report.ofIssue unit kind offset)).filterMap (·.fix)
      = (replacements issues).map fun f => (f.widen unit).shift offset := by
  induction issues with
  | nil => rfl
  | cons i rest ih =>
    rw [List.map_cons, List.filterMap_cons, replacements, List.filterMap_cons]
    rw [replacements] at ih
    rw [ih]
    cases hr : i.replacement with
    | none => simp [Report.ofIssue, hr]
    | some text =>
      cases text with
      | nil => simp [Report.ofIssue, hr, fixRange, Fix.widen, Fix.shift]
      | cons c text => simp [Report.ofIssue, hr, fixRange, Fix.widen, Fix.shift]

@[simp] theorem Fix.text_widen (unit : Text) (f : Fix) : (f.widen unit).text = f.text := by
  rw [Fix.widen]
  split <;> rfl

theorem Fix.widen_of_ne_nil (unit : Text) {f : Fix} (h : f.text ≠ []) : f.widen unit = f :=
  if_neg (mt List.isEmpty_iff.1 h)

theorem Fix.widen_of_eq_nil (unit : Text) {f : Fix} (h : f.text = []) :
    f.widen unit
      = ⟨(deletionRange unit f.start f.stop).1, (deletionRange unit f.start f.stop).2, f.text⟩ :=
  if_pos (List.isEmpty_iff.2 h)

/-- A widened range takes white space on both sides of the range that it comes from. -/
theorem widen_split {t left gone right : Text} {f : Fix} (ht : t = left ++ gone ++ right)
    (hl : left.byteLength = f.start) (hg : f.start + gone.byteLength = f.stop) :
    ∃ lead gap tail rest, left = lead ++ gap ∧ right = tail ++ rest ∧
      lead.byteLength = (f.widen t).start ∧ f.stop + tail.byteLength = (f.widen t).stop ∧
      visible gap = [] ∧ visible tail = [] := by
  by_cases htext : f.text = []
  · rw [Fix.widen_of_eq_nil t htext]
    rcases deletionRange_cases ht hl hg with
      ⟨hrange, -⟩ | ⟨right', rfl, hrange, -⟩ | ⟨left', rfl, hrange, -⟩
    · exact ⟨left, [], [], right, by simp, rfl, by rw [hrange, hl], by rw [hrange]; rfl, rfl, rfl⟩
    · exact ⟨left, [], [' '], right', by simp, rfl, by rw [hrange, hl], by rw [hrange]; rfl, rfl,
        rfl⟩
    · exact ⟨left', [' '], [], right, rfl, rfl, by rw [hrange], by rw [hrange]; rfl, rfl, rfl⟩
  · rw [Fix.widen_of_ne_nil t htext]
    exact ⟨left, [], [], right, by simp, rfl, hl, rfl, rfl, rfl⟩

/-- A widened range holds the range that it comes from, and lies in the text as that does. -/
theorem widen_of_slice? {t : Text} {f : Fix} (h : (Text.slice? f.start f.stop t).isSome = true) :
    (f.widen t).start ≤ f.start ∧ f.stop ≤ (f.widen t).stop ∧
      (Text.slice? (f.widen t).start (f.widen t).stop t).isSome = true := by
  obtain ⟨gone, hslice⟩ := Option.isSome_iff_exists.1 h
  obtain ⟨left, right, ht, hl, hg⟩ := (Text.slice?_eq_some_iff _ _ _ _).1 hslice
  obtain ⟨lead, gap, tail, rest, rfl, rfl, hstart, hstop, -, -⟩ := widen_split ht hl hg
  rw [Text.byteLength_append] at hl
  refine ⟨by omega, by omega, Option.isSome_iff_exists.2 ⟨gap ++ gone ++ tail, ?_⟩⟩
  refine (Text.slice?_eq_some_iff _ _ _ _).2 ⟨lead, rest, by simp [ht], hstart, ?_⟩
  simp only [Text.byteLength_append]
  omega

/-! ## Which fixes go in -/

/-- Two fixes do not overlap. -/
def Fix.apart (f g : Fix) : Prop :=
  f.precedes g ∨ g.precedes f

instance (f g : Fix) : Decidable (f.apart g) :=
  inferInstanceAs (Decidable (f.precedes g ∨ g.precedes f))

theorem orderedFixes_perm (reports : List Report) :
    (orderedFixes reports).Perm (reports.filterMap (·.fix)) :=
  List.mergeSort_perm _ _

theorem pairwise_orderedFixes (reports : List Report) :
    (orderedFixes reports).Pairwise fun f g =>
      laterFirst (f.start, f.stop) (g.start, g.stop) = true :=
  List.pairwise_mergeSort (fun f g _ => laterFirst_trans (f.start, f.stop) (g.start, g.stop) _)
    (fun f g => laterFirst_total (f.start, f.stop) (g.start, g.stop)) _

/-- Fixes that can each be made all go in exactly if no two of them overlap. -/
theorem applyFixes_eq_length_iff {content : Text} {reports : List Report}
    (hfix : ∀ f ∈ reports.filterMap (·.fix),
      f.start < f.stop ∧ (Text.slice? f.start f.stop content).isSome = true) :
    (applyFixes content reports).2 = (reports.filterMap (·.fix)).length ↔
      (reports.filterMap (·.fix)).Pairwise Fix.apart := by
  have hperm := orderedFixes_perm reports
  have hslice : ∀ f ∈ (orderedFixes reports).reverse,
      (Text.slice? f.start f.stop content).isSome = true :=
    fun f hf => (hfix f (hperm.subset (List.mem_reverse.1 hf))).2
  rw [← hperm.length_eq, applyFixes]
  simp only
  rw [applyEach_eq_length_iff, isSome_substitute?_iff, List.pairwise_reverse, Draft.before_ofText,
    and_iff_right hslice]
  constructor
  · intro h
    exact (h.imp Or.inr).perm hperm Or.symm
  · intro h
    have hapart : (orderedFixes reports).Pairwise Fix.apart := h.perm hperm.symm Or.symm
    refine ((pairwise_orderedFixes reports).and hapart).imp_of_mem fun {f g} hf _ hfg => ?_
    obtain ⟨hlater, hfg | hgf⟩ := hfg
    · -- the later fix cannot precede the other one
      have := (hfix f (hperm.subset hf)).1
      have := (laterFirst_iff _ _).1 hlater
      rw [Fix.precedes] at *
      simp only at *
      omega
    · exact hgf

/-- Fixes that do not overlap are applied in the reverse order of the text. -/
theorem orderedFixes_eq_of_perm {reports : List Report} {row : List Fix}
    (hperm : (reports.filterMap (·.fix)).Perm row) (hpair : row.Pairwise Fix.precedes)
    (hpos : ∀ f ∈ row, f.start < f.stop) : orderedFixes reports = row.reverse := by
  have hall : (orderedFixes reports).Perm row.reverse :=
    ((orderedFixes_perm reports).trans hperm).trans (List.reverse_perm row).symm
  have hrow : row.reverse.Pairwise fun f g =>
      laterFirst (f.start, f.stop) (g.start, g.stop) = true := by
    rw [List.pairwise_reverse]
    refine hpair.imp_of_mem fun {f g} hf _ hfg => (laterFirst_iff _ _).2 (.inl ?_)
    have := hpos f hf
    rw [Fix.precedes] at hfg
    simp only
    omega
  refine List.Perm.eq_of_pairwise ?_ (pairwise_orderedFixes reports) hrow hall
  intro f g hf hg hfg hgf
  refine Fix.eq_of_start_eq hpair hpos (List.mem_reverse.1 (hall.subset hf))
    (List.mem_reverse.1 hg) ?_
  rw [laterFirst_iff] at hfg hgf
  simp only at *
  omega

/-! ## What the fixes come to -/

/-- Widening the fixes of a substitution only changes white space. -/
theorem visible_substitute_widen {given rest t s s' : Text} {row : List Fix}
    (hgiven : given = t ++ rest) (hs : substitute? row t = some s)
    (hs' : substitute? (row.map (Fix.widen given)) t = some s') : visible s' = visible s := by
  -- by induction from the last fix on, as a widened range may reach into what lies in front of it
  obtain ⟨l, rfl⟩ : ∃ l, row = l.reverse := ⟨row.reverse, by simp⟩
  induction l generalizing rest t s s' with
  | nil =>
    obtain rfl := Option.some.inj hs
    obtain rfl := Option.some.inj hs'
    rfl
  | cons f l ih =>
    rw [List.reverse_cons, substitute?, substituteFrom_concat_eq_some_iff] at hs
    rw [List.reverse_cons, List.map_append, List.map_singleton, substitute?,
      substituteFrom_concat_eq_some_iff, Fix.text_widen] at hs'
    obtain ⟨left, gone, right, earlier, rfl, hl, hg, he, rfl⟩ := hs
    obtain ⟨left', gone', right', earlier', ht, hl', hg', he', rfl⟩ := hs'
    rw [Nat.zero_add] at hl hl'
    have hsplit : given = left ++ gone ++ (right ++ rest) := by simp [hgiven]
    obtain ⟨lead, gap, tail, more, rfl, htail, hstart, hstop, hgap, hvisible⟩ :=
      widen_split hsplit hl hg
    -- both ways to split the text begin with `lead`
    obtain ⟨rfl, ht⟩ : lead = left' ∧ gap ++ gone ++ right = gone' ++ right' :=
      Text.append_inj (by simpa using ht) (by omega)
    have hlen : gap.byteLength + gone.byteLength + tail.byteLength = gone'.byteLength := by
      simp only [Text.byteLength_append] at hl
      omega
    have hright : right = tail ++ right' := by
      have hle : tail.byteLength ≤ right.byteLength := by
        have := congrArg Text.byteLength ht
        simp only [Text.byteLength_append] at this
        omega
      obtain ⟨x, rfl, -⟩ := Text.append_split_of_le htail.symm hle
      have hx : gap ++ gone ++ tail = gone' ∧ x = right' :=
        Text.append_inj (by simpa using ht) (by simp only [Text.byteLength_append]; omega)
      rw [hx.2]
    have hearlier := @ih (gone ++ (right ++ rest)) _ _ _ (by simp [hgiven]) he
      (substituteFrom_append_right gap he')
    rw [Text.visible_append, hgap, List.append_nil] at hearlier
    rw [hright]
    simp [hearlier, hvisible]

/-- Where the untouched part of a draft ends, deletions see the same in the text as given, which
goes on with `rest`, and in the text as edited so far: both end there, or no deletion reaches this
far, or a blank has been taken there that none of the fixes takes again. -/
def Continues (given rest : Text) (d : Draft) (edits : List Edit) : Prop :=
  (rest = [] ∧ d.after = []) ∨
    (∀ e ∈ edits, e.text = [] → e.stop ≠ d.before.byteLength) ∨
    (rest.head? = some ' ' ∧ d.after.head?.any Draft.hugsLeft = true ∧
      ∀ e ∈ edits, (e.toFix.widen given).stop ≤ d.before.byteLength)

/-- A deletion at the end of the untouched part closes the gap in the same way in both texts. -/
theorem closeGap_of_continues {given rest left gone : Text} {d : Draft} {edits : List Edit}
    {e : Edit} (he : e ∈ edits) (htext : e.text = []) (hb : d.before = left ++ gone)
    (hl : left.byteLength = e.start) (hg : e.start + gone.byteLength = e.stop)
    (hgiven : given = d.before ++ rest) (hcont : Continues given rest d edits) :
    deletionRange given e.start e.stop = (e.start, e.stop) ∧
      Draft.closeGap left d.after = (left, d.after) := by
  have hsplit : given = left ++ gone ++ rest := by rw [hgiven, hb]
  have hend : d.before.byteLength = e.stop := by
    rw [hb, Text.byteLength_append]
    omega
  rcases hcont with ⟨rfl, hafter⟩ | hstop | ⟨hblank, hpunct, hstop⟩
  · rw [hafter]
    rcases deletionRange_cases hsplit hl hg with
      hrange | ⟨right', hr, -⟩ | ⟨left', -, -, -, hhead⟩
    · exact hrange
    · cases hr
    · cases hhead
  · exact absurd hend.symm (hstop e he htext)
  · obtain ⟨rest, rfl⟩ := List.head?_eq_some_iff.1 hblank
    rcases deletionRange_cases hsplit hl hg with
      ⟨hrange, hq⟩ | ⟨right', -, hrange, -⟩ | ⟨left', -, -, -, hhead⟩
    · refine ⟨hrange, ?_⟩
      rcases Draft.closeGap_cases left d.after with hq' | ⟨right', hr, -⟩ | ⟨left', rfl, -⟩
      · exact hq'
      · rw [hr] at hpunct
        cases hpunct
      · -- the blank at the end of `left` would have been taken in the given text
        simp [Draft.closeGap] at hq
    · -- the fix would take the blank behind the range once more
      have := hstop e he
      rw [Fix.widen_of_eq_nil given htext] at this
      simp only [Edit.toFix, hrange] at this
      omega
    · cases hhead

/-- **A fix does to the given text what its edit does to the text as edited so far.** -/
theorem replace?_widen {given rest : Text} {d d' : Draft} {edits : List Edit} {e : Edit}
    (he : e ∈ edits) (hgiven : given = d.before ++ rest) (hcont : Continues given rest d edits)
    (hmake : make? d e = some d') :
    d.replace? (e.toFix.widen given).start (e.toFix.widen given).stop (e.toFix.widen given).text
      = some d' := by
  obtain ⟨left, gone, right, hb, hl, hg, -, ⟨htext, rfl⟩ | ⟨htext, rfl⟩⟩ := make?_cases hmake
  · rw [Fix.widen_of_eq_nil given htext, Draft.replace?_eq_some_iff]
    simp only [Edit.toFix, htext, List.nil_append]
    -- behind the range is the rest of the untouched part, or its end
    by_cases hright : right = []
    · subst hright
      obtain ⟨hrange, hq⟩ :=
        closeGap_of_continues he htext (by simpa using hb) hl hg hgiven hcont
      rw [hrange, List.nil_append, hq]
      exact ⟨left, gone, [], hb, hl, hg, rfl⟩
    · have hsplit : given = left ++ gone ++ (right ++ rest) := by simp [hgiven, hb]
      have hgap := Draft.closeGap_append left rest hright
      rw [Draft.closeGap_append left d.after hright]
      rcases deletionRange_cases hsplit hl hg with
        ⟨hrange, hq⟩ | ⟨right', hr, hrange, hq, -⟩ | ⟨left', rfl, hrange, hq, -⟩
      · rw [hq, Prod.mk.injEq] at hgap
        rw [hrange, ← hgap.1, ← List.append_cancel_right hgap.2]
        exact ⟨left, gone, right, hb, hl, hg, rfl⟩
      · rw [hq, Prod.mk.injEq] at hgap
        obtain ⟨c, right, rfl⟩ := List.exists_cons_of_ne_nil hright
        obtain ⟨rfl, htail⟩ := List.cons.inj hr
        rw [hrange, ← hgap.1, ← List.append_cancel_right (htail.trans hgap.2)]
        refine ⟨left, gone ++ [' '], right, by simp [hb], hl, ?_, rfl⟩
        rw [Text.byteLength_append, ← Nat.add_assoc, hg]
        rfl
      · rw [hq, Prod.mk.injEq] at hgap
        rw [hrange, ← hgap.1, ← List.append_cancel_right hgap.2]
        refine ⟨left', ' ' :: gone, right, by simp [hb], rfl, ?_, rfl⟩
        rw [← hg, ← hl, Text.byteLength_cons, Text.byteLength_append, Nat.add_assoc]
        rfl
  · rw [Fix.widen_of_ne_nil given htext, Draft.replace?_eq_some_iff]
    exact ⟨left, gone, right, hb, hl, hg, rfl⟩

/-- **Applying the fixes of the edits that go in gives the draft that the edits give.** -/
theorem applyEach_widen_made {given rest : Text} {d : Draft} {edits : List Edit}
    (hgiven : given = d.before ++ rest)
    (hpair : ((made d edits).map fun p => p.2.toFix.widen given).Pairwise fun f g => g.precedes f)
    (htouch : ∀ p ∈ made d edits, ∀ q ∈ made d edits, p.2.text = [] → q.2.start ≠ p.2.stop)
    (hcont : Continues given rest d ((made d edits).map (·.2))) :
    applyEach d ((made d edits).map fun p => p.2.toFix.widen given)
      = ((applyAll d edits).1, (made d edits).length) := by
  -- `Continues` carries the induction: it holds at the end of the text, and every edit restores it
  induction edits generalizing rest d with
  | nil => rfl
  | cons e edits ih =>
    cases hd : make? d e with
    | none =>
      rw [made_cons_of_none _ hd] at hpair htouch hcont ⊢
      rw [applyAll_cons_of_none _ hd]
      exact ih hgiven hpair htouch hcont
    | some d' =>
      obtain ⟨-, gap, gone, right, hm⟩ := make?_eq_some hd
      rw [made_cons_of_some _ hd] at hpair htouch hcont ⊢
      rw [applyAll_cons_of_some _ hd, List.map_cons]
      obtain ⟨hfirst, hpair⟩ := List.pairwise_cons.1 hpair
      have hreplace := replace?_widen List.mem_cons_self hgiven hcont hd
      obtain ⟨left, _, _, _, hstart, _, hd'⟩ := (Draft.replace?_eq_some_iff _ _ _ _ _).1 hreplace
      have hnext : Continues given (gap ++ gone ++ right ++ rest) d'
          ((made d' edits).map (·.2)) := by
        rcases hm.gap_cases with rfl | ⟨rfl, htext, hafter, hpunct⟩
        · -- the edit took nothing in front of its range, and no deletion ends there
          refine .inr (.inl fun x hx hxtext => ?_)
          obtain ⟨p, hp, rfl⟩ := List.mem_map.1 hx
          have hne := htouch p (List.mem_cons_of_mem _ hp) (d, e) List.mem_cons_self hxtext
          rw [← List.append_nil d'.before, hm.start]
          exact hne.symm
        · -- the edit took a blank in front, which the given text still has there
          refine .inr (.inr ⟨rfl, hpunct, fun x hx => ?_⟩)
          obtain ⟨p, hp, rfl⟩ := List.mem_map.1 hx
          have hle := hfirst _ (List.mem_map_of_mem hp)
          rw [Fix.precedes, ← hstart] at hle
          rw [hd']
          exact hle
      rw [applyEach_cons_of_some _ hreplace, ih ?_ hpair ?_ hnext, List.length_cons]
      · rw [hgiven, hm.before]
        simp
      · exact fun p hp q hq =>
          htouch p (List.mem_cons_of_mem _ hp) q (List.mem_cons_of_mem _ hq)

/-! ## The fixes of a correction -/

/-- The widened ranges of the replacements that a correction keeps do not overlap. -/
def Apart (given : Text) (issues : List Issue) : Prop :=
  ((replacements (reconcile given issues).issues).map (Fix.widen given)).Pairwise Fix.apart

/-- No edit that a correction keeps starts where a deletion that it keeps ends. -/
def Untouched (given : Text) (issues : List Issue) : Prop :=
  ∀ f ∈ replacements (reconcile given issues).issues,
    ∀ g ∈ replacements (reconcile given issues).issues, f.text = [] → g.start ≠ f.stop

/-- What comes of a unit when the fixes of the reports of its correction are applied, and how many
of them are. -/
def fixed (given : Text) (kind : UnitKind) (issues : List Issue) : Text × Nat :=
  applyFixes given ((reconcile given issues).issues.map (Report.ofIssue given kind 0))

/-- The fixes of a correction agree with its text: all that are kept are applied, and up to white
space they lead to the corrected text, or to the given one if there is none. -/
def FixesAgree (given : Text) (kind : UnitKind) (issues : List Issue) : Prop :=
  (fixed given kind issues).2
      = ((reconcile given issues).issues.filter (·.replacement.isSome)).length ∧
    match (reconcile given issues).corrected with
    | some c => (fixed given kind issues).1.collapse = c
    | none => fixed given kind issues = (given, 0)

/-- The fixes of a correction are its replacements, widened. -/
theorem filterMap_fix_reconcile (given : Text) (kind : UnitKind) (issues : List Issue) :
    ((reconcile given issues).issues.map (Report.ofIssue given kind 0)).filterMap (·.fix)
      = (replacements (reconcile given issues).issues).map (Fix.widen given) := by
  rw [filterMap_fix_ofIssue]
  exact List.map_congr_left fun f _ => Fix.shift_zero _

theorem length_replacements (issues : List Issue) :
    (replacements issues).length = (issues.filter (·.replacement.isSome)).length := by
  rw [replacements, List.length_filterMap_eq_countP, ← List.countP_eq_length_filter]
  simp only [Option.isSome_map]

/-- The fixes of a correction cover something, in the given text and between characters. -/
theorem fits_widen_reconcile {given : Text} {issues : List Issue} {f : Fix}
    (hf : f ∈ (replacements (reconcile given issues).issues).map (Fix.widen given)) :
    f.start < f.stop ∧ (Text.slice? f.start f.stop given).isSome = true := by
  obtain ⟨g, hg, rfl⟩ := List.mem_map.1 hf
  obtain ⟨hlt, hslice⟩ := (kept_eq given issues).2.1 g hg
  obtain ⟨hstart, hstop, hwide⟩ := widen_of_slice? hslice
  exact ⟨by omega, hwide⟩

/-- All kept fixes are applied exactly if their widened ranges do not overlap. -/
theorem fixed_all_iff (given : Text) (kind : UnitKind) (issues : List Issue) :
    (fixed given kind issues).2
        = ((reconcile given issues).issues.filter (·.replacement.isSome)).length ↔
      Apart given issues := by
  have hfix := filterMap_fix_reconcile given kind issues
  have hall := @applyFixes_eq_length_iff given
    ((reconcile given issues).issues.map (Report.ofIssue given kind 0))
    (by rw [hfix]; exact fun f hf => fits_widen_reconcile hf)
  rw [hfix, List.length_map, length_replacements] at hall
  exact hall

/-- The fixes of a correction, if they do not overlap, are applied in the order in which the edits
were made. -/
theorem orderedFixes_reconcile {given : Text} {issues : List Issue} (kind : UnitKind)
    (h : Apart given issues) :
    orderedFixes ((reconcile given issues).issues.map (Report.ofIssue given kind 0))
        = (madeFor given issues).map (fun p => p.2.toFix.widen given) ∧
      ((madeFor given issues).map fun p => p.2.toFix.widen given).Pairwise
        fun f g => g.precedes f := by
  obtain ⟨horder, hrange, -⟩ := kept_eq given issues
  have hperm := replacements_reconcile_perm given issues
  obtain ⟨s, hs, -⟩ := visible_applyAll (.ofText given) (orderedEdits issues)
  have hpair := ((isSome_substitute?_iff _ _).1 (Option.isSome_iff_exists.2 ⟨s, hs⟩)).2
  have hwide : (((madeFor given issues).map (·.2.toFix)).reverse.map (Fix.widen given)).Pairwise
      Fix.precedes := by
    have hapart := h.perm (hperm.map (Fix.widen given)) Or.symm
    rw [List.pairwise_map] at hapart ⊢
    refine (hpair.and hapart).imp_of_mem fun {f g} hf hg hfg => ?_
    obtain ⟨hfg, hwide | hwide⟩ := hfg
    · exact hwide
    · -- a widened range holds its own, so the order cannot be the other one
      obtain ⟨hf₁, hf₂⟩ := hrange f (hperm.symm.subset hf)
      obtain ⟨hg₁, hg₂⟩ := hrange g (hperm.symm.subset hg)
      have := widen_of_slice? hf₂
      have := widen_of_slice? hg₂
      rw [Fix.precedes] at *
      omega
  have hrow : ((madeFor given issues).map (·.2.toFix)).reverse.map (Fix.widen given)
      = ((madeFor given issues).map fun p => p.2.toFix.widen given).reverse := by
    rw [List.map_reverse, List.map_map]
    rfl
  have hfix := filterMap_fix_reconcile given kind issues
  have heq := orderedFixes_eq_of_perm (hfix ▸ hperm.map (Fix.widen given)) hwide
    fun f hf => (fits_widen_reconcile ((hperm.map (Fix.widen given)).symm.subset hf)).1
  rw [hrow] at heq hwide
  exact ⟨by rw [heq, List.reverse_reverse], List.pairwise_reverse.1 hwide⟩

/-- Fixes that do not overlap only differ from the corrected text by white space, and if none of
them starts where a deletion ends, they lead to the text that was corrected. -/
theorem fixed_of_apart {given : Text} {issues : List Issue} (kind : UnitKind)
    (h : Apart given issues) :
    visible (fixed given kind issues).1
        = visible (applyAll (.ofText given) (orderedEdits issues)).1.text ∧
      (Untouched given issues →
        (fixed given kind issues).1 = (applyAll (.ofText given) (orderedEdits issues)).1.text) := by
  obtain ⟨hordered, hpair⟩ := orderedFixes_reconcile kind h
  rw [fixed, applyFixes]
  simp only
  rw [hordered]
  constructor
  · obtain ⟨s, hs, htext⟩ := visible_applyAll (.ofText given) (orderedEdits issues)
    have hwide : (substitute? ((madeFor given issues).map
        fun p => p.2.toFix.widen given).reverse given).isSome = true := by
      refine (isSome_substitute?_iff _ _).2 ⟨fun f hf => ?_, List.pairwise_reverse.2 hpair⟩
      obtain ⟨p, hp, rfl⟩ := List.mem_map.1 (List.mem_reverse.1 hf)
      refine (@fits_widen_reconcile given issues _ (List.mem_map_of_mem ?_)).2
      refine (replacements_reconcile_perm given issues).symm.subset (List.mem_reverse.2 ?_)
      exact List.mem_map_of_mem hp
    obtain ⟨s', hs'⟩ := Option.isSome_iff_exists.1 hwide
    have hrow : ((madeFor given issues).map fun p => p.2.toFix.widen given).reverse
        = ((madeFor given issues).map (·.2.toFix)).reverse.map (Fix.widen given) := by
      rw [List.map_reverse, List.map_map]
      rfl
    rw [(applyEach_of_substitute? (d := .ofText given) hs').1, htext]
    rw [hrow] at hs'
    simp only [Draft.after_ofText, List.append_nil]
    exact visible_substitute_widen (List.append_nil given).symm hs hs'
  · intro huntouched
    have htouch : ∀ p ∈ madeFor given issues, ∀ q ∈ madeFor given issues, p.2.text = [] →
        q.2.start ≠ p.2.stop := by
      have hmem : ∀ p ∈ madeFor given issues,
          p.2.toFix ∈ replacements (reconcile given issues).issues := fun p hp =>
        (replacements_reconcile_perm given issues).symm.subset
          (List.mem_reverse.2 (List.mem_map_of_mem hp))
      exact fun p hp q hq => huntouched _ (hmem p hp) _ (hmem q hq)
    rw [madeFor, applyEach_widen_made (List.append_nil given).symm hpair htouch (.inl ⟨rfl, rfl⟩)]

/-- Without a corrected text there is no fix. -/
theorem fixed_of_corrected_none {given : Text} {issues : List Issue} (kind : UnitKind)
    (h : (reconcile given issues).corrected = none) :
    fixed given kind issues = (given, 0) := by
  have hmade : madeFor given issues = [] := by
    rw [reconcile_corrected] at h
    split at h
    case isTrue hempty => exact List.isEmpty_iff.1 hempty
    case isFalse => cases h
  have hkept : replacements (reconcile given issues).issues = [] := by
    have hperm := replacements_reconcile_perm given issues
    rw [hmade] at hperm
    exact hperm.eq_nil
  rw [fixed, applyFixes, orderedFixes, filterMap_fix_reconcile, hkept]
  simp [applyEach]

/-- **When fixes and corrected text agree.**  All kept fixes are applied exactly if their widened
ranges do not overlap.  Then the outcome is the corrected text up to white space, and even the text
that was corrected if no kept edit starts where a kept deletion ends; without a corrected text,
nothing is applied. -/
theorem fixesAgree_iff (given : Text) (kind : UnitKind) (issues : List Issue) :
    ((fixed given kind issues).2
        = ((reconcile given issues).issues.filter (·.replacement.isSome)).length ↔
      Apart given issues) ∧
    (∀ c, (reconcile given issues).corrected = some c → Apart given issues →
      visible (fixed given kind issues).1 = visible c) ∧
    (Untouched given issues → (FixesAgree given kind issues ↔ Apart given issues)) ∧
    ((reconcile given issues).corrected = none → fixed given kind issues = (given, 0)) := by
  refine ⟨fixed_all_iff given kind issues, ?_, ?_, fixed_of_corrected_none kind⟩
  · intro c hc h
    rw [corrected_eq_collapse hc, Text.visible_collapse]
    exact (fixed_of_apart kind h).1
  · intro huntouched
    rw [FixesAgree, fixed_all_iff]
    refine ⟨And.left, fun h => ⟨h, ?_⟩⟩
    cases hc : (reconcile given issues).corrected with
    | none => exact fixed_of_corrected_none kind hc
    | some c => rw [corrected_eq_collapse hc, (fixed_of_apart kind h).2 huntouched]

/-- The deletion of a weak word. -/
def weakWordAt (start stop : Nat) : Issue where
  rule := .weakWord
  start := start
  stop := stop
  severity := .warning
  message := []
  replacement := some []

/-- The later of two deletions is made first. -/
theorem orderedEdits_weakWordAt {a b c d : Nat} (h : a < c) :
    orderedEdits [weakWordAt a b, weakWordAt c d] = [⟨1, c, d, []⟩, ⟨0, a, b, []⟩] := by
  have hrow : editsFrom 0 [weakWordAt a b, weakWordAt c d] = [⟨0, a, b, []⟩] ++ [⟨1, c, d, []⟩] :=
    rfl
  rw [orderedEdits, hrow, mergeSort_append_of_later
    (fun a b _ => laterFirst_trans (a.start, a.stop) (b.start, b.stop) _)
    (fun a b => laterFirst_total (a.start, a.stop) (b.start, b.stop))]
  · simp
  · intro e he f hf
    obtain rfl := List.mem_singleton.1 he
    obtain rfl := List.mem_singleton.1 hf
    rw [Bool.eq_false_iff, ne_eq, laterFirst_iff]
    simp only
    omega

/-- Of two weak words in front of punctuation, the fixes of both take the blank between them, and
only one is applied. -/
theorem not_fixesAgree_of_shared_blank :
    ¬ FixesAgree "x simply just.".toList .comment [weakWordAt 2 8, weakWordAt 9 13] := by
  intro h
  have hapart := (fixed_all_iff _ _ _).1 h.1
  rw [Apart, reconcile_issues, madeFor, orderedEdits_weakWordAt (by decide)] at hapart
  revert hapart
  decide

/-- Where one deletion starts at the end of another, ranges that do not overlap are not enough: the
report does not see that punctuation comes behind the first. -/
theorem not_fixesAgree_of_touching :
    Apart "a bc, d".toList [weakWordAt 2 3, weakWordAt 3 4] ∧
      ¬ FixesAgree "a bc, d".toList .comment [weakWordAt 2 3, weakWordAt 3 4] := by
  have hordered := @orderedEdits_weakWordAt 2 3 3 4 (by decide)
  have hmade : (madeFor "a bc, d".toList [weakWordAt 2 3, weakWordAt 3 4]).map
      (fun p => p.2.toFix.widen "a bc, d".toList) = [⟨3, 4, []⟩, ⟨2, 3, []⟩] := by
    rw [madeFor, hordered]
    decide
  have hapart : Apart "a bc, d".toList [weakWordAt 2 3, weakWordAt 3 4] := by
    rw [Apart, reconcile_issues, madeFor, hordered]
    decide
  refine ⟨hapart, fun h => ?_⟩
  have hcorrected : (reconcile "a bc, d".toList [weakWordAt 2 3, weakWordAt 3 4]).corrected
      = some "a, d".toList := by
    rw [reconcile_corrected, madeFor, hordered]
    decide
  have htext := h.2
  rw [hcorrected, fixed, applyFixes, (orderedFixes_reconcile .comment hapart).1, hmade] at htext
  revert htext
  decide

end CodeProse

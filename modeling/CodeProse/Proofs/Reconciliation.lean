/-
# What reconciliation keeps

Reconciling tries the edits of a list of issues one after the other, from the end of the text
backwards. `made` lists the edits that go in, each with the draft that it finds. One step splits the
untouched part around the range of its edit and takes at most one blank besides (`make?_eq_some`);
by induction over the row of edits, a run comes to a simultaneous substitution up to white space
(`visible_applyAll`), and an edit that does not go in either has no range of its own or reaches into
what one that did go in has taken (`blocked_of_not_made`).
-/
import CodeProse.Proofs.EditOrder
import CodeProse.Proofs.Substitution
import CodeProse.Proofs.Text.Collapse

namespace CodeProse

open Text (visible)

namespace Correction

/-! ## The edits that go in -/

/-- The edits that go into a draft when they are tried one after the other, each with the draft that
it finds. -/
def made : Draft → List Edit → List (Draft × Edit)
  | _, [] => []
  | d, e :: rest =>
    match make? d e with
    | some d' => (d, e) :: made d' rest
    | none => made d rest

/-- An edit as a fix of the text that it is about. -/
def Edit.toFix (e : Edit) : Fix :=
  ⟨e.start, e.stop, e.text⟩

theorem made_cons_of_some {d d' : Draft} {e : Edit} (rest : List Edit) (h : make? d e = some d') :
    made d (e :: rest) = (d, e) :: made d' rest := by
  rw [made, h]

theorem made_cons_of_none {d : Draft} {e : Edit} (rest : List Edit) (h : make? d e = none) :
    made d (e :: rest) = made d rest := by
  rw [made, h]

theorem applyAll_cons_of_some {d d' : Draft} {e : Edit} (rest : List Edit)
    (h : make? d e = some d') :
    applyAll d (e :: rest) = ((applyAll d' rest).1, e.place :: (applyAll d' rest).2) := by
  rw [applyAll, h]

theorem applyAll_cons_of_none {d : Draft} {e : Edit} (rest : List Edit) (h : make? d e = none) :
    applyAll d (e :: rest) = applyAll d rest := by
  rw [applyAll, h]

/-- The used places are those of the edits that go in. -/
theorem applyAll_places (d : Draft) (edits : List Edit) :
    (applyAll d edits).2 = (made d edits).map (·.2.place) := by
  induction edits generalizing d with
  | nil => rfl
  | cons e rest ih =>
    cases hd : make? d e with
    | none => rw [applyAll_cons_of_none _ hd, made_cons_of_none _ hd, ih]
    | some d' => rw [applyAll_cons_of_some _ hd, made_cons_of_some _ hd, ih, List.map_cons]

theorem made_sublist (d : Draft) (edits : List Edit) :
    ((made d edits).map (·.2)).Sublist edits := by
  induction edits generalizing d with
  | nil => exact .slnil
  | cons e rest ih =>
    cases hd : make? d e with
    | none =>
      rw [made_cons_of_none _ hd]
      exact (ih d).cons e
    | some d' =>
      rw [made_cons_of_some _ hd]
      exact (ih d').cons_cons e

/-! ## One edit -/

/-- What an edit takes of the untouched part of a draft starts where its range starts, or one blank
before that if the edit is a deletion that would leave this blank in front of punctuation. -/
def takenStart (d : Draft) (e : Edit) : Nat :=
  if e.text.isEmpty then (deletionRange d.text e.start e.stop).1 else e.start

/-- Making an edit on `d` leads to `d'`: of the untouched part it takes the range `gone` of the edit
and the text `gap` in front of it, and `right` is finished with it. -/
structure Makes (d : Draft) (e : Edit) (d' : Draft) (gap gone right : Text) : Prop where
  before : d.before = d'.before ++ gap ++ gone ++ right
  start : (d'.before ++ gap).byteLength = e.start
  stop : e.start + gone.byteLength = e.stop
  start_lt_stop : e.start < e.stop
  /-- The gap is empty, or the blank that a deletion would leave in front of punctuation. -/
  gap_cases : gap = [] ∨ gap = [' '] ∧ e.text = [] ∧ d'.after = right ++ d.after ∧
    d'.after.head?.any Draft.hugsLeft = true
  /-- No visible character is lost behind the range. -/
  after : visible d'.after = visible (e.text ++ right ++ d.after)

/-- An edit is made around its range, which is not empty: a deletion closes the gap, and any other
edit puts its text there. -/
theorem make?_cases {d d' : Draft} {e : Edit} (h : make? d e = some d') :
    ∃ left gone right, d.before = left ++ gone ++ right ∧ left.byteLength = e.start ∧
      e.start + gone.byteLength = e.stop ∧ e.start < e.stop ∧
      (e.text = [] ∧ d' = ⟨(Draft.closeGap left (right ++ d.after)).1,
          (Draft.closeGap left (right ++ d.after)).2⟩ ∨
        e.text ≠ [] ∧ d' = ⟨left, e.text ++ right ++ d.after⟩) := by
  rw [make?] at h
  split at h
  case isTrue hlt =>
    split at h
    case isTrue hempty =>
      obtain ⟨⟨left, right⟩, ha, rfl⟩ := Option.map_eq_some_iff.1 h
      obtain ⟨gone, hb, hl, hg⟩ := Draft.around?_eq_some ha
      exact ⟨left, gone, right, hb, hl, hg, hlt, .inl ⟨List.isEmpty_iff.1 hempty, rfl⟩⟩
    case isFalse hne =>
      obtain ⟨left, gone, right, hb, hl, hg, rfl⟩ := (Draft.replace?_eq_some_iff _ _ _ _ _).1 h
      exact ⟨left, gone, right, hb, hl, hg, hlt, .inr ⟨mt List.isEmpty_iff.2 hne, rfl⟩⟩
  case isFalse => cases h

/-- A deletion takes the range, and at most one blank in front of it or behind it. -/
theorem makes_of_closeGap {d : Draft} {e : Edit} {left gone right : Text} (hlt : e.start < e.stop)
    (htext : e.text = []) (hb : d.before = left ++ gone ++ right)
    (hl : left.byteLength = e.start) (hg : e.start + gone.byteLength = e.stop) :
    takenStart d e = (Draft.closeGap left (right ++ d.after)).1.byteLength ∧
      ∃ gap gone right', Makes d e ⟨(Draft.closeGap left (right ++ d.after)).1,
        (Draft.closeGap left (right ++ d.after)).2⟩ gap gone right' := by
  have hd := Draft.text_of_split hb
  rw [takenStart, htext]
  simp only [List.isEmpty_nil, if_true]
  rcases deletionRange_cases hd hl hg with
    ⟨hrange, hq⟩ | ⟨right', hr, hrange, hq, -⟩ | ⟨left', rfl, hrange, hq, hpunct⟩
  · rw [hrange, hq]
    refine ⟨hl.symm, [], gone, right, ?_⟩
    exact ⟨by simpa using hb, by simpa using hl, hg, hlt, .inl rfl, by simp [htext]⟩
  · rw [hrange, hq]
    refine ⟨hl.symm, [], gone, right, ?_⟩
    refine ⟨by simpa using hb, by simpa using hl, hg, hlt, .inl rfl, ?_⟩
    rw [htext, List.nil_append, hr, Text.visible_cons_of_isWhitespace _ Text.isWhitespace_blank]
  · rw [hrange, hq]
    refine ⟨rfl, [' '], gone, right, ?_⟩
    exact ⟨by simpa using hb, by simpa using hl, hg, hlt, .inr ⟨rfl, htext, rfl, hpunct⟩,
      by simp [htext]⟩

/-- **What one edit does.**  It takes its range, which is not empty, and perhaps one blank, and all
else stays. -/
theorem make?_eq_some {d d' : Draft} {e : Edit} (h : make? d e = some d') :
    takenStart d e = d'.before.byteLength ∧ ∃ gap gone right, Makes d e d' gap gone right := by
  obtain ⟨left, gone, right, hb, hl, hg, hlt, ⟨htext, rfl⟩ | ⟨htext, rfl⟩⟩ := make?_cases h
  · exact makes_of_closeGap hlt htext hb hl hg
  · refine ⟨by rw [takenStart, if_neg (mt List.isEmpty_iff.1 htext), hl], [], gone, right, ?_⟩
    exact ⟨by simpa using hb, by simpa using hl, hg, hlt, .inl rfl, by simp⟩

/-- An edit that covers something fails only where its range cannot be sliced out of the untouched
part. -/
theorem make?_eq_none_iff (d : Draft) (e : Edit) :
    make? d e = none ↔ e.stop ≤ e.start ∨ Text.slice? e.start e.stop d.before = none := by
  have hslice : d.around? e.start e.stop = none ↔ Text.slice? e.start e.stop d.before = none := by
    rw [← Option.isNone_iff_eq_none, ← Option.isNone_iff_eq_none, ← Option.not_isSome,
      ← Option.not_isSome, Draft.isSome_around?]
  rw [make?]
  split
  case isTrue hlt =>
    rw [← hslice, or_iff_right (by omega)]
    split
    · rw [Draft.delete?, Option.map_eq_none_iff]
    · rw [Draft.replace?, Option.map_eq_none_iff]
  case isFalse hge => simp only [true_iff]; omega

/-! ## A row of edits -/

/-- **What a run does.**  Up to white space, making a row of edits comes to the simultaneous
substitution of those that go in. -/
theorem visible_applyAll (d : Draft) (edits : List Edit) :
    ∃ s, substitute? ((made d edits).map (·.2.toFix)).reverse d.before = some s ∧
      visible (applyAll d edits).1.text = visible (s ++ d.after) := by
  induction edits generalizing d with
  | nil => exact ⟨d.before, rfl, rfl⟩
  | cons e rest ih =>
    cases hd : make? d e with
    | none =>
      rw [made_cons_of_none _ hd, applyAll_cons_of_none _ hd]
      exact ih d
    | some d' =>
      obtain ⟨-, gap, gone, right, hm⟩ := make?_eq_some hd
      obtain ⟨s, hs, htext⟩ := ih d'
      have hgap : visible gap = [] := by
        rcases hm.gap_cases with rfl | ⟨rfl, -⟩ <;> simp [visible]
      rw [made_cons_of_some _ hd, applyAll_cons_of_some _ hd]
      refine ⟨s ++ gap ++ e.text ++ right, ?_, ?_⟩
      · rw [List.map_cons, List.reverse_cons, substitute?, substituteFrom_concat_eq_some_iff]
        refine ⟨d'.before ++ gap, gone, right, s ++ gap, hm.before, ?_, hm.stop,
          substituteFrom_append_right gap hs, rfl⟩
        rw [Nat.zero_add, hm.start]
        rfl
      · rw [htext, Text.visible_append, hm.after]
        simp [hgap]

/-- The drafts that the edits of a row find begin as the text does that the row is about. -/
theorem before_prefix_of_made {d : Draft} {edits : List Edit} {p : Draft × Edit}
    (hp : p ∈ made d edits) : p.1.before <+: d.before := by
  induction edits generalizing d with
  | nil => simp [made] at hp
  | cons e rest ih =>
    cases hd : make? d e with
    | none =>
      rw [made_cons_of_none _ hd] at hp
      exact ih hp
    | some d' =>
      rw [made_cons_of_some _ hd] at hp
      rcases List.mem_cons.1 hp with rfl | hp
      · exact List.prefix_refl _
      · obtain ⟨-, gap, gone, right, hm⟩ := make?_eq_some hd
        refine (ih hp).trans ⟨gap ++ gone ++ right, ?_⟩
        rw [hm.before]
        simp

/-- The order in which edits are made. -/
def madeFirst (a b : Edit) : Prop :=
  laterFirst (a.start, a.stop) (b.start, b.stop) = true

/-- An edit reaches into what another one has taken from a text. -/
def Blocks (p : Draft × Edit) (e : Edit) : Prop :=
  e.start < p.2.stop ∧ takenStart p.1 p.2 < e.stop

/-- An edit that cannot be made covers nothing, or its range cannot be sliced out of the text, or it
reaches behind the untouched part. -/
theorem beyond_of_make?_eq_none {given : Text} {d : Draft} {e : Edit} (hbegins : d.before <+: given)
    (hd : make? d e = none) :
    e.stop ≤ e.start ∨ Text.slice? e.start e.stop given = none ∨
      d.before.byteLength < e.stop ∧ e.stop ≤ given.byteLength := by
  rcases (make?_eq_none_iff d e).1 hd with hle | hslice
  · exact .inl hle
  · refine .inr ?_
    cases hgiven : Text.slice? e.start e.stop given with
    | none => exact .inl rfl
    | some gone =>
      refine .inr ⟨Nat.lt_of_not_le fun hle => ?_, (Text.le_of_slice?_eq_some hgiven).2⟩
      rw [Text.slice?_of_prefix hbegins hgiven hle] at hslice
      cases hslice

/-- **Why an edit does not go in.**  It covers nothing, or its range cannot be sliced out of the
text, or it reaches into what an edit that did go in has taken.  The draft is in the middle of a
run: `earlier` are the edits made so far, and the last of them ends the untouched part. -/
theorem blocked_of_not_made {given : Text} {d : Draft} {earlier : List (Draft × Edit)}
    {edits : List Edit} (hsorted : edits.Pairwise madeFirst) (hbegins : d.before <+: given)
    (hend : d.before = given ∨ ∃ p ∈ earlier, takenStart p.1 p.2 = d.before.byteLength ∧
      ∀ e ∈ edits, e.start < p.2.stop)
    {e : Edit} (he : e ∈ edits) (hnot : e.place ∉ (made d edits).map (·.2.place)) :
    e.stop ≤ e.start ∨ Text.slice? e.start e.stop given = none ∨
      ∃ p ∈ earlier ++ made d edits, Blocks p e := by
  -- by induction on the edits still to be made, of which `earlier` blocks those that meet it
  induction edits generalizing d earlier with
  | nil => cases he
  | cons e₀ rest ih =>
    obtain ⟨hfirst, hsorted⟩ := List.pairwise_cons.1 hsorted
    cases hd : make? d e₀ with
    | none =>
      rw [made_cons_of_none _ hd] at hnot ⊢
      rcases List.mem_cons.1 he with rfl | he
      · rcases beyond_of_make?_eq_none hbegins hd with hle | hslice | ⟨hbeyond, hinside⟩
        · exact .inl hle
        · exact .inr (.inl hslice)
        · -- the range lies in the text, but not in its untouched part
          refine .inr (.inr ?_)
          rcases hend with hwhole | ⟨p, hp, htaken, hlt⟩
          · rw [hwhole] at hbeyond
            omega
          · refine ⟨p, List.mem_append_left _ hp, hlt e List.mem_cons_self, ?_⟩
            omega
      · refine ih hsorted hbegins ?_ he hnot
        rcases hend with hwhole | ⟨p, hp, htaken, hlt⟩
        · exact .inl hwhole
        · exact .inr ⟨p, hp, htaken, fun x hx => hlt x (List.mem_cons_of_mem e₀ hx)⟩
    | some d' =>
      obtain ⟨htaken, gap, gone, right, hm⟩ := make?_eq_some hd
      rw [made_cons_of_some _ hd, List.map_cons, List.mem_cons, not_or] at hnot
      rcases List.mem_cons.1 he with rfl | he
      · exact absurd rfl hnot.1
      · have hbegins' : d'.before <+: given := by
          refine List.IsPrefix.trans ⟨gap ++ gone ++ right, ?_⟩ hbegins
          rw [hm.before]
          simp
        have hlt : ∀ x ∈ rest, x.start < e₀.stop := by
          intro x hx
          have := (laterFirst_iff _ _).1 (hfirst x hx)
          have := hm.start_lt_stop
          simp only at *
          omega
        have hnext := @ih d' (earlier ++ [(d, e₀)]) hsorted hbegins'
          (.inr ⟨(d, e₀), by simp, htaken, hlt⟩) he hnot.2
        rw [made_cons_of_some _ hd]
        simpa using hnext

/-! ## Places -/

/-- The edits that a list of issues asks for: those of the issues with a replacement. -/
theorem mem_editsFrom_iff (place : Nat) (issues : List Issue) (e : Edit) :
    e ∈ editsFrom place issues ↔
      ∃ k i, issues[k]? = some i ∧ i.replacement = some e.text ∧ e.place = place + k ∧
        e.start = i.start ∧ e.stop = i.stop := by
  induction issues generalizing place with
  | nil => simp [editsFrom]
  | cons i rest ih =>
    have htail : e ∈ editsFrom (place + 1) rest ↔
        ∃ k j, (i :: rest)[k + 1]? = some j ∧ j.replacement = some e.text ∧
          e.place = place + (k + 1) ∧ e.start = j.start ∧ e.stop = j.stop := by
      rw [ih]
      simp only [List.getElem?_cons_succ, Nat.add_assoc, Nat.add_comm 1]
    have hsplit : (∃ k j, (i :: rest)[k]? = some j ∧ j.replacement = some e.text ∧
          e.place = place + k ∧ e.start = j.start ∧ e.stop = j.stop) ↔
        (i.replacement = some e.text ∧ e.place = place ∧ e.start = i.start ∧ e.stop = i.stop) ∨
          e ∈ editsFrom (place + 1) rest := by
      rw [htail]
      constructor
      · rintro ⟨k, j, hj, h⟩
        cases k with
        | zero =>
          simp only [List.getElem?_cons_zero, Option.some.injEq] at hj
          subst hj
          exact .inl h
        | succ k => exact .inr ⟨k, j, hj, h⟩
      · rintro (h | ⟨k, j, hj, h⟩)
        · exact ⟨0, i, rfl, h⟩
        · exact ⟨k + 1, j, hj, h⟩
    rw [hsplit, editsFrom]
    cases hr : i.replacement with
    | none => simp
    | some text =>
      simp only [List.mem_cons, Option.some.injEq]
      refine or_congr ⟨?_, ?_⟩ Iff.rfl
      · rintro rfl
        exact ⟨rfl, rfl, rfl, rfl⟩
      · obtain ⟨p, s, t, x⟩ := e
        rintro ⟨rfl, rfl, rfl, rfl⟩
        rfl

/-- The places of edits grow along the list of issues. -/
theorem pairwise_place_editsFrom (place : Nat) (issues : List Issue) :
    (editsFrom place issues).Pairwise fun a b => a.place < b.place := by
  induction issues generalizing place with
  | nil => exact .nil
  | cons i rest ih =>
    rw [editsFrom]
    split
    · refine List.pairwise_cons.2 ⟨fun e he => ?_, ih _⟩
      obtain ⟨k, -, -, -, hplace, -⟩ := (mem_editsFrom_iff _ _ _).1 he
      simp only
      omega
    · exact ih _

theorem getElem?_keepUsed (used : List Nat) (place : Nat) (issues : List Issue) (k : Nat) :
    (keepUsed used place issues)[k]? = issues[k]?.map fun i =>
      if used.contains (place + k) then i else { i with replacement := none } := by
  induction issues generalizing place k with
  | nil => simp [keepUsed]
  | cons i rest ih =>
    rw [keepUsed]
    cases k with
    | zero => simp
    | succ k =>
      rw [List.getElem?_cons_succ, List.getElem?_cons_succ, ih, Nat.add_assoc, Nat.add_comm 1]

theorem length_keepUsed (used : List Nat) (place : Nat) (issues : List Issue) :
    (keepUsed used place issues).length = issues.length := by
  induction issues generalizing place with
  | nil => rfl
  | cons i rest ih => rw [keepUsed, List.length_cons, List.length_cons, ih]

/-! ## The kept edits -/

/-- The fixes that the issues of a list stand for: the replacements that they still have. -/
def replacements (issues : List Issue) : List Fix :=
  issues.filterMap fun i => i.replacement.map fun text => ⟨i.start, i.stop, text⟩

/-- The replacements that are kept are those of the edits with a used place. -/
theorem replacements_keepUsed (used : List Nat) (place : Nat) (issues : List Issue) :
    replacements (keepUsed used place issues)
      = ((editsFrom place issues).filter fun e => used.contains e.place).map Edit.toFix := by
  induction issues generalizing place with
  | nil => rfl
  | cons i rest ih =>
    have htail := ih (place + 1)
    rw [keepUsed, editsFrom, replacements, List.filterMap_cons]
    rw [replacements] at htail
    rw [htail]
    cases hu : used.contains place with
    | true =>
      simp only [if_true]
      cases hr : i.replacement with
      | none => rfl
      | some text => simp only [Option.map_some, List.filter_cons, hu, if_true]; rfl
    | false =>
      simp only [Bool.false_eq_true, if_false, Option.map_none]
      cases hr : i.replacement with
      | none => rfl
      | some text => simp only [List.filter_cons, hu, Bool.false_eq_true, if_false]

/-- A part of a row of edits is what its places single out of the row. -/
theorem filter_place_eq_of_sublist {part row : List Edit} (h : part.Sublist row)
    (hplace : row.Pairwise fun a b => a.place ≠ b.place) :
    row.filter (fun e => (part.map (·.place)).contains e.place) = part := by
  induction h with
  | slnil => rfl
  | @cons l₁ l₂ e h ih =>
    obtain ⟨hne, hplace⟩ := List.pairwise_cons.1 hplace
    have he : (l₁.map (·.place)).contains e.place = false := by
      simp only [List.contains_eq_mem, List.mem_map, decide_eq_false_iff_not, not_exists, not_and]
      exact fun x hx => (hne x (h.subset hx)).symm
    rw [List.filter_cons, he, if_neg (by simp), ih hplace]
  | @cons_cons l₁ l₂ e h ih =>
    obtain ⟨hne, hplace⟩ := List.pairwise_cons.1 hplace
    have hrest : l₂.filter (fun x => ((e :: l₁).map (·.place)).contains x.place) = l₁ := by
      refine (List.filter_congr fun x hx => ?_).trans (ih hplace)
      have := (hne x hx).symm
      simp [this]
    rw [List.filter_cons, hrest]
    simp

/-- The edits that go in when a text is reconciled, each with the draft that it finds. -/
def madeFor (given : Text) (issues : List Issue) : List (Draft × Edit) :=
  made (.ofText given) (orderedEdits issues)

theorem pairwise_orderedEdits (issues : List Issue) :
    (orderedEdits issues).Pairwise madeFirst :=
  List.pairwise_mergeSort (fun a b _ => laterFirst_trans (a.start, a.stop) (b.start, b.stop) _)
    (fun a b => laterFirst_total (a.start, a.stop) (b.start, b.stop)) _

theorem mem_orderedEdits_iff (issues : List Issue) (e : Edit) :
    e ∈ orderedEdits issues ↔ e ∈ editsFrom 0 issues :=
  List.mem_mergeSort

theorem reconcile_issues (given : Text) (issues : List Issue) :
    (reconcile given issues).issues
      = keepUsed ((madeFor given issues).map (·.2.place)) 0 issues := by
  rw [reconcile, applyAll_places]
  simp only [madeFor]
  split <;> rfl

/-- There is a corrected text if an edit goes in. -/
theorem reconcile_corrected (given : Text) (issues : List Issue) :
    (reconcile given issues).corrected
      = if (madeFor given issues).isEmpty then none
        else some (applyAll (.ofText given) (orderedEdits issues)).1.text.collapse := by
  rw [madeFor, reconcile, applyAll_places]
  simp only [List.isEmpty_map]
  split <;> rfl

/-- The replacements that a correction keeps are those of the edits that went in. -/
theorem replacements_reconcile_perm (given : Text) (issues : List Issue) :
    (replacements (reconcile given issues).issues).Perm
      ((madeFor given issues).map (·.2.toFix)).reverse := by
  have hplace : (orderedEdits issues).Pairwise fun a b => a.place ≠ b.place :=
    ((pairwise_place_editsFrom 0 issues).imp Nat.ne_of_lt).perm
      (List.mergeSort_perm _ _).symm Ne.symm
  have hfilter :=
    filter_place_eq_of_sublist (made_sublist (.ofText given) (orderedEdits issues)) hplace
  rw [List.map_map] at hfilter
  have hperm : (orderedEdits issues).Perm (editsFrom 0 issues) := List.mergeSort_perm _ _
  rw [reconcile_issues, replacements_keepUsed]
  refine ((hperm.symm.filter _).map Edit.toFix).trans ?_
  refine List.Perm.trans ?_ (List.reverse_perm _).symm
  simp only [madeFor, Function.comp_def] at hfilter ⊢
  rw [hfilter, List.map_map]
  exact .refl _

/-- A kept replacement is one that an issue came with. -/
theorem exists_issue_of_mem_replacements {given : Text} {issues : List Issue} {f : Fix}
    (hf : f ∈ replacements (reconcile given issues).issues) :
    ∃ i ∈ issues, i.start = f.start ∧ i.stop = f.stop ∧ i.replacement = some f.text := by
  have hmade := (replacements_reconcile_perm given issues).subset hf
  obtain ⟨p, hp, rfl⟩ := List.mem_map.1 (List.mem_reverse.1 hmade)
  have he := (made_sublist _ _).subset (List.mem_map_of_mem hp)
  obtain ⟨k, i, hi, hr, -, hstart, hstop⟩ :=
    (mem_editsFrom_iff _ _ _).1 ((mem_orderedEdits_iff _ _).1 he)
  exact ⟨i, List.mem_of_getElem? hi, hstart.symm, hstop.symm, hr⟩

/-! ## The correction as a whole -/

/-- The edits that go in are made on the drafts that they find. -/
theorem isSome_make?_of_made {d : Draft} {edits : List Edit} {p : Draft × Edit}
    (hp : p ∈ made d edits) : ∃ d', make? p.1 p.2 = some d' := by
  induction edits generalizing d with
  | nil => simp [made] at hp
  | cons e rest ih =>
    cases hd : make? d e with
    | none =>
      rw [made_cons_of_none _ hd] at hp
      exact ih hp
    | some d' =>
      rw [made_cons_of_some _ hd] at hp
      rcases List.mem_cons.1 hp with rfl | hp
      · exact ⟨d', hd⟩
      · exact ih hp

/-- A deletion leaves a blank dangling before punctuation in the draft that it finds: its range has
a blank in front and punctuation behind. -/
def LeavesDangling (d : Draft) (e : Edit) : Prop :=
  e.text = [] ∧ ∃ lead gone tail, d.text = lead ++ [' '] ++ gone ++ tail ∧
    (lead ++ [' ']).byteLength = e.start ∧ e.start + gone.byteLength = e.stop ∧
    tail.head?.any Draft.hugsLeft = true

/-- An edit that goes in takes its own range, and one blank of the given text before it if this
blank would be left dangling. -/
theorem takenStart_cases {given : Text} {issues : List Issue} {p : Draft × Edit}
    (hp : p ∈ madeFor given issues) :
    takenStart p.1 p.2 = p.2.start ∨
      (takenStart p.1 p.2 + 1 = p.2.start ∧ LeavesDangling p.1 p.2 ∧
        Text.slice? (takenStart p.1 p.2) p.2.start given = some [' ']) := by
  obtain ⟨d', hd⟩ := isSome_make?_of_made hp
  obtain ⟨htaken, gap, gone, right, hm⟩ := make?_eq_some hd
  have hstart := hm.start
  rcases hm.gap_cases with rfl | ⟨rfl, htext, hafter, hpunct⟩
  · left
    rw [htaken, ← hstart, List.append_nil]
  · right
    have hone : takenStart p.1 p.2 + 1 = p.2.start := by
      rw [htaken, ← hstart, Text.byteLength_append]
      rfl
    refine ⟨hone, ⟨htext, d'.before, gone, d'.after, ?_, hstart, hm.stop, hpunct⟩, ?_⟩
    · rw [Draft.text, hm.before, hafter]
      simp
    · obtain ⟨rest, hgiven⟩ := before_prefix_of_made hp
      refine (Text.slice?_eq_some_iff _ _ _ _).2
        ⟨d'.before, gone ++ right ++ rest, ?_, htaken.symm, hone⟩
      rw [hm.before] at hgiven
      rw [show given = (Draft.ofText given).before from rfl, ← hgiven]
      simp

/-- Reconciling the issues of a given text loses and invents nothing. -/
structure Faithful (given : Text) (issues : List Issue) (r : Correction) : Prop where
  /-- No issue is lost or added. -/
  length_eq : r.issues.length = issues.length
  /-- An issue stays as it is, but for its replacement. -/
  issue_cases : ∀ (k : Nat) (i : Issue), issues[k]? = some i →
    r.issues[k]? = some i ∨ r.issues[k]? = some { i with replacement := none }
  /-- There is a corrected text if a replacement is kept. -/
  corrected_iff : r.corrected.isSome = true ↔ ∃ i ∈ r.issues, i.replacement.isSome = true
  /-- The kept edits cover something, in the text and between characters. -/
  range : ∀ f ∈ replacements r.issues,
    f.start < f.stop ∧ (Text.slice? f.start f.stop given).isSome = true
  /-- No two of the kept edits overlap. -/
  disjoint : (replacements r.issues).Pairwise fun f g => f.precedes g ∨ g.precedes f
  /-- The edits that were made are the kept ones. -/
  mem_iff : ∀ f, f ∈ replacements r.issues ↔ ∃ p ∈ madeFor given issues, p.2.toFix = f
  /-- Each takes its range from the given text, and besides at most a blank that would be left
  dangling before punctuation. -/
  taken : ∀ p ∈ madeFor given issues, takenStart p.1 p.2 = p.2.start ∨
    (takenStart p.1 p.2 + 1 = p.2.start ∧ LeavesDangling p.1 p.2 ∧
      Text.slice? (takenStart p.1 p.2) p.2.start given = some [' '])
  /-- A replacement is dropped only if it covers nothing, if its range cannot be sliced out of the
  text, or if it meets what a kept edit takes. -/
  dropped : ∀ (k : Nat) (i j : Issue), issues[k]? = some i → i.replacement.isSome = true →
    r.issues[k]? = some j → j.replacement = none →
    i.stop ≤ i.start ∨ Text.slice? i.start i.stop given = none ∨
      ∃ p ∈ madeFor given issues, i.start < p.2.stop ∧ takenStart p.1 p.2 < i.stop
  /-- The corrected text has the visible characters of the given one with the kept edits in place of
  their ranges, and its white space is collapsed. -/
  corrected : ∀ c, r.corrected = some c →
    Text.IsCollapsed c ∧ ∃ s, substitute? (inTextOrder (replacements r.issues)) given = some s ∧
      visible c = visible s

/-- The kept edits, in the order of the text. -/
theorem kept_eq (given : Text) (issues : List Issue) :
    inTextOrder (replacements (reconcile given issues).issues)
        = ((madeFor given issues).map (·.2.toFix)).reverse ∧
      (∀ f ∈ replacements (reconcile given issues).issues,
        f.start < f.stop ∧ (Text.slice? f.start f.stop given).isSome = true) ∧
      (replacements (reconcile given issues).issues).Pairwise
        fun f g => f.precedes g ∨ g.precedes f := by
  have hperm := replacements_reconcile_perm given issues
  obtain ⟨s, hs, -⟩ := visible_applyAll (.ofText given) (orderedEdits issues)
  obtain ⟨hslice, hpair⟩ := (isSome_substitute?_iff _ _).1 (Option.isSome_iff_exists.2 ⟨s, hs⟩)
  have hpos : ∀ f ∈ ((madeFor given issues).map (·.2.toFix)).reverse, f.start < f.stop := by
    intro f hf
    obtain ⟨p, hp, rfl⟩ := List.mem_map.1 (List.mem_reverse.1 hf)
    obtain ⟨d', hd⟩ := isSome_make?_of_made hp
    obtain ⟨-, gap, gone, right, hm⟩ := make?_eq_some hd
    exact hm.start_lt_stop
  refine ⟨inTextOrder_eq_of_perm hperm hpair hpos, fun f hf => ?_, ?_⟩
  · have hf := hperm.subset hf
    exact ⟨hpos f hf, hslice f hf⟩
  · exact (hpair.imp Or.inl).perm hperm.symm Or.symm

theorem getElem?_reconcile (given : Text) (issues : List Issue) (k : Nat) :
    (reconcile given issues).issues[k]? = issues[k]?.map fun i =>
      if ((madeFor given issues).map (·.2.place)).contains k then i
      else { i with replacement := none } := by
  rw [reconcile_issues, getElem?_keepUsed, Nat.zero_add]

/-- Reconciling changes nothing of an issue but its replacement. -/
theorem map_reconcile {α : Type} {f : Issue → α}
    (hf : ∀ i : Issue, f { i with replacement := none } = f i) (given : Text)
    (issues : List Issue) : (reconcile given issues).issues.map f = issues.map f := by
  refine List.ext_getElem? fun k => ?_
  rw [List.getElem?_map, List.getElem?_map, getElem?_reconcile, Option.map_map]
  cases issues[k]? with
  | none => rfl
  | some i =>
    simp only [Option.map_some, Function.comp_apply]
    split
    · rfl
    · rw [hf]

/-- There is a corrected text exactly if a replacement is kept. -/
theorem isSome_corrected_iff (given : Text) (issues : List Issue) :
    (reconcile given issues).corrected.isSome = true ↔
      ∃ i ∈ (reconcile given issues).issues, i.replacement.isSome = true := by
  have hempty : (madeFor given issues).isEmpty
      = (replacements (reconcile given issues).issues).isEmpty := by
    rw [Bool.eq_iff_iff, List.isEmpty_iff_length_eq_zero, List.isEmpty_iff_length_eq_zero,
      (replacements_reconcile_perm given issues).length_eq, List.length_reverse, List.length_map]
  rw [reconcile_corrected, hempty]
  constructor
  · intro h
    split at h
    · cases h
    · rename_i hne
      obtain ⟨f, hf⟩ := List.exists_mem_of_ne_nil _ (mt List.isEmpty_iff.2 hne)
      obtain ⟨i, hi, hf⟩ := List.mem_filterMap.1 hf
      exact ⟨i, hi, by rw [← Option.isSome_map, hf]; rfl⟩
  · rintro ⟨i, hi, hr⟩
    obtain ⟨text, htext⟩ := Option.isSome_iff_exists.1 hr
    have hf : (⟨i.start, i.stop, text⟩ : Fix) ∈ replacements (reconcile given issues).issues :=
      List.mem_filterMap.2 ⟨i, hi, by rw [htext]; rfl⟩
    rw [if_neg]
    · rfl
    · exact fun h => List.ne_nil_of_mem hf (List.isEmpty_iff.1 h)

/-- A replacement is dropped only if it could never be made, or if it meets what a kept edit
takes. -/
theorem blocked_of_dropped {given : Text} {issues : List Issue} {k : Nat} {i j : Issue}
    (hi : issues[k]? = some i) (hr : i.replacement.isSome = true)
    (hj : (reconcile given issues).issues[k]? = some j) (hnone : j.replacement = none) :
    i.stop ≤ i.start ∨ Text.slice? i.start i.stop given = none ∨
      ∃ p ∈ madeFor given issues, i.start < p.2.stop ∧ takenStart p.1 p.2 < i.stop := by
  obtain ⟨text, htext⟩ := Option.isSome_iff_exists.1 hr
  rw [getElem?_reconcile, hi, Option.map_some, Option.some.injEq] at hj
  have hnot : k ∉ (madeFor given issues).map (·.2.place) := by
    intro hused
    rw [if_pos (List.contains_iff_mem.2 hused)] at hj
    rw [← hj, htext] at hnone
    cases hnone
  have he : (⟨k, i.start, i.stop, text⟩ : Edit) ∈ orderedEdits issues := by
    rw [mem_orderedEdits_iff, mem_editsFrom_iff]
    exact ⟨k, i, hi, htext, (Nat.zero_add k).symm, rfl, rfl⟩
  exact @blocked_of_not_made given (.ofText given) [] (orderedEdits issues)
    (pairwise_orderedEdits issues) (List.prefix_refl _) (.inl rfl) _ he hnot

/-- **Issues that keep apart are kept as they are,** if none of them is a deletion. -/
theorem reconcile_issues_of_apart {given : Text} {issues : List Issue}
    (happart : issues.Pairwise fun i j => i.stop ≤ j.start ∨ j.stop ≤ i.start)
    (hcovers : ∀ i ∈ issues, Text.Covers given i.start i.stop)
    (hwritten : ∀ i ∈ issues, i.replacement ≠ some []) :
    (reconcile given issues).issues = issues := by
  refine List.ext_getElem? fun k => ?_
  have hj := getElem?_reconcile given issues k
  cases hi : issues[k]? with
  | none => rw [hj, hi, Option.map_none]
  | some i =>
    rw [hi, Option.map_some] at hj
    split at hj
    case isTrue => exact hj
    case isFalse hunused =>
      cases hr : i.replacement with
      | none =>
        rw [hj, ← hr]
      | some r =>
        -- what blocks the issue is an edit of another one, as its own would have been made
        exfalso
        have hlt := (hcovers i (List.mem_of_getElem? hi)).lt
        obtain ⟨gone, -, hslice⟩ := hcovers i (List.mem_of_getElem? hi)
        rcases blocked_of_dropped hi (by rw [hr]; rfl) hj rfl with hle | hnone | ⟨p, hp, hmeets⟩
        · omega
        · rw [hslice] at hnone
          cases hnone
        · have he := (made_sublist _ _).subset (List.mem_map_of_mem (f := (·.2)) hp)
          obtain ⟨l, other, hother, hwrites, hplace, hstart, hstop⟩ :=
            (mem_editsFrom_iff _ _ _).1 ((mem_orderedEdits_iff _ _).1 he)
          have hne : p.2.text ≠ [] := by
            intro hnil
            rw [hnil] at hwrites
            exact hwritten other (List.mem_of_getElem? hother) hwrites
          rw [takenStart, if_neg (mt List.isEmpty_iff.1 hne), hstart, hstop] at hmeets
          have hkl : k ≠ l := by
            rintro rfl
            rw [Nat.zero_add] at hplace
            exact hunused (List.contains_iff_mem.2 (hplace ▸ List.mem_map_of_mem hp))
          obtain ⟨hk, rfl⟩ := List.getElem?_eq_some_iff.1 hi
          obtain ⟨hl, rfl⟩ := List.getElem?_eq_some_iff.1 hother
          have hranges := List.pairwise_iff_getElem.1 happart
          rcases Nat.lt_or_gt_of_ne hkl with hbefore | hbehind
          · have := hranges k l hk hl hbefore
            omega
          · have := hranges l k hl hk hbehind
            omega

/-- The corrected text is the text as edited in the end, with its white space collapsed. -/
theorem corrected_eq_collapse {given c : Text} {issues : List Issue}
    (h : (reconcile given issues).corrected = some c) :
    c = (applyAll (.ofText given) (orderedEdits issues)).1.text.collapse := by
  rw [reconcile_corrected] at h
  split at h
  case isTrue => cases h
  case isFalse => exact (Option.some.inj h).symm

/-- **Reconciliation loses and invents nothing.** -/
theorem faithful_reconcile (given : Text) (issues : List Issue) :
    Faithful given issues (reconcile given issues) := by
  obtain ⟨horder, hrange, hdisjoint⟩ := kept_eq given issues
  constructor
  case length_eq => rw [reconcile_issues, length_keepUsed]
  case issue_cases =>
    intro k i hi
    rw [getElem?_reconcile, hi, Option.map_some]
    split
    · exact .inl rfl
    · exact .inr rfl
  case corrected_iff => exact isSome_corrected_iff given issues
  case range => exact hrange
  case disjoint => exact hdisjoint
  case mem_iff =>
    intro f
    rw [(replacements_reconcile_perm given issues).mem_iff, List.mem_reverse, List.mem_map]
  case taken => exact fun p hp => takenStart_cases hp
  case dropped => exact fun k i j hi hr hj hnone => blocked_of_dropped hi hr hj hnone
  case corrected =>
    intro c hc
    obtain ⟨s, hs, htext⟩ := visible_applyAll (.ofText given) (orderedEdits issues)
    rw [corrected_eq_collapse hc]
    refine ⟨Text.isCollapsed_collapse _, s, ?_, ?_⟩
    · rw [horder]
      exact hs
    · rw [Text.visible_collapse, htext]
      simp [Draft.ofText]

end Correction

end CodeProse

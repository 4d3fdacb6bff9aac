/-
# Beads of a corrected text

The text as edited in the end has the visible characters of the substitution that the edits come to;
more is true of edits that end in visible characters. Closing the gap of a deletion then takes a
blank only next to another one, at the very start or in front of punctuation, where no bead tells of
it (`beads_of_make?`), and edits further in front leave the other blank (`keepsGap_of_made`). So the
corrected text has the beads of the substitution (`beads_corrected`).
-/
import CodeProse.Proofs.Reconciliation
import CodeProse.Proofs.Text.Atom
import Mathlib.Data.List.Basic

namespace CodeProse

open Text (beads beads_append_blank_of_gap beads_append_blank_of_hugsLeft)
open Unicode

namespace Correction

/-! ## One edit -/

/-- The range from `start` to `stop` of a text ends in a visible character. -/
def EndsVisible (given : Text) (start stop : Nat) : Prop :=
  ∀ gone, Text.slice? start stop given = some gone → gone.getLast?.any isWhitespace = false

/-- A text that is put in the place of another one is empty or ends in a blank if the other is or
does. -/
structure KeepsGap (t s : Text) : Prop where
  nil : t = [] → s = []
  blank : t.getLast? = some ' ' → s.getLast? = some ' '

/-- **What one edit does to beads.**  Whatever comes in the place of the untouched part, the edit
comes to putting its text in the place of its range. -/
theorem beads_of_make? {d d' : Draft} {e : Edit} (h : make? d e = some d') :
    ∃ gap gone right, d.before = d'.before ++ gap ++ gone ++ right ∧
      (d'.before ++ gap).byteLength = e.start ∧ e.start + gone.byteLength = e.stop ∧
      ∀ s, KeepsGap d'.before s →
        beads (s ++ d'.after) = beads (s ++ gap ++ e.text ++ right ++ d.after) := by
  obtain ⟨left, gone, right, hb, hl, hg, -, ⟨hempty, rfl⟩ | ⟨-, rfl⟩⟩ := make?_cases h
  · rw [hempty]
    rcases Draft.closeGap_cases left (right ++ d.after) with
      hq | ⟨right', hr, hq, hleft⟩ | ⟨left', rfl, hpunct, hq⟩
    · -- nothing else goes
      simp only [hq]
      exact ⟨[], gone, right, by simpa using hb, by simpa using hl, hg, fun s _ => by simp⟩
    · -- the blank behind the range goes
      simp only [hq]
      refine ⟨[], gone, right, by simpa using hb, by simpa using hl, hg, fun s hs => ?_⟩
      have hgap : s = [] ∨ ∃ c, s.getLast? = some c ∧ isWhitespace c = true := by
        rcases hleft with hlast | hnil
        · exact .inr ⟨' ', hs.blank hlast, Text.isWhitespace_blank⟩
        · exact .inl (hs.nil hnil)
      have htext : s ++ [] ++ [] ++ right ++ d.after = s ++ ' ' :: right' := by
        rw [← hr]
        simp
      rw [htext, beads_append_blank_of_gap _ hgap]
    · -- the blank in front of the range goes
      simp only [hq]
      refine ⟨[' '], gone, right, by simpa using hb, by simpa using hl, hg, fun s _ => ?_⟩
      obtain ⟨c, rest, hr⟩ : ∃ c rest, right ++ d.after = c :: rest := by
        refine List.exists_cons_of_ne_nil ?_
        intro hnil
        rw [hnil] at hpunct
        cases hpunct
      have htext : s ++ [' '] ++ [] ++ right ++ d.after = s ++ ' ' :: c :: rest := by
        rw [← hr]
        simp
      rw [hr] at hpunct
      rw [htext, hr, beads_append_blank_of_hugsLeft _ _ (by simpa using hpunct)]
  · exact ⟨[], gone, right, by simpa using hb, by simpa using hl, hg, fun s _ => by simp⟩

/-! ## A row of edits -/

/-- A row of fixes that end in visible characters does not touch the blank that a text ends in. -/
theorem keepsGap_of_substitute? {fixes : List Fix} {t s : Text} (h : substitute? fixes t = some s)
    (hpos : ∀ f ∈ fixes, f.start < f.stop)
    (hends : ∀ f ∈ fixes, EndsVisible t f.start f.stop) : KeepsGap t s := by
  have hfits := (@fits_of_substituteFrom fixes [] t s h).1
  constructor
  case nil =>
    rintro rfl
    cases fixes with
    | nil => exact (Option.some.inj h).symm
    | cons f rest =>
      exfalso
      obtain ⟨gone, hgone⟩ := Option.isSome_iff_exists.1 (hfits f List.mem_cons_self).2
      have hle := (Text.le_of_slice?_eq_some hgone).2
      have := hpos f List.mem_cons_self
      simp at hle
      omega
  case blank =>
    intro hlast
    obtain ⟨t, rfl⟩ := List.getLast?_eq_some_iff.1 hlast
    have hbefore : ∀ f ∈ fixes, f.stop ≤ 0 + Text.byteLength t := by
      intro f hf
      obtain ⟨gone, hgone⟩ := Option.isSome_iff_exists.1 (hfits f hf).2
      have hvisible := hends f hf gone hgone
      obtain ⟨a, b, ht, ha, hg⟩ := (Text.slice?_eq_some_iff _ _ _ _).1 hgone
      by_cases hb : b = []
      · -- the range would end in the blank
        exfalso
        have := hpos f hf
        have hne : gone ≠ [] := by
          rintro rfl
          simp at hg
          omega
        subst hb
        have hend := congrArg List.getLast? ht
        rw [List.nil_append, List.append_nil, hlast, List.getLast?_append_of_ne_nil _ hne] at hend
        rw [← hend] at hvisible
        exact absurd hvisible (by decide)
      · obtain ⟨b, x, rfl⟩ := (List.eq_nil_or_concat b).resolve_left hb
        have ht : t ++ [' '] = (a ++ gone ++ b) ++ [x] := by simpa using ht
        obtain ⟨rfl, -⟩ := List.append_inj' ht rfl
        simp only [Text.byteLength_append]
        omega
    rw [substitute?, ← List.append_nil fixes] at h
    obtain ⟨s₁, s₂, rfl, -, hs₂⟩ := substituteFrom_append h hbefore (by simp)
    rw [← Option.some.inj hs₂]
    simp

theorem EndsVisible.of_begins {t given : Text} {start stop : Nat}
    (h : EndsVisible given start stop) (ht : t <+: given) : EndsVisible t start stop := by
  intro gone hgone
  obtain ⟨more, rfl⟩ := ht
  obtain ⟨a, b, rfl, ha, hg⟩ := (Text.slice?_eq_some_iff _ _ _ _).1 hgone
  exact h gone ((Text.slice?_eq_some_iff _ _ _ _).2
    ⟨a, b ++ more, by simp only [List.append_assoc], ha, hg⟩)

/-- Edits that end in visible characters leave the blank that a text ends in. -/
theorem keepsGap_of_made {d : Draft} {edits : List Edit}
    (hends : ∀ e ∈ edits, EndsVisible d.before e.start e.stop) {s : Text}
    (h : substitute? ((made d edits).map (·.2.toFix)).reverse d.before = some s) :
    KeepsGap d.before s := by
  have hmade : ∀ f ∈ ((made d edits).map (·.2.toFix)).reverse,
      ∃ p ∈ made d edits, p.2.toFix = f := by
    intro f hf
    exact List.mem_map.1 (List.mem_reverse.1 hf)
  refine keepsGap_of_substitute? h ?_ ?_
  · intro f hf
    obtain ⟨p, hp, rfl⟩ := hmade f hf
    obtain ⟨d', hd⟩ := isSome_make?_of_made hp
    obtain ⟨-, gap, gone, right, hm⟩ := make?_eq_some hd
    exact hm.start_lt_stop
  · intro f hf
    obtain ⟨p, hp, rfl⟩ := hmade f hf
    exact hends p.2 ((made_sublist d edits).subset (List.mem_map_of_mem hp))

/-- **What a run does to beads.**  Making a row of edits that end in visible characters comes to the
simultaneous substitution of those that go in. -/
theorem beads_applyAll (d : Draft) (edits : List Edit)
    (hends : ∀ e ∈ edits, EndsVisible d.before e.start e.stop) :
    ∃ s, substitute? ((made d edits).map (·.2.toFix)).reverse d.before = some s ∧
      beads (applyAll d edits).1.text = beads (s ++ d.after) := by
  induction edits generalizing d with
  | nil => exact ⟨d.before, rfl, rfl⟩
  | cons e rest ih =>
    have hrest : ∀ e ∈ rest, EndsVisible d.before e.start e.stop := fun e he =>
      hends e (List.mem_cons_of_mem _ he)
    cases hd : make? d e with
    | none =>
      rw [made_cons_of_none _ hd, applyAll_cons_of_none _ hd]
      exact ih d hrest
    | some d' =>
      obtain ⟨gap, gone, right, hbefore, hstart, hstop, hbeads⟩ := beads_of_make? hd
      have hends' : ∀ e ∈ rest, EndsVisible d'.before e.start e.stop := fun e he =>
        (hrest e he).of_begins ⟨gap ++ gone ++ right, by rw [hbefore]; simp⟩
      obtain ⟨s, hs, htext⟩ := ih d' hends'
      rw [made_cons_of_some _ hd, applyAll_cons_of_some _ hd]
      refine ⟨s ++ gap ++ e.text ++ right, ?_, ?_⟩
      · rw [List.map_cons, List.reverse_cons, substitute?, substituteFrom_concat_eq_some_iff]
        refine ⟨d'.before ++ gap, gone, right, s ++ gap, hbefore, ?_, hstop,
          substituteFrom_append_right gap hs, rfl⟩
        rw [Nat.zero_add, hstart]
        rfl
      · rw [htext, hbeads s (keepsGap_of_made hends' hs)]

/-! ## The correction -/

/-- **The corrected text has the beads of the substitution.**  That is the given text with the kept
edits in place of their ranges, all of which must end in visible characters. -/
theorem beads_corrected {given c : Text} {issues : List Issue}
    (hends : ∀ i ∈ issues, i.replacement.isSome = true → EndsVisible given i.start i.stop)
    (h : (reconcile given issues).corrected = some c) :
    Text.IsCollapsed c ∧ ∃ s, substitute? (inTextOrder
      (replacements (reconcile given issues).issues)) given = some s ∧ beads c = beads s := by
  have hedits : ∀ e ∈ orderedEdits issues,
      EndsVisible (Draft.ofText given).before e.start e.stop := by
    intro e he
    obtain ⟨k, i, hi, hr, -, hstart, hstop⟩ :=
      (mem_editsFrom_iff _ _ _).1 ((mem_orderedEdits_iff _ _).1 he)
    rw [hstart, hstop]
    exact hends i (List.mem_of_getElem? hi) (by rw [hr]; rfl)
  obtain ⟨s, hs, htext⟩ := beads_applyAll (.ofText given) (orderedEdits issues) hedits
  rw [corrected_eq_collapse h]
  refine ⟨Text.isCollapsed_collapse _, s, ?_, ?_⟩
  · rw [(kept_eq given issues).1]
    exact hs
  · rw [Text.beads_collapse, htext, Draft.after_ofText, List.append_nil]

end Correction

end CodeProse

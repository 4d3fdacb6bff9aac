/-
# Simultaneous substitution

`substitute? fixes t` puts the texts of fixes in the place of their ranges, all at once: the ranges
are those of the text as given. The fixes come in the order of the text and must not overlap; that
the substitution succeeds says just that (`isSome_substitute?_iff`).

Applying fixes one after the other from the end of a text backwards comes to the same:
`appliedFixes` are those that go in, and the result is their substitution
(`applyEach_eq_substitute`). All of a row of fixes go in if and only if the row can be substituted
(`applyEach_eq_length_iff`).
-/
import CodeProse.Proofs.Draft
import CodeProse.Report

namespace CodeProse

/-! ## Substitution -/

/-- Substitution in a text that starts at `offset`. -/
def substituteFrom (offset : Nat) : List Fix → Text → Option Text
  | [], t => some t
  | f :: rest, t =>
    if offset ≤ f.start ∧ f.start ≤ f.stop then
      ((Draft.ofText t).around? (f.start - offset) (f.stop - offset)).bind fun p =>
        (substituteFrom f.stop rest p.2).map fun later => p.1 ++ f.text ++ later
    else none

/-- A text with the ranges of fixes replaced, all at once; fails unless the fixes are in the order
of the text, do not overlap and have ranges that lie in the text, between characters. -/
def substitute? (fixes : List Fix) (t : Text) : Option Text :=
  substituteFrom 0 fixes t

@[simp] theorem substituteFrom_nil (offset : Nat) (t : Text) :
    substituteFrom offset [] t = some t := rfl

/-- The first fix splits the text, and the others go into what follows it. -/
theorem substituteFrom_cons_eq_some_iff (offset : Nat) (f : Fix) (rest : List Fix) (t s : Text) :
    substituteFrom offset (f :: rest) t = some s ↔
      ∃ left gone right later, t = left ++ gone ++ right ∧ offset + left.byteLength = f.start ∧
        f.start + gone.byteLength = f.stop ∧ substituteFrom f.stop rest right = some later ∧
        s = left ++ f.text ++ later := by
  rw [substituteFrom]
  constructor
  · intro h
    split at h
    case isTrue hle =>
      obtain ⟨⟨left, right⟩, ha, h⟩ := Option.bind_eq_some_iff.1 h
      obtain ⟨later, hl, rfl⟩ := Option.map_eq_some_iff.1 h
      obtain ⟨gone, hb, hs, hg⟩ := Draft.around?_eq_some ha
      exact ⟨left, gone, right, later, hb, by omega, by omega, hl, rfl⟩
    case isFalse => cases h
  · rintro ⟨left, gone, right, later, rfl, hs, hg, hl, rfl⟩
    have ha : (Draft.ofText (left ++ gone ++ right)).around? (f.start - offset) (f.stop - offset)
        = some (left, right) :=
      (Draft.around?_eq_some_iff _ _ _ _ _).2 ⟨gone, rfl, by omega, by omega⟩
    rw [if_pos (by omega), ha]
    simp [hl]

/-- What follows the last fix may go on. -/
theorem substituteFrom_append_right {offset : Nat} {fixes : List Fix} {t s : Text} (more : Text)
    (h : substituteFrom offset fixes t = some s) :
    substituteFrom offset fixes (t ++ more) = some (s ++ more) := by
  induction fixes generalizing offset t s with
  | nil => simp_all
  | cons f rest ih =>
    obtain ⟨left, gone, right, later, rfl, hs, hg, hl, rfl⟩ :=
      (substituteFrom_cons_eq_some_iff _ _ _ _ _).1 h
    exact (substituteFrom_cons_eq_some_iff _ _ _ _ _).2
      ⟨left, gone, right ++ more, later ++ more, by simp, hs, hg, ih hl, by simp⟩

/-- What precedes the first fix may be preceded by more. -/
theorem substituteFrom_append_left {offset : Nat} {fixes : List Fix} {t s : Text} (lead : Text)
    (h : substituteFrom (offset + lead.byteLength) fixes t = some s) :
    substituteFrom offset fixes (lead ++ t) = some (lead ++ s) := by
  cases fixes with
  | nil => simp_all
  | cons f rest =>
    obtain ⟨left, gone, right, later, rfl, hs, hg, hl, rfl⟩ :=
      (substituteFrom_cons_eq_some_iff _ _ _ _ _).1 h
    refine (substituteFrom_cons_eq_some_iff _ _ _ _ _).2
      ⟨lead ++ left, gone, right, later, by simp, ?_, hg, hl, by simp⟩
    rw [Text.byteLength_append, ← hs, Nat.add_assoc]

/-- The last fix splits the text, and the others go into what precedes it. -/
theorem substituteFrom_concat_eq_some_iff (offset : Nat) (fixes : List Fix) (f : Fix) (t s : Text) :
    substituteFrom offset (fixes ++ [f]) t = some s ↔
      ∃ left gone right earlier, t = left ++ gone ++ right ∧ offset + left.byteLength = f.start ∧
        f.start + gone.byteLength = f.stop ∧ substituteFrom offset fixes left = some earlier ∧
        s = earlier ++ f.text ++ right := by
  induction fixes generalizing offset t s with
  | nil => simp [substituteFrom_cons_eq_some_iff]
  | cons g rest ih =>
    rw [List.cons_append, substituteFrom_cons_eq_some_iff]
    constructor
    · rintro ⟨left, gone, right, later, rfl, hs, hg, hl, rfl⟩
      obtain ⟨left', gone', right', earlier, rfl, hs', hg', hl', rfl⟩ := (ih _ _ _).1 hl
      refine ⟨left ++ gone ++ left', gone', right', left ++ g.text ++ earlier, by simp, ?_, hg', ?_,
        by simp⟩
      · simp only [Text.byteLength_append]
        omega
      · exact (substituteFrom_cons_eq_some_iff _ _ _ _ _).2
          ⟨left, gone, left', earlier, rfl, hs, hg, hl', rfl⟩
    · rintro ⟨left', gone', right', earlier, rfl, hs', hg', hl', rfl⟩
      obtain ⟨left, gone, right, later, rfl, hs, hg, hl, rfl⟩ :=
        (substituteFrom_cons_eq_some_iff _ _ _ _ _).1 hl'
      refine ⟨left, gone, right ++ gone' ++ right', later ++ f.text ++ right', by simp, hs, hg, ?_,
        by simp⟩
      refine (ih _ _ _).2 ⟨right, gone', right', later, rfl, ?_, hg', hl, rfl⟩
      simp only [Text.byteLength_append] at hs'
      omega

/-- The first fix is made where it stands. -/
theorem substituteFrom_cons_eq_some {offset : Nat} {f : Fix} {rest : List Fix}
    {left gone right s : Text} (hl : offset + left.byteLength = f.start)
    (hg : f.start + gone.byteLength = f.stop)
    (h : substituteFrom offset (f :: rest) (left ++ gone ++ right) = some s) :
    ∃ later, s = left ++ f.text ++ later ∧ substituteFrom f.stop rest right = some later := by
  obtain ⟨left', gone', right', later, ht, hl', hg', hlater, rfl⟩ :=
    (substituteFrom_cons_eq_some_iff _ _ _ _ _).1 h
  rw [List.append_assoc, List.append_assoc] at ht
  obtain ⟨rfl, hright⟩ := Text.append_inj ht (by omega)
  obtain ⟨rfl, rfl⟩ := Text.append_inj hright (by omega)
  exact ⟨later, rfl, hlater⟩

/-- A single fix is made where it stands. -/
theorem substituteFrom_singleton {offset : Nat} {f : Fix} {left gone right s : Text}
    (hl : offset + left.byteLength = f.start) (hg : f.start + gone.byteLength = f.stop)
    (h : substituteFrom offset [f] (left ++ gone ++ right) = some s) :
    s = left ++ f.text ++ right := by
  obtain ⟨later, rfl, hlater⟩ := substituteFrom_cons_eq_some hl hg h
  rw [Option.some.inj hlater]

/-- Two rows of fixes of which one stays in the first part of a text and the other one in the second
part are made in each part on its own. -/
theorem substituteFrom_append {offset : Nat} {l₁ l₂ : List Fix} {t₁ t₂ s : Text}
    (h : substituteFrom offset (l₁ ++ l₂) (t₁ ++ t₂) = some s)
    (h₁ : ∀ f ∈ l₁, f.stop ≤ offset + t₁.byteLength)
    (h₂ : ∀ f ∈ l₂, offset + t₁.byteLength ≤ f.start) :
    ∃ s₁ s₂, s = s₁ ++ s₂ ∧ substituteFrom offset l₁ t₁ = some s₁ ∧
      substituteFrom (offset + t₁.byteLength) l₂ t₂ = some s₂ := by
  induction l₁ generalizing offset t₁ s with
  | nil =>
    cases l₂ with
    | nil => exact ⟨t₁, t₂, (Option.some.inj h).symm, rfl, rfl⟩
    | cons f l₂ =>
      obtain ⟨left, gone, right, later, ht, hl, hg, hs, rfl⟩ :=
        (substituteFrom_cons_eq_some_iff _ _ _ _ _).1 h
      have hstart := h₂ f List.mem_cons_self
      -- the range begins behind the first part, so `left` is that part and some more
      obtain ⟨m, rfl, rfl⟩ := Text.append_split_of_le (ht.trans (List.append_assoc ..)) (by omega)
      refine ⟨t₁, m ++ f.text ++ later, by simp, rfl, ?_⟩
      refine (substituteFrom_cons_eq_some_iff _ _ _ _ _).2
        ⟨m, gone, right, later, by simp, ?_, hg, hs, rfl⟩
      rw [Text.byteLength_append] at hl
      omega
  | cons f l₁ ih =>
    obtain ⟨left, gone, right, later, ht, hl, hg, hs, rfl⟩ :=
      (substituteFrom_cons_eq_some_iff _ _ _ _ _).1 h
    have hstop := h₁ f List.mem_cons_self
    -- the range ends in the first part, which goes on with `m`
    obtain ⟨m, rfl, rfl⟩ := Text.append_split_of_le ht.symm
      (by rw [Text.byteLength_append]; omega)
    have hend : f.stop + m.byteLength = offset + (left ++ gone ++ m).byteLength := by
      simp only [Text.byteLength_append]
      omega
    obtain ⟨s₁, s₂, rfl, hs₁, hs₂⟩ := ih hs
      (fun g hg => by rw [hend]; exact h₁ g (List.mem_cons_of_mem f hg))
      (fun g hg => by rw [hend]; exact h₂ g hg)
    rw [hend] at hs₂
    refine ⟨left ++ f.text ++ s₁, s₂, by simp, ?_, hs₂⟩
    exact (substituteFrom_cons_eq_some_iff _ _ _ _ _).2
      ⟨left, gone, m, s₁, rfl, hl, hg, hs₁, rfl⟩

/-- A substitution brings in no characters but those of the fixes. -/
theorem mem_of_substituteFrom {offset : Nat} {fixes : List Fix} {t s : Text}
    (h : substituteFrom offset fixes t = some s) {c : Char} (hc : c ∈ s) :
    c ∈ t ∨ ∃ f ∈ fixes, c ∈ f.text := by
  induction fixes generalizing offset t s with
  | nil =>
    rw [Option.some.inj h]
    exact .inl hc
  | cons f rest ih =>
    obtain ⟨left, gone, right, later, rfl, -, -, hl, rfl⟩ :=
      (substituteFrom_cons_eq_some_iff _ _ _ _ _).1 h
    rcases List.mem_append.1 hc with hc | hc
    · rcases List.mem_append.1 hc with hc | hc
      · exact .inl (by simp [hc])
      · exact .inr ⟨f, List.mem_cons_self, hc⟩
    · rcases ih hl hc with hc | ⟨g, hg, hc⟩
      · exact .inl (by simp [hc])
      · exact .inr ⟨g, List.mem_cons_of_mem f hg, hc⟩

/-! ## When a row of fixes can be substituted -/

/-- The end of the range of a fix comes before that of another begins. -/
def Fix.precedes (f g : Fix) : Prop :=
  f.stop ≤ g.start

instance (f g : Fix) : Decidable (f.precedes g) :=
  inferInstanceAs (Decidable (f.stop ≤ g.start))

/-- Where a row of fixes is substituted, each range can be sliced out of the text, and each fix
precedes those that follow. -/
theorem fits_of_substituteFrom {fixes : List Fix} {lead t s : Text}
    (h : substituteFrom lead.byteLength fixes t = some s) :
    (∀ f ∈ fixes, lead.byteLength ≤ f.start ∧
        (Text.slice? f.start f.stop (lead ++ t)).isSome = true) ∧
      fixes.Pairwise Fix.precedes := by
  -- what the first fix has passed joins the lead, so that the ranges still count from its start
  induction fixes generalizing lead t s with
  | nil => simp
  | cons f rest ih =>
    obtain ⟨left, gone, right, later, rfl, hs, hg, hl, rfl⟩ :=
      (substituteFrom_cons_eq_some_iff _ _ _ _ _).1 h
    have hstop : f.stop = (lead ++ left ++ gone).byteLength := by
      simp only [Text.byteLength_append]
      omega
    have htext : lead ++ (left ++ gone ++ right) = lead ++ left ++ gone ++ right := by simp
    rw [hstop] at hl
    obtain ⟨hrest, hpair⟩ := ih hl
    rw [htext]
    refine ⟨?_, List.pairwise_cons.2 ⟨?_, hpair⟩⟩
    · intro g hgm
      rcases List.mem_cons.1 hgm with rfl | hgm
      · refine ⟨by omega, Option.isSome_iff_exists.2 ⟨gone, ?_⟩⟩
        exact (Text.slice?_eq_some_iff _ _ _ _).2
          ⟨lead ++ left, right, rfl, by simp only [Text.byteLength_append]; omega, by omega⟩
      · obtain ⟨hge, hslice⟩ := hrest g hgm
        exact ⟨by simp only [Text.byteLength_append] at hge; omega, hslice⟩
    · intro g hgm
      have := (hrest g hgm).1
      rw [Fix.precedes]
      omega

/-- A row of fixes whose ranges can be sliced out of a text, each of which precedes those that
follow, can be substituted. -/
theorem exists_substituteFrom {fixes : List Fix} {lead t : Text}
    (hall : ∀ f ∈ fixes, lead.byteLength ≤ f.start ∧
      (Text.slice? f.start f.stop (lead ++ t)).isSome = true)
    (hpair : fixes.Pairwise Fix.precedes) :
    ∃ s, substituteFrom lead.byteLength fixes t = some s := by
  induction fixes generalizing lead t with
  | nil => exact ⟨t, rfl⟩
  | cons f rest ih =>
    obtain ⟨hfirst, hpair⟩ := List.pairwise_cons.1 hpair
    obtain ⟨hge, hslice⟩ := hall f List.mem_cons_self
    obtain ⟨gone, hslice⟩ := Option.isSome_iff_exists.1 hslice
    obtain ⟨a, right, ht, ha, hg⟩ := (Text.slice?_eq_some_iff _ _ _ _).1 hslice
    -- the range begins behind the lead, so the lead ends inside the part before the range
    obtain ⟨left, rfl, rfl⟩ := Text.append_split_of_le (ht.trans (List.append_assoc ..)) (by omega)
    have hstop : f.stop = (lead ++ left ++ gone).byteLength := by
      simp only [Text.byteLength_append] at ha ⊢
      omega
    have hrest : ∀ g ∈ rest, (lead ++ left ++ gone).byteLength ≤ g.start ∧
        (Text.slice? g.start g.stop (lead ++ left ++ gone ++ right)).isSome = true := by
      intro g hgm
      rw [← hstop]
      refine ⟨hfirst g hgm, ?_⟩
      simpa using (hall g (List.mem_cons_of_mem f hgm)).2
    obtain ⟨later, hl⟩ := ih hrest hpair
    rw [← hstop] at hl
    refine ⟨left ++ f.text ++ later, (substituteFrom_cons_eq_some_iff _ _ _ _ _).2
      ⟨left, gone, right, later, by simp, ?_, hg, hl, rfl⟩⟩
    rw [← ha, Text.byteLength_append]

/-- A row of fixes can be substituted exactly if each range can be sliced out of the text and each
fix precedes those that follow. -/
theorem isSome_substitute?_iff (fixes : List Fix) (t : Text) :
    (substitute? fixes t).isSome = true ↔
      (∀ f ∈ fixes, (Text.slice? f.start f.stop t).isSome = true) ∧
        fixes.Pairwise Fix.precedes := by
  rw [Option.isSome_iff_exists]
  constructor
  · rintro ⟨s, hs⟩
    obtain ⟨hall, hpair⟩ := @fits_of_substituteFrom fixes [] t s hs
    exact ⟨fun f hf => (hall f hf).2, hpair⟩
  · rintro ⟨hall, hpair⟩
    exact @exists_substituteFrom fixes [] t (fun f hf => ⟨Nat.zero_le _, hall f hf⟩) hpair

/-- In a row of fixes that cover something and precede each other, the start tells which one it is.
-/
theorem Fix.eq_of_start_eq {fixes : List Fix} (hpair : fixes.Pairwise Fix.precedes)
    (hpos : ∀ f ∈ fixes, f.start < f.stop) {f g : Fix} (hf : f ∈ fixes) (hg : g ∈ fixes)
    (h : f.start = g.start) : f = g := by
  have hne : fixes.Pairwise fun a b => a.start ≠ b.start := by
    refine hpair.imp_of_mem fun {a b} ha _ hab => ?_
    have := hpos a ha
    rw [Fix.precedes] at hab
    omega
  refine List.Pairwise.forall_of_forall_of_flip (R := fun a b => a.start = b.start → a = b)
    (fun _ _ _ => rfl) (hne.imp fun hab heq => absurd heq hab) ?_ hf hg h
  exact hne.imp fun hab heq => absurd heq.symm hab

/-- Fixes in the order of the text. -/
def inTextOrder (fixes : List Fix) : List Fix :=
  fixes.mergeSort fun a b => a.start ≤ b.start

/-- A row of fixes that cover something and precede each other is what its fixes come to when they
are put in the order of the text. -/
theorem inTextOrder_eq_of_perm {fixes row : List Fix} (hperm : fixes.Perm row)
    (hpair : row.Pairwise Fix.precedes) (hpos : ∀ f ∈ row, f.start < f.stop) :
    inTextOrder fixes = row := by
  have hsort : (inTextOrder fixes).Perm fixes := List.mergeSort_perm _ _
  have hsorted : (inTextOrder fixes).Pairwise fun a b => a.start ≤ b.start := by
    refine List.Pairwise.imp of_decide_eq_true (List.pairwise_mergeSort ?_ ?_ fixes)
    · simp only [decide_eq_true_eq]
      omega
    · simp only [Bool.or_eq_true, decide_eq_true_eq]
      omega
  have hrow : row.Pairwise fun a b => a.start ≤ b.start := by
    refine hpair.imp_of_mem fun {f g} hf _ hfg => ?_
    have := hpos f hf
    rw [Fix.precedes] at hfg
    omega
  refine List.Perm.eq_of_pairwise ?_ hsorted hrow (hsort.trans hperm)
  intro f g hf hg hfg hgf
  have hf : f ∈ row := (hsort.trans hperm).subset hf
  exact Fix.eq_of_start_eq hpair hpos hf hg (Nat.le_antisymm hfg hgf)

/-! ## Applying fixes from the end backwards -/

/-- The fixes that go into a draft when they are tried one after the other. -/
def appliedFixes : Draft → List Fix → List Fix
  | _, [] => []
  | d, f :: rest =>
    match d.replace? f.start f.stop f.text with
    | some d' => f :: appliedFixes d' rest
    | none => appliedFixes d rest

theorem applyEach_cons_of_some {d d' : Draft} {f : Fix} (rest : List Fix)
    (h : d.replace? f.start f.stop f.text = some d') :
    applyEach d (f :: rest) = ((applyEach d' rest).1, (applyEach d' rest).2 + 1) := by
  rw [applyEach, h]

theorem applyEach_cons_of_none {d : Draft} {f : Fix} (rest : List Fix)
    (h : d.replace? f.start f.stop f.text = none) : applyEach d (f :: rest) = applyEach d rest := by
  rw [applyEach, h]

/-- Rows of fixes are applied one after the other, and their numbers add up. -/
theorem applyEach_append (d : Draft) (l₁ l₂ : List Fix) :
    applyEach d (l₁ ++ l₂)
      = ((applyEach (applyEach d l₁).1 l₂).1,
        (applyEach d l₁).2 + (applyEach (applyEach d l₁).1 l₂).2) := by
  induction l₁ generalizing d with
  | nil => simp [applyEach]
  | cons f rest ih =>
    rw [List.cons_append]
    cases hd : d.replace? f.start f.stop f.text with
    | none => rw [applyEach_cons_of_none _ hd, applyEach_cons_of_none _ hd, ih]
    | some d' =>
      rw [applyEach_cons_of_some _ hd, applyEach_cons_of_some _ hd, ih]
      simp only [Prod.mk.injEq, true_and]
      omega

theorem appliedFixes_sublist (d : Draft) (fixes : List Fix) :
    (appliedFixes d fixes).Sublist fixes := by
  induction fixes generalizing d with
  | nil => exact .slnil
  | cons f rest ih =>
    rw [appliedFixes]
    split
    · exact (ih _).cons_cons f
    · exact (ih _).cons f

/-- A replacement splits the untouched part around its range. -/
theorem Draft.replace?_eq_some_iff (d d' : Draft) (start stop : Nat) (new : Text) :
    d.replace? start stop new = some d' ↔
      ∃ left gone right, d.before = left ++ gone ++ right ∧ left.byteLength = start ∧
        start + gone.byteLength = stop ∧ d' = ⟨left, new ++ right ++ d.after⟩ := by
  rw [Draft.replace?, Option.map_eq_some_iff]
  constructor
  · rintro ⟨⟨left, right⟩, ha, rfl⟩
    obtain ⟨gone, hb, hl, hg⟩ := Draft.around?_eq_some ha
    exact ⟨left, gone, right, hb, hl, hg, rfl⟩
  · rintro ⟨left, gone, right, hb, hl, hg, rfl⟩
    exact ⟨(left, right), (Draft.around?_eq_some_iff _ _ _ _ _).2 ⟨gone, hb, hl, hg⟩, rfl⟩

/-- A replacement fails only where its range cannot be sliced out of the untouched part. -/
theorem Draft.replace?_eq_none_iff (d : Draft) (start stop : Nat) (new : Text) :
    d.replace? start stop new = none ↔ Text.slice? start stop d.before = none := by
  rw [Draft.replace?, Option.map_eq_none_iff, ← Option.isNone_iff_eq_none,
    ← Option.isNone_iff_eq_none, ← Option.not_isSome, ← Option.not_isSome, Draft.isSome_around?]

/-- Applying fixes comes to the substitution of those that go in, of which the number is reported.
-/
theorem applyEach_eq_substitute (d : Draft) (fixes : List Fix) :
    ∃ s, substitute? (appliedFixes d fixes).reverse d.before = some s ∧
      (applyEach d fixes).1.text = s ++ d.after ∧
      (applyEach d fixes).2 = (appliedFixes d fixes).length := by
  induction fixes generalizing d with
  | nil => exact ⟨d.before, rfl, rfl, rfl⟩
  | cons f rest ih =>
    cases hd : d.replace? f.start f.stop f.text with
    | none =>
      rw [applyEach_cons_of_none _ hd, appliedFixes, hd]
      exact ih d
    | some d' =>
      obtain ⟨left, gone, right, hb, hl, hg, rfl⟩ := (Draft.replace?_eq_some_iff _ _ _ _ _).1 hd
      obtain ⟨s, hs, htext, hcount⟩ := ih ⟨left, f.text ++ right ++ d.after⟩
      rw [applyEach_cons_of_some _ hd, appliedFixes, hd]
      refine ⟨s ++ f.text ++ right, ?_, ?_, ?_⟩
      · rw [List.reverse_cons, substitute?, substituteFrom_concat_eq_some_iff]
        exact ⟨left, gone, right, s, hb, by omega, hg, hs, rfl⟩
      · rw [htext]
        simp
      · rw [hcount, List.length_cons]

/-- Fixes bring in no characters but their own. -/
theorem mem_of_applyFixes {t : Text} {reports : List Report} {c : Char}
    (hc : c ∈ (applyFixes t reports).1) : c ∈ t ∨ ∃ f ∈ reports.filterMap (·.fix), c ∈ f.text := by
  obtain ⟨s, hs, htext, -⟩ := applyEach_eq_substitute (.ofText t) (orderedFixes reports)
  simp only [applyFixes, htext, Draft.after_ofText, List.append_nil] at hc
  rcases mem_of_substituteFrom hs hc with hc | ⟨f, hf, hc⟩
  · exact .inl (by simpa using hc)
  · have hmem := (appliedFixes_sublist _ _).subset (List.mem_reverse.1 hf)
    exact .inr ⟨f, List.mem_mergeSort.1 hmem, hc⟩

/-- All of a row of fixes, which is given from the end backwards, go in exactly if the row can be
substituted. -/
theorem applyEach_eq_length_iff (d : Draft) (fixes : List Fix) :
    (applyEach d fixes).2 = fixes.length ↔ (substitute? fixes.reverse d.before).isSome = true := by
  constructor
  · intro h
    obtain ⟨s, hs, -, hcount⟩ := applyEach_eq_substitute d fixes
    have hall := (appliedFixes_sublist d fixes).eq_of_length (by omega)
    rw [← hall, hs]
    rfl
  · intro h
    induction fixes generalizing d with
    | nil => rfl
    | cons f rest ih =>
      obtain ⟨s, h⟩ := Option.isSome_iff_exists.1 h
      rw [List.reverse_cons, substitute?, substituteFrom_concat_eq_some_iff] at h
      obtain ⟨left, gone, right, earlier, hb, hl, hg, he, rfl⟩ := h
      have hd : d.replace? f.start f.stop f.text = some ⟨left, f.text ++ right ++ d.after⟩ :=
        (Draft.replace?_eq_some_iff _ _ _ _ _).2 ⟨left, gone, right, hb, by omega, hg, rfl⟩
      rw [applyEach_cons_of_some _ hd, List.length_cons]
      simp only
      have hrest : (substitute? rest.reverse left).isSome = true :=
        Option.isSome_iff_exists.2 ⟨earlier, he⟩
      rw [ih _ hrest]

/-- A row of fixes that can be substituted goes in as a whole, and what comes of it is the
substitution. -/
theorem applyEach_of_substitute? {d : Draft} {fixes : List Fix} {s : Text}
    (h : substitute? fixes.reverse d.before = some s) :
    (applyEach d fixes).1.text = s ++ d.after ∧ (applyEach d fixes).2 = fixes.length := by
  have hcount := (applyEach_eq_length_iff d fixes).2 (Option.isSome_iff_exists.2 ⟨s, h⟩)
  obtain ⟨s', hs', htext, hlength⟩ := applyEach_eq_substitute d fixes
  have hall : appliedFixes d fixes = fixes :=
    (appliedFixes_sublist d fixes).eq_of_length (hlength.symm.trans hcount)
  rw [hall, h] at hs'
  obtain rfl := Option.some.inj hs'
  exact ⟨htext, hcount⟩

end CodeProse

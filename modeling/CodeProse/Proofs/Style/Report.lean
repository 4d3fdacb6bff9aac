/-
# What the substitution rules report

Three rules put a preferred phrase in the place of another one. Together they report each phrase of
their catalogs that occurs where the preferred one is not said, and nothing else
(`prefers_of_mem_check`, `exists_issue_of_occursAt`). Whatever any rule wants replaced is an
exchange of phrases (`isExchange_of_mem_check`).

Of a text in which none of the phrases is flagged that cannot come up, the rules report only those
that can (`not_flaggedIn_iff_of_stable`).
-/
import CodeProse.Proofs.Style.Exchange

namespace CodeProse

open Unicode

/-- The rules that put one phrase in the place of another. -/
def Rule.isSubstitution : Rule → Bool
  | .terminology | .contraction | .genderNeutral => true
  | _ => false

namespace Style

variable {t : Text} {i : Issue}

/-- An issue puts the preferred phrase in the place of one that occurs. -/
structure Prefers (e : Substitution) (t : Text) (i : Issue) : Prop where
  rule : i.rule.isSubstitution = true
  replaced : ∃ matched, OccursAt e.phrase t i.start matched ∧
    i.stop = i.start + matched.byteLength ∧ i.replacement = some (matchCase matched e.preferred)

/-! ## One rule -/

/-- The issues of a rule prefer phrases. -/
theorem exists_prefers_of_mem {catalog : List Substitution} {rule : Rule} {severity : Severity}
    {message : Text → Text → Text} (hrule : rule.isSubstitution = true)
    (h : i ∈ (occurrences catalog (·.phrase) t).map fun p =>
      substitutionIssue rule severity message p.1 p.2) :
    ∃ e ∈ catalog, Prefers e t i := by
  obtain ⟨⟨e, o⟩, ho, rfl⟩ := List.mem_map.1 h
  obtain ⟨he, hstop, hoccurs⟩ := (mem_occurrences_iff e o).1 ho
  exact ⟨e, List.mem_of_getElem? he, hrule, o.matched, hoccurs, hstop, rfl⟩

/-- Each phrase that occurs has its issue. -/
theorem exists_mem_of_occursAt {catalog : List Substitution} {rule : Rule} {severity : Severity}
    {message : Text → Text → Text} {e : Substitution} (he : e ∈ catalog) {start : Nat}
    {matched : Text} (h : OccursAt e.phrase t start matched) :
    ∃ i ∈ (occurrences catalog (·.phrase) t).map fun p =>
      substitutionIssue rule severity message p.1 p.2, i.rule = rule ∧ i.start = start ∧
        i.stop = start + matched.byteLength ∧ i.replacement.isSome = true := by
  obtain ⟨k, hk⟩ := List.mem_iff_getElem?.1 he
  refine ⟨_, List.mem_map_of_mem
    (a := (e, ⟨k, start, start + matched.byteLength, matched⟩)) ?_, rfl, rfl, rfl, rfl⟩
  exact (mem_occurrences_iff e _).2 ⟨hk, rfl, h⟩

/-! ## All rules -/

/-- The rules for contractions and for gendered words do not look at what a text goes on with; of
their phrases none begins the preferred one, or begins with it. -/
theorem not_comparable : ∀ e ∈ contractions ++ genderNeutral,
    ¬ e.phrase.map Char.toLower <+: e.preferred.map Char.toLower ∧
      ¬ e.preferred.map Char.toLower <+: e.phrase.map Char.toLower := by
  decide +kernel

theorem mem_check_iff : i ∈ check {} analyze t ↔
    i ∈ checkWeakWords t ∨ i ∈ checkPassiveVoice analyze t ∨ i ∈ checkTerminology t ∨
      i ∈ checkContractions t ∨ i ∈ checkProhibited t ∨ i ∈ checkGenderNeutral t ∨
      i ∈ checkReadability analyze t := by
  simp only [check, if_true, List.mem_append, or_assoc]

theorem rule_of_mem_discouraged {catalog : List Discouraged} {rule : Rule} {severity : Severity}
    {message : Text → Text} (h : i ∈ (occurrences catalog (·.phrase) t).map fun p =>
      discouragedIssue rule severity message p.1 p.2) : i.rule = rule := by
  obtain ⟨p, -, rfl⟩ := List.mem_map.1 h
  rfl

/-- **The substitution rules report the phrases that occur and whose preferred one is not said.** -/
theorem prefers_of_mem_check (h : i ∈ check {} analyze t) (hrule : i.rule.isSubstitution = true) :
    ∃ e ∈ substitutionEntries, Prefers e t i ∧ ¬ SaysAt e.preferred t i.start := by
  have hnot : ∀ {e : Substitution}, e ∈ contractions ++ genderNeutral → Prefers e t i →
      ¬ SaysAt e.preferred t i.start := by
    intro e he hprefers hsaid
    obtain ⟨matched, hoccurs, -⟩ := hprefers.replaced
    obtain ⟨hlonger, hshorter⟩ := not_comparable e he
    exact (hoccurs.comparable hsaid).elim hlonger hshorter
  rcases mem_check_iff.1 h with h | h | h | h | h | h | h
  · rw [rule_of_mem_discouraged h] at hrule
    cases hrule
  · obtain ⟨r, -, rfl⟩ := List.mem_map.1 h
    cases hrule
  · obtain ⟨e, he, start, matched, hoccurs, hsaid, rfl⟩ := (mem_checkTerminology_iff t i).1 h
    refine ⟨e, by simp [substitutionEntries, he], ⟨rfl, matched, hoccurs, rfl, rfl⟩, hsaid⟩
  · obtain ⟨e, he, hprefers⟩ := exists_prefers_of_mem rfl h
    exact ⟨e, by simp [substitutionEntries, he], hprefers, hnot (by simp [he]) hprefers⟩
  · rw [rule_of_mem_discouraged h] at hrule
    cases hrule
  · obtain ⟨e, he, hprefers⟩ := exists_prefers_of_mem rfl h
    exact ⟨e, by simp [substitutionEntries, he], hprefers, hnot (by simp [he]) hprefers⟩
  · obtain ⟨r, -, rfl⟩ := List.mem_map.1 h
    cases hrule

/-- **Each phrase that occurs and whose preferred one is not said is reported.** -/
theorem exists_issue_of_occursAt {e : Substitution} (he : e ∈ substitutionEntries) {start : Nat}
    {matched : Text} (hoccurs : OccursAt e.phrase t start matched)
    (hsaid : ¬ SaysAt e.preferred t start) :
    ∃ i ∈ check {} analyze t, i.rule.isSubstitution = true ∧ i.start = start ∧
      i.stop = start + matched.byteLength ∧ i.replacement.isSome = true := by
  simp only [substitutionEntries, List.mem_append] at he
  rcases he with (he | he) | he
  · have hi : termIssue e start matched ∈ checkTerminology t :=
      (mem_checkTerminology_iff t _).2 ⟨e, he, start, matched, hoccurs, hsaid, rfl⟩
    exact ⟨_, mem_check_iff.2 (.inr (.inr (.inl hi))), rfl, rfl, rfl, rfl⟩
  · obtain ⟨i, hi, hrule, hrange⟩ := exists_mem_of_occursAt he hoccurs
    exact ⟨i, mem_check_iff.2 (.inr (.inr (.inr (.inl hi)))), by rw [hrule]; rfl, hrange⟩
  · obtain ⟨i, hi, hrule, hrange⟩ := exists_mem_of_occursAt he hoccurs
    exact ⟨i, mem_check_iff.2 (.inr (.inr (.inr (.inr (.inr (.inl hi)))))), by rw [hrule]; rfl,
      hrange⟩

/-! ## Exchanges -/

theorem isExchange_of_mem_discouraged {catalog : List Discouraged} {rule : Rule}
    {severity : Severity} {message : Text → Text} {r : Text}
    (hcatalog : catalog ⊆ weakWords ++ prohibited)
    (h : i ∈ (occurrences catalog (·.phrase) t).map fun p =>
      discouragedIssue rule severity message p.1 p.2) (hr : i.replacement = some r) :
    IsExchange t ⟨i.start, i.stop, r⟩ := by
  obtain ⟨⟨e, o⟩, ho, rfl⟩ := List.mem_map.1 h
  obtain ⟨he, hstop, hoccurs⟩ := (mem_occurrences_iff e o).1 ho
  obtain ⟨replacement, hreplacement, rfl⟩ := Option.map_eq_some_iff.1 hr
  refine ⟨(e.phrase, replacement), List.mem_append_left _ ?_, o.matched, hoccurs, hstop, rfl⟩
  refine List.mem_filterMap.2 ⟨e, hcatalog (List.mem_of_getElem? he), ?_⟩
  rw [hreplacement, Option.map_some]

theorem Prefers.isExchange {e : Substitution} (he : e ∈ substitutionEntries) {r : Text}
    (h : Prefers e t i) (hr : i.replacement = some r) : IsExchange t ⟨i.start, i.stop, r⟩ := by
  obtain ⟨matched, hoccurs, hstop, hreplacement⟩ := h.replaced
  rw [hreplacement] at hr
  refine ⟨(e.phrase, e.preferred), List.mem_append_right _ (List.mem_map_of_mem he), matched,
    hoccurs, hstop, (Option.some.inj hr).symm⟩

/-- All replacements of the rules exchange phrases. -/
theorem isExchange_of_mem_check {r : Text} (h : i ∈ check {} analyze t)
    (hr : i.replacement = some r) : IsExchange t ⟨i.start, i.stop, r⟩ := by
  by_cases hrule : i.rule.isSubstitution = true
  · obtain ⟨e, he, hprefers, -⟩ := prefers_of_mem_check h hrule
    exact hprefers.isExchange he hr
  · rcases mem_check_iff.1 h with h | h | h | h | h | h | h
    · exact isExchange_of_mem_discouraged (by simp) h hr
    · obtain ⟨m, -, rfl⟩ := List.mem_map.1 h
      cases hr
    · obtain ⟨m, -, rfl⟩ := List.mem_map.1 h
      exact absurd rfl hrule
    · obtain ⟨m, -, rfl⟩ := List.mem_map.1 h
      exact absurd rfl hrule
    · exact isExchange_of_mem_discouraged (by simp) h hr
    · obtain ⟨m, -, rfl⟩ := List.mem_map.1 h
      exact absurd rfl hrule
    · obtain ⟨m, -, rfl⟩ := List.mem_map.1 h
      cases hr

/-! ## Phrases that can come up -/

/-- The phrases that may come up are flagged wherever they occur. -/
theorem formable_flagged : ∀ phrase ∈ formable, ∃ e ∈ substitutionEntries, e.phrase = phrase ∧
    ¬ e.phrase.map Char.toLower <+: e.preferred.map Char.toLower ∧
      ¬ e.preferred.map Char.toLower <+: e.phrase.map Char.toLower := by
  decide +kernel

/-- Where no other phrase is flagged, none is just if the formable phrases do not occur. -/
theorem not_flaggedIn_iff_of_stable
    (h : ∀ e ∈ substitutionEntries, e.isStable = true → ¬ FlaggedIn e (Text.atoms t)) :
    (∀ e ∈ substitutionEntries, ¬ FlaggedIn e (Text.atoms t)) ↔
      ∀ phrase ∈ formable, ∀ start matched, ¬ OccursAt phrase t start matched := by
  constructor
  · intro hnone phrase hphrase start matched hoccurs
    obtain ⟨e, he, rfl, hlonger, hshorter⟩ := formable_flagged phrase hphrase
    refine hnone e he ((flaggedIn_atoms_iff he t).2 ⟨start, matched, hoccurs, fun hsaid => ?_⟩)
    exact (hoccurs.comparable hsaid).elim hlonger hshorter
  · intro hnone e he hflagged
    obtain ⟨start, matched, hoccurs, hsaid⟩ := (flaggedIn_atoms_iff he t).1 hflagged
    by_cases hshort : e.isShortening = true
    · rw [Substitution.isShortening, List.isPrefixOf_iff_prefix] at hshort
      exact hsaid (hoccurs.saysAt_of_begins hshort)
    · by_cases hformable : e.phrase ∈ formable
      · exact hnone e.phrase hformable start matched hoccurs
      · refine h e he ?_ hflagged
        rw [Substitution.isStable]
        simp [hshort, hformable]

end Style

end CodeProse

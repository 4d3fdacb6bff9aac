/-
# Corrections by a single rule

A rule reports the phrases of a catalog and puts the preferred ones in their place. Such a rule has
nothing left to report on what it corrected if two things hold of its catalog. No phrase begins
inside another one, so that no two issues meet and all of them are kept (`pairwise_apart`). And no
phrase comes up at what is preferred to one, so that the text is cleared of all phrases
(`clears_preferenceIssues`). Both hold of the catalogs of contractions and of gendered words, each
taken on its own.
-/
import CodeProse.Proofs.Idempotence
import Mathlib.Data.List.Dedup

namespace CodeProse

open Text (atoms isPlainAtom)
open Unicode

namespace Style

/-! ## Self-contained catalogs -/

/-- The atoms of the phrases of a catalog but those that the phrases begin with. -/
def laterAtoms (catalog : List Substitution) : List Text :=
  (catalog.flatMap fun e => (atoms e.phrase).tail).dedup

/-- No phrase of a catalog begins inside another one or with another one, and none comes up at one
of the preferred phrases or where white space is collapsed. -/
structure SelfContained (catalog : List Substitution) : Prop where
  subset : ∀ e ∈ catalog, e ∈ substitutionEntries
  nodup : (catalog.map fun e => e.phrase.map Char.toLower).Nodup
  inside : ∀ a ∈ laterAtoms catalog, ∀ e ∈ catalog, (atoms e.phrase).head? ≠ some a
  begins : ∀ e ∈ catalog, ∀ f ∈ catalog, e.phrase <+: f.phrase → e.phrase = f.phrase
  safe : ∀ e ∈ catalog, e.isStable = true ∨ ∀ f ∈ catalog, isSafe e (atoms f.preferred) = true
  plain : ∀ e ∈ catalog, ∀ a ∈ atoms e.phrase, isPlainAtom a = true
  not_comparable : ∀ e ∈ catalog, ¬ e.phrase.map Char.toLower <+: e.preferred.map Char.toLower ∧
    ¬ e.preferred.map Char.toLower <+: e.phrase.map Char.toLower

theorem selfContained_contractions : SelfContained contractions where
  subset e he := by simp [substitutionEntries, he]
  nodup := by decide +kernel
  inside := by decide +kernel
  begins := by decide +kernel
  safe := by decide +kernel
  plain := by decide +kernel
  not_comparable e he := not_comparable e (List.mem_append_left _ he)

theorem selfContained_genderNeutral : SelfContained genderNeutral where
  subset e he := by simp [substitutionEntries, he]
  nodup := by decide +kernel
  inside := by decide +kernel
  begins := by decide +kernel
  safe := by decide +kernel
  plain := by decide +kernel
  not_comparable e he := not_comparable e (List.mem_append_right _ he)

variable {catalog : List Substitution}

theorem SelfContained.mem_exchanges (h : SelfContained catalog) {e : Substitution}
    (he : e ∈ catalog) : (e.phrase, e.preferred) ∈ exchanges :=
  List.mem_append_right _ (List.mem_map_of_mem (h.subset e he))

theorem SelfContained.atoms_matchCase (h : SelfContained catalog) {e : Substitution}
    (he : e ∈ catalog) (matched : Text) :
    atoms (matchCase matched e.preferred) = atoms e.preferred :=
  Style.atoms_matchCase (h.mem_exchanges he) matched

theorem SelfContained.isSafe_preferred (h : SelfContained catalog) {e f : Substitution}
    (he : e ∈ catalog) (hf : f ∈ catalog) : isSafe e (atoms f.preferred) = true := by
  rcases h.safe e he with hstable | hsafe
  · exact isSafe_of_mem e (h.subset e he) hstable _ (h.mem_exchanges hf)
  · exact hsafe f hf

theorem SelfContained.head?_ne (h : SelfContained catalog) {e f : Substitution} (he : e ∈ catalog)
    (hf : f ∈ catalog) : ∀ a ∈ (atoms e.phrase).tail, (atoms f.phrase).head? ≠ some a :=
  fun a ha => h.inside a (List.mem_dedup.2 (List.mem_flatMap.2 ⟨e, he, ha⟩)) f hf

/-! ## Phrases that occur apart -/

/-- Where the first atom of a row is none of the later ones of another row, the two do not stand in
one list so that the first row begins inside the other. -/
theorem eq_or_prefix_of_head? {p q front back front' back' : List Text} (hq : q ≠ [])
    (hhead : ∀ a ∈ p.tail, q.head? ≠ some a)
    (hrow : front ++ (p ++ back) = front' ++ (q ++ back')) (hle : front.length ≤ front'.length) :
    front = front' ∨ front ++ p <+: front' := by
  obtain ⟨d, rfl⟩ : front <+: front' :=
    List.prefix_of_prefix_length_le ⟨_, rfl⟩ ⟨_, hrow.symm⟩ hle
  rw [List.append_assoc, List.append_cancel_left_eq] at hrow
  rcases List.append_eq_append_iff.1 hrow with ⟨a, rfl, -⟩ | ⟨s, rfl, hrest⟩
  · exact .inr ⟨a, by rw [List.append_assoc]⟩
  · cases d with
    | nil => exact .inl (List.append_nil front).symm
    | cons b d =>
      cases s with
      | nil => exact .inr ⟨[], by simp⟩
      | cons a s =>
        -- the second row begins with the atom `a` of the first one
        exfalso
        have hfirst : (q ++ back').head? = q.head? := List.head?_append_of_ne_nil q hq
        refine hhead a (by simp) ?_
        rw [← hfirst, hrest]
        rfl

variable {t : Text}

/-- Phrases of a self-contained catalog that occur in one place are the same. -/
theorem SelfContained.byteLength_eq (h : SelfContained catalog) {e f : Substitution}
    (he : e ∈ catalog) (hf : f ∈ catalog) {start : Nat} {matched matched' : Text}
    (hoccurs : OccursAt e.phrase t start matched) (hoccurs' : OccursAt f.phrase t start matched') :
    matched.byteLength = matched'.byteLength := by
  have hlower := (substitutionEntries_lower e (h.subset e he)).2.1
  have hlower' := (substitutionEntries_lower f (h.subset f hf)).2.1
  have hphrase : e.phrase = f.phrase := by
    have hcomparable := hoccurs.comparable (hoccurs'.saysAt_of_begins (List.prefix_refl _))
    rw [hlower, hlower'] at hcomparable
    exact hcomparable.elim (h.begins e he f hf) fun hbegins => (h.begins f hf e he hbegins).symm
  obtain ⟨left, right, -, -, hbetween⟩ := hoccurs
  obtain ⟨left', right', -, -, hbetween'⟩ := hoccurs'
  rw [hbetween.byteLength_eq, hbetween'.byteLength_eq, hphrase]

/-- An occurrence that does not begin in front of another one begins where it does or behind it. -/
theorem SelfContained.eq_or_le (h : SelfContained catalog) {e f : Substitution} (he : e ∈ catalog)
    (hf : f ∈ catalog) {left matched right left' matched' right' : Text}
    (hsame : left ++ matched ++ right = left' ++ matched' ++ right')
    (hoccurs : OccursBetween e.phrase left matched right)
    (hoccurs' : OccursBetween f.phrase left' matched' right')
    (hle : (atoms left).length ≤ (atoms left').length) :
    left.byteLength = left'.byteLength ∨
      left.byteLength + matched.byteLength ≤ left'.byteLength := by
  have hsolid := (substitutionEntries_lower e (h.subset e he)).1
  have hsolid' := (substitutionEntries_lower f (h.subset f hf)).1
  have hne : atoms f.phrase ≠ [] := by
    rw [isSolid, Bool.and_eq_true] at hsolid'
    exact mt (Text.atoms_eq_nil_iff _).1 (ne_nil_of_any_head? hsolid'.1)
  have hrow : atoms left ++ (atoms e.phrase ++ atoms right)
      = atoms left' ++ (atoms f.phrase ++ atoms right') := by
    rw [← hoccurs.atoms_eq hsolid, ← hoccurs'.atoms_eq hsolid', hsame]
  rw [hoccurs.byteLength_eq, ← byteLength_flatten_atoms left, ← byteLength_flatten_atoms left',
    ← byteLength_flatten_atoms e.phrase]
  rcases eq_or_prefix_of_head? hne (h.head?_ne he hf) hrow hle with hfront | ⟨more, hmore⟩
  · exact .inl (by rw [hfront])
  · right
    rw [← hmore, List.flatten_append, List.flatten_append, Text.byteLength_append,
      Text.byteLength_append]
    omega

/-- **The phrases of a self-contained catalog occur apart,** or in the same place. -/
theorem SelfContained.apart (h : SelfContained catalog) {e f : Substitution} (he : e ∈ catalog)
    (hf : f ∈ catalog) {start start' : Nat} {matched matched' : Text}
    (hoccurs : OccursAt e.phrase t start matched)
    (hoccurs' : OccursAt f.phrase t start' matched') :
    start = start' ∧ matched.byteLength = matched'.byteLength ∨
      start + matched.byteLength ≤ start' ∨ start' + matched'.byteLength ≤ start := by
  have hplace : start = start' ∨
      start + matched.byteLength ≤ start' ∨ start' + matched'.byteLength ≤ start := by
    obtain ⟨left, right, ht, rfl, hbetween⟩ := hoccurs
    obtain ⟨left', right', ht', rfl, hbetween'⟩ := hoccurs'
    rcases Nat.le_total (atoms left).length (atoms left').length with hle | hle
    · exact (h.eq_or_le he hf (ht.symm.trans ht') hbetween hbetween' hle).imp_right .inl
    · exact (h.eq_or_le hf he (ht'.symm.trans ht) hbetween' hbetween hle).imp Eq.symm .inr
  rcases hplace with rfl | hapart
  · exact .inl ⟨rfl, h.byteLength_eq he hf hoccurs hoccurs'⟩
  · exact .inr hapart

end Style

namespace Correction

open Style

/-! ## The issues of a rule -/

/-- The issues of a rule that prefers the terms of a catalog. -/
def preferenceIssues (catalog : List Substitution) (rule : Rule) (severity : Severity)
    (message : Text → Text → Text) (t : Text) : List Issue :=
  (occurrences catalog (·.phrase) t).map fun p =>
    substitutionIssue rule severity message p.1 p.2

variable {catalog : List Substitution} {rule : Rule} {severity : Severity}
  {message : Text → Text → Text} {t : Text}

/-- No two issues of a rule with a self-contained catalog meet. -/
theorem pairwise_apart (h : SelfContained catalog) :
    (preferenceIssues catalog rule severity message t).Pairwise fun i j =>
      i.stop ≤ j.start ∨ j.stop ≤ i.start := by
  refine List.pairwise_map.2 ?_
  refine (pairwise_occurrences (t := t) h.nodup).imp_of_mem fun {a b} ha hb hrange => ?_
  obtain ⟨hea, hstopa, hoccursa⟩ := (mem_occurrences_iff a.1 a.2).1 ha
  obtain ⟨heb, hstopb, hoccursb⟩ := (mem_occurrences_iff b.1 b.2).1 hb
  show a.2.stop ≤ b.2.start ∨ b.2.stop ≤ a.2.start
  rw [hstopa, hstopb] at hrange ⊢
  refine (h.apart (List.mem_of_getElem? hea) (List.mem_of_getElem? heb) hoccursa
    hoccursb).resolve_left ?_
  rintro ⟨hstart, hlength⟩
  exact hrange (by rw [hstart, hlength])

/-- The issues of such a rule clear the text of all phrases of the catalog. -/
theorem clears_preferenceIssues (h : SelfContained catalog) (hrule : rule.isSubstitution = true)
    {e : Substitution} (he : e ∈ catalog) :
    Clears e t (preferenceIssues catalog rule severity message t) where
  not_shortening := by
    rw [Substitution.isShortening, Bool.eq_false_iff, ne_eq, List.isPrefixOf_iff_prefix]
    exact fun hshort => (h.not_comparable e he).2 (hshort.map _)
  plain := h.plain e he
  only i hi r hr := by
    obtain ⟨f, hf, hprefers⟩ := exists_prefers_of_mem hrule hi
    obtain ⟨matched, -, -, hreplacement⟩ := hprefers.replaced
    rw [hreplacement] at hr
    obtain rfl := Option.some.inj hr
    refine ⟨hprefers.isExchange (h.subset f hf) hreplacement, ?_⟩
    rw [h.atoms_matchCase hf]
    exact h.isSafe_preferred he hf
  found start matched hoccurs _ := by
    obtain ⟨i, hi, -, hrange⟩ := exists_mem_of_occursAt he hoccurs
    exact ⟨i, hi, hrange⟩

/-- A rule corrects a text at once: its issues are all kept, there is a corrected text where there
are any, and the rule has nothing to report on it. -/
structure CorrectsAtOnce (check : Text → List Issue) (t : Text) : Prop where
  kept : (reconcile t (check t)).issues = check t
  corrected_iff : (reconcile t (check t)).corrected.isSome = true ↔ check t ≠ []
  settled : ∀ c, (reconcile t (check t)).corrected = some c → check c = []

/-- All issues of such a rule are kept. -/
theorem reconcile_preferenceIssues (h : SelfContained catalog)
    (hrule : rule.isSubstitution = true) :
    (reconcile t (preferenceIssues catalog rule severity message t)).issues
      = preferenceIssues catalog rule severity message t := by
  have hprefers : ∀ i ∈ preferenceIssues catalog rule severity message t,
      ∃ e ∈ catalog, Prefers e t i := fun i hi => exists_prefers_of_mem hrule hi
  refine reconcile_issues_of_apart (pairwise_apart h) ?_ ?_
  · intro i hi
    obtain ⟨e, he, hprefers⟩ := hprefers i hi
    obtain ⟨matched, hoccurs, hstop, -⟩ := hprefers.replaced
    rw [hstop]
    refine hoccurs.covers fun hnil => (h.not_comparable e he).1 ?_
    rw [hnil]
    exact List.nil_prefix
  · intro i hi hr
    obtain ⟨e, he, hprefers⟩ := hprefers i hi
    obtain ⟨matched, -, -, hreplacement⟩ := hprefers.replaced
    rw [hreplacement] at hr
    have hatoms := h.atoms_matchCase he matched
    rw [Option.some.inj hr] at hatoms
    refine (h.not_comparable e he).2 ?_
    rw [(Text.atoms_eq_nil_iff _).1 hatoms.symm]
    exact List.nil_prefix

/-- A rule with a self-contained catalog corrects a text at once. -/
theorem correctsAtOnce_preferenceIssues (h : SelfContained catalog)
    (hrule : rule.isSubstitution = true) (t : Text) :
    CorrectsAtOnce (preferenceIssues catalog rule severity message) t where
  kept := reconcile_preferenceIssues h hrule
  corrected_iff := by
    rw [isSome_corrected_iff, reconcile_preferenceIssues h hrule]
    constructor
    · rintro ⟨i, hi, -⟩
      exact List.ne_nil_of_mem hi
    · intro hne
      obtain ⟨i, hi⟩ := List.exists_mem_of_ne_nil _ hne
      obtain ⟨e, -, hprefers⟩ := exists_prefers_of_mem hrule hi
      obtain ⟨matched, -, -, hreplacement⟩ := hprefers.replaced
      exact ⟨i, hi, by rw [hreplacement]; rfl⟩
  settled c hc := by
    refine List.eq_nil_iff_forall_not_mem.2 fun i hi => ?_
    obtain ⟨e, he, hprefers⟩ := exists_prefers_of_mem hrule hi
    obtain ⟨matched, hoccurs, -⟩ := hprefers.replaced
    have he' := h.subset e he
    refine (clears_preferenceIssues h hrule he).not_flaggedIn he' hc ?_
    refine (flaggedIn_atoms_iff he' c).2 ⟨i.start, matched, hoccurs, fun hsaid => ?_⟩
    obtain ⟨hlonger, hshorter⟩ := h.not_comparable e he
    exact (hoccurs.comparable hsaid).elim hlonger hshorter

/-- **The rules for contractions and for gendered words each correct a text at once.** -/
theorem correctsAtOnce (t : Text) :
    CorrectsAtOnce checkContractions t ∧ CorrectsAtOnce checkGenderNeutral t :=
  ⟨correctsAtOnce_preferenceIssues selfContained_contractions rfl t,
    correctsAtOnce_preferenceIssues selfContained_genderNeutral rfl t⟩

end Correction

end CodeProse

/-
# The terms that are enforced

A rule enforces a catalog of terms if it reports each whole-word occurrence of each term exactly
once, with the preferred term to put in its place, and nothing else; only a term that the text has
already completed to its preferred form, as "email" in "email address", is let go (`Enforces`). The
terminology rule enforces the terms that do not themselves begin with the preferred one. It lets all
others go: of "click on", where "click" is preferred, every occurrence already begins as preferred.
So it enforces the whole catalog just in the texts in which none of these terms occurs
(`enforces_checkTerminology_iff`).
-/
import CodeProse.Proofs.Style.Phrase

namespace CodeProse.Style

open Text (cutAt? cutAt?_eq_some_iff)
open Unicode

/-! ## Terms that are said already -/

/-- At an offset of a text a term begins, up to case. -/
def SaysAt (term t : Text) (start : Nat) : Prop :=
  ∃ left said right, t = left ++ said ++ right ∧ left.byteLength = start ∧
    eqIgnoreAsciiCase said term = true

/-- The text has already completed the phrase to the longer term that is preferred. -/
def IsExempt (e : Substitution) (t : Text) (start : Nat) : Prop :=
  e.phrase <+: e.preferred ∧ e.phrase ≠ e.preferred ∧ SaysAt e.preferred t start

/-- The preferred term is a beginning of the phrase. -/
def Substitution.isShortening (e : Substitution) : Bool :=
  e.preferred.isPrefixOf e.phrase

theorem saysAt_iff (term t : Text) (start : Nat) :
    SaysAt term t start ↔ ((cutAt? start t).bind fun p => takePhrase? term p.2).isSome = true := by
  rw [Option.isSome_iff_exists]
  constructor
  · rintro ⟨left, said, right, rfl, rfl, hsaid⟩
    refine ⟨(said, right), Option.bind_eq_some_iff.2 ⟨(left, said ++ right), ?_, ?_⟩⟩
    · exact (cutAt?_eq_some_iff _ _ _ _).2 ⟨List.append_assoc _ _ _, rfl⟩
    · exact (takePhrase?_eq_some_iff _ _ _ _).2 ⟨rfl, hsaid⟩
  · rintro ⟨⟨said, right⟩, h⟩
    obtain ⟨⟨left, rest⟩, hcut, htake⟩ := Option.bind_eq_some_iff.1 h
    obtain ⟨rfl, hstart⟩ := (cutAt?_eq_some_iff _ _ _ _).1 hcut
    obtain ⟨hrest, hsaid⟩ := (takePhrase?_eq_some_iff _ _ _ _).1 htake
    refine ⟨left, said, right, ?_, hstart, hsaid⟩
    rw [List.append_assoc]
    exact congrArg (left ++ ·) hrest

/-- Of a phrase and a term that are said in one place, one begins with the other, up to case. -/
theorem OccursAt.comparable {phrase term t matched : Text} {start : Nat}
    (h : OccursAt phrase t start matched) (hthere : SaysAt term t start) :
    phrase.map Char.toLower <+: term.map Char.toLower ∨
      term.map Char.toLower <+: phrase.map Char.toLower := by
  obtain ⟨left, right, ht, hstart, hoccurs⟩ := h
  obtain ⟨left', said, right', ht', hstart', hsaid⟩ := hthere
  have hrest : matched ++ right = said ++ right' := by
    refine (Text.append_inj (a := left) (c := left') ?_ (hstart.trans hstart'.symm)).2
    rw [← List.append_assoc, ← ht, ht', List.append_assoc]
  have hcomparable : matched <+: said ∨ said <+: matched :=
    List.prefix_or_prefix_of_prefix ⟨right, rfl⟩ ⟨right', hrest.symm⟩
  rw [← (eqIgnoreAsciiCase_iff _ _).1 hoccurs.same, ← (eqIgnoreAsciiCase_iff _ _).1 hsaid]
  exact hcomparable.imp (·.map _) (·.map _)

/-- A term that begins a phrase is said wherever the phrase occurs. -/
theorem OccursAt.saysAt_of_begins {phrase term t matched : Text} {start : Nat}
    (h : OccursAt phrase t start matched) (hterm : term <+: phrase) : SaysAt term t start := by
  obtain ⟨more, rfl⟩ := hterm
  obtain ⟨left, right, rfl, hstart, hoccurs⟩ := h
  have hsame := (eqIgnoreAsciiCase_iff _ _).1 hoccurs.same
  rw [List.map_append] at hsame
  obtain ⟨said, rest, rfl, hsaid, -⟩ := List.map_eq_append_iff.1 hsame
  exact ⟨left, said, rest ++ right, by simp only [List.append_assoc], hstart,
    (eqIgnoreAsciiCase_iff _ _).2 hsaid⟩

/-! ## The catalog -/

/-- Terms are in lower case, and none is preferred to itself. -/
theorem terminology_lower : ∀ e ∈ terminology,
    e.phrase.map Char.toLower = e.phrase ∧ e.preferred.map Char.toLower = e.preferred ∧
      e.phrase ≠ e.preferred := by
  decide +kernel

/-- No two terms are the same up to case. -/
theorem terminology_nodup : (terminology.map fun e => e.phrase.map Char.toLower).Nodup := by
  decide +kernel

/-- No term has two preferred terms. -/
theorem terminology_inj : ∀ e ∈ terminology, ∀ f ∈ terminology, e.phrase = f.phrase → e = f := by
  decide +kernel

/-- Where a term of the catalog occurs, its preferred term is said only if the text has completed
it, or if the term begins with it. -/
theorem saysAt_preferred_iff {e : Substitution} (he : e ∈ terminology) {t matched : Text}
    {start : Nat} (h : OccursAt e.phrase t start matched) :
    SaysAt e.preferred t start ↔ IsExempt e t start ∨ e.isShortening = true := by
  obtain ⟨hphrase, hpreferred, hne⟩ := terminology_lower e he
  rw [Substitution.isShortening, List.isPrefixOf_iff_prefix]
  constructor
  · intro hthere
    have hcomparable := h.comparable hthere
    rw [hphrase, hpreferred] at hcomparable
    exact hcomparable.imp_left fun hbegins => ⟨hbegins, hne, hthere⟩
  · rintro (⟨-, -, hthere⟩ | hbegins)
    · exact hthere
    · exact h.saysAt_of_begins hbegins

/-! ## The rule -/

/-- The issue of a term: an error that covers it, with the preferred term in its case both as
suggestion and as replacement. -/
def termIssue (e : Substitution) (start : Nat) (matched : Text) : Issue :=
  { rule := .terminology
    severity := .error
    start
    stop := start + matched.byteLength
    message := "Use ".toList ++ quoted e.preferred ++ " instead of ".toList ++ quoted matched
      ++ ".".toList
    suggestion := some (matchCase matched e.preferred)
    replacement := some (matchCase matched e.preferred) }

/-- Whether an issue covers just the range from `start` to `stop`. -/
def hasRange (start stop : Nat) (issue : Issue) : Bool :=
  issue.start == start && issue.stop == stop

/-- The issues are those of the terms of a catalog that occur in a text and are not exempt, and each
of these terms has exactly one issue with its range. -/
structure Enforces (catalog : List Substitution) (t : Text) (issues : List Issue) : Prop where
  found : ∀ e ∈ catalog, ∀ start matched, OccursAt e.phrase t start matched →
    ¬ IsExempt e t start →
      issues.filter (hasRange start (start + matched.byteLength)) = [termIssue e start matched]
  only : ∀ issue ∈ issues, ∃ e ∈ catalog, ∃ start matched, OccursAt e.phrase t start matched ∧
    ¬ IsExempt e t start ∧ issue = termIssue e start matched

/-- The rule reports the terms that occur and whose preferred term is not said in their place. -/
theorem mem_checkTerminology_iff (t : Text) (issue : Issue) :
    issue ∈ checkTerminology t ↔
      ∃ e ∈ terminology, ∃ start matched, OccursAt e.phrase t start matched ∧
        ¬ SaysAt e.preferred t start ∧ issue = termIssue e start matched := by
  have hissue : ∀ (e : Substitution) (o : Occurrence), o.stop = o.start + o.matched.byteLength →
      substitutionIssue .terminology .error (fun preferred word => "Use ".toList ++ quoted preferred
        ++ " instead of ".toList ++ quoted word ++ ".".toList) e o
      = termIssue e o.start o.matched := by
    intro e o hstop
    simp only [substitutionIssue, Issue.replaceWith, termIssue, hstop]
  rw [checkTerminology, List.mem_map]
  constructor
  · rintro ⟨⟨e, o⟩, h, rfl⟩
    obtain ⟨ho, hthere⟩ := List.mem_filter.1 h
    obtain ⟨he, hstop, hoccurs⟩ := (mem_occurrences_iff e o).1 ho
    refine ⟨e, List.mem_of_getElem? he, o.start, o.matched, hoccurs, ?_, hissue e o hstop⟩
    rw [saysAt_iff]
    simpa using hthere
  · rintro ⟨e, he, start, matched, hoccurs, hthere, rfl⟩
    obtain ⟨k, hk⟩ := List.mem_iff_getElem?.1 he
    refine ⟨(e, ⟨k, start, start + matched.byteLength, matched⟩), List.mem_filter.2 ⟨?_, ?_⟩,
      hissue e _ rfl⟩
    · exact (mem_occurrences_iff e _).2 ⟨hk, rfl, hoccurs⟩
    · rw [saysAt_iff] at hthere
      simpa using hthere

example : (checkTerminology "Email me your email address".toList).map
    (fun i => (i.start, i.replacement)) = [(0, some "Email address".toList)] := by
  decide +kernel

/-- No two issues of the rule have the same range. -/
theorem pairwise_checkTerminology (t : Text) :
    (checkTerminology t).Pairwise fun a b => (a.start, a.stop) ≠ (b.start, b.stop) := by
  rw [checkTerminology, List.pairwise_map]
  exact (pairwise_occurrences terminology_nodup).filter _

/-- An issue is the only one with its range, where no two issues have the same. -/
theorem filter_hasRange_eq_singleton {issues : List Issue} {issue : Issue}
    (h : issues.Pairwise fun a b => (a.start, a.stop) ≠ (b.start, b.stop)) (hi : issue ∈ issues) :
    issues.filter (hasRange issue.start issue.stop) = [issue] := by
  have hself : hasRange issue.start issue.stop issue = true := by simp [hasRange]
  have hmem : issue ∈ issues.filter (hasRange issue.start issue.stop) :=
    List.mem_filter.2 ⟨hi, hself⟩
  have hsame : ∀ a ∈ issues.filter (hasRange issue.start issue.stop),
      (a.start, a.stop) = (issue.start, issue.stop) := by
    intro a ha
    have hrange := (List.mem_filter.1 ha).2
    simp only [hasRange, Bool.and_eq_true, beq_iff_eq] at hrange
    rw [hrange.1, hrange.2]
  match hfilter : issues.filter (hasRange issue.start issue.stop), h.filter _, hmem, hsame with
  | [a], _, hmem, _ => rw [List.mem_singleton.1 hmem]
  | a :: b :: rest, hpairwise, _, hsame =>
    have hab := (List.pairwise_cons.1 hpairwise).1 b (List.mem_cons_self ..)
    exact absurd ((hsame a (by simp)).trans (hsame b (by simp)).symm) hab

/-- A catalog that lacks only terms which do not occur is enforced along with the rest. -/
theorem Enforces.of_filter {catalog : List Substitution} {t : Text} {issues : List Issue}
    {p : Substitution → Bool} (h : Enforces (catalog.filter p) t issues)
    (hp : ∀ e ∈ catalog, p e = false → ∀ start matched, ¬ OccursAt e.phrase t start matched) :
    Enforces catalog t issues where
  found e he start matched hoccurs := by
    cases hpe : p e with
    | true => exact h.found e (List.mem_filter.2 ⟨he, hpe⟩) start matched hoccurs
    | false => exact absurd hoccurs (hp e he hpe start matched)
  only issue hissue := by
    obtain ⟨e, he, hfrom⟩ := h.only issue hissue
    exact ⟨e, (List.mem_filter.1 he).1, hfrom⟩

/-- The terms that do not begin with the preferred one are enforced. -/
theorem enforces_longer_terms (t : Text) :
    Enforces (terminology.filter fun e => !e.isShortening) t (checkTerminology t) where
  found e he start matched hoccurs hexempt := by
    obtain ⟨he, hlonger⟩ := List.mem_filter.1 he
    have hthere : ¬ SaysAt e.preferred t start := by
      rw [saysAt_preferred_iff he hoccurs]
      rintro (h | h)
      · exact hexempt h
      · simp [h] at hlonger
    have hmem : termIssue e start matched ∈ checkTerminology t :=
      (mem_checkTerminology_iff t _).2 ⟨e, he, start, matched, hoccurs, hthere, rfl⟩
    exact filter_hasRange_eq_singleton (pairwise_checkTerminology t) hmem
  only issue hissue := by
    obtain ⟨e, he, start, matched, hoccurs, hthere, hfrom⟩ :=
      (mem_checkTerminology_iff t issue).1 hissue
    rw [saysAt_preferred_iff he hoccurs, not_or] at hthere
    refine ⟨e, List.mem_filter.2 ⟨he, ?_⟩, start, matched, hoccurs, hthere.1, hfrom⟩
    simpa using hthere.2

/-- **The rule enforces the whole catalog just where no term occurs that begins with the preferred
one.**  All other terms it enforces in every text. -/
theorem enforces_checkTerminology_iff (t : Text) :
    Enforces (terminology.filter fun e => !e.isShortening) t (checkTerminology t) ∧
      (Enforces terminology t (checkTerminology t) ↔
        ∀ e ∈ terminology, e.isShortening = true →
          ∀ start matched, ¬ OccursAt e.phrase t start matched) := by
  refine ⟨enforces_longer_terms t, ?_, ?_⟩
  · intro h e he hshort start matched hoccurs
    obtain ⟨-, -, hne⟩ := terminology_lower e he
    rw [Substitution.isShortening, List.isPrefixOf_iff_prefix] at hshort
    -- a term that is longer than the preferred one is not exempt
    have hexempt : ¬ IsExempt e t start := fun hexempt =>
      hne (hexempt.1.eq_of_length_le hshort.length_le)
    have hmem : termIssue e start matched ∈
        (checkTerminology t).filter (hasRange start (start + matched.byteLength)) := by
      rw [h.found e he start matched hoccurs hexempt]
      exact List.mem_singleton_self _
    obtain ⟨e', he', start', matched', hoccurs', hthere, hissue⟩ :=
      (mem_checkTerminology_iff t _).1 (List.mem_filter.1 hmem).1
    obtain rfl : start = start' := congrArg Issue.start hissue
    have hlength : matched.byteLength = matched'.byteLength :=
      Nat.add_left_cancel (congrArg Issue.stop hissue)
    obtain ⟨-, hsame⟩ := hoccurs.same_of_range hoccurs' hlength
    rw [eqIgnoreAsciiCase_iff, (terminology_lower e he).1, (terminology_lower e' he').1] at hsame
    obtain rfl := terminology_inj e he e' he' hsame
    exact hthere (hoccurs.saysAt_of_begins hshort)
  · intro hnone
    refine (enforces_longer_terms t).of_filter fun e he hshort => hnone e he ?_
    simpa using hshort

/-- The text "click on it". -/
def clickOnText : Text := "click on it".toList

/-- In "click on it" the term "click on" occurs, and nothing is reported. -/
theorem not_enforces_clickOn :
    ¬ Enforces terminology clickOnText (checkTerminology clickOnText) := by
  intro h
  let clickOn : Substitution := ⟨"click on".toList, "click".toList⟩
  have hmem : clickOn ∈ terminology := by decide +kernel
  have hoccurs : OccursAt clickOn.phrase clickOnText 0 clickOn.phrase :=
    ⟨[], " it".toList, by decide +kernel, rfl, by decide +kernel, by decide +kernel,
      by decide +kernel⟩
  have hlonger : ¬ clickOn.phrase <+: clickOn.preferred := by decide +kernel
  have hfound := h.found clickOn hmem 0 clickOn.phrase hoccurs fun hexempt => hlonger hexempt.1
  have hnothing : checkTerminology clickOnText = [] := by decide +kernel
  rw [hnothing] at hfound
  cases hfound

end CodeProse.Style

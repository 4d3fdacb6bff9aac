/-
# Correcting a text again and again

A corrected text may have new issues, and its corrected text new ones. This comes to an end
(`exists_settled`): a weight of the text goes down with each correction.

Words weigh at least as much as what comes in their place: "login" as much as "sign in" and one more.
One exchange is longer than what it replaces and yet makes nothing lighter, "email address" for
"email". The word "address" weighs nothing, so it adds nothing either, and an "email" which it does
not complete weighs one more than one that it completes. White space does not matter to the weight,
which is therefore one of beads.

The proof is by induction on the row of exchanges, from the front (`weight_substituteFrom`). What is
in front of an exchange is not completed by the exchanged phrase, so it does not become heavier.
-/
import CodeProse.Proofs.CodeSafety
import CodeProse.Proofs.Idempotence

namespace CodeProse

open Text (atoms beads spaced gapAfter spaced_append atoms_append joins)
open Unicode

namespace Style

/-! ## Weights -/

/-- The words whose weight is not one: those in whose place more than one word comes, those that
change without becoming fewer, and the word that completes a term. -/
def specialWeights : List (Text × Nat) :=
  [("login", 3), ("logout", 3), ("username", 3), ("setup", 3), ("backup", 3), ("popup", 3),
    ("dropdown", 3), ("checkbox", 3), ("website", 3), ("hang", 3), ("t", 2), ("re", 2), ("s", 2),
    ("easy", 2), ("kill", 2), ("execute", 2), ("abort", 2), ("terminate", 2), ("guys", 2),
    ("manpower", 2), ("man", 2), ("mankind", 2), ("address", 0)].map fun p => (p.1.toList, p.2)

/-- The weight of an atom; only words have any. -/
def atomWeight (a : Text) : Nat :=
  if isWordAtom a then (specialWeights.lookup a).getD 1 else 0

/-- Whether beads begin, behind white space, with the word that completes the term "email". Where
there are none, `next` tells whether what follows does. -/
def completesEmail (next : Bool) : List (Text × Bool) → Bool
  | [] => next
  | (a, mark) :: _ => mark && "address".toList.isPrefixOf a

/-- The weight of beads. The term "email" weighs one more where it is not completed. -/
def weight (next : Bool) : List (Text × Bool) → Nat
  | [] => 0
  | (a, _) :: rest =>
    atomWeight a + (if a = "email".toList ∧ completesEmail next rest = false then 1 else 0)
      + weight next rest

variable {next : Bool} {x y : List (Text × Bool)}

theorem completesEmail_append :
    completesEmail next (x ++ y) = completesEmail (completesEmail next y) x := by
  cases x <;> rfl

theorem weight_append :
    weight next (x ++ y) = weight (completesEmail next y) x + weight next y := by
  induction x with
  | nil => simp [weight]
  | cons b x ih =>
    obtain ⟨a, mark⟩ := b
    rw [List.cons_append, weight, weight, ih, completesEmail_append]
    omega

/-- Nothing is heavier than where it is not completed. -/
theorem weight_le : weight next x ≤ weight false x := by
  induction x with
  | nil => rfl
  | cons b x ih =>
    obtain ⟨a, mark⟩ := b
    have hlast : completesEmail next x = false → completesEmail false x = false := by
      cases x with
      | nil => exact fun _ => rfl
      | cons => exact id
    rw [weight, weight]
    by_cases hopen : a = "email".toList ∧ completesEmail next x = false
    · rw [if_pos hopen, if_pos ⟨hopen.1, hlast hopen.2⟩]
      omega
    · rw [if_neg hopen]
      omega

/-- White space in front of beads does not matter to their weight. -/
theorem weight_spaced (gap : Bool) (row : List Text) :
    weight next (spaced gap row) = weight next (spaced false row) := by
  induction row with
  | nil => rfl
  | cons a row ih =>
    cases hblank : Text.isBlank a with
    | true => rw [Text.spaced_cons_of_blank _ hblank, Text.spaced_cons_of_blank _ hblank]
    | false =>
      rw [Text.spaced_cons_of_visible _ hblank, Text.spaced_cons_of_visible _ hblank]
      rfl

/-- A bead weighs three at most, with what an uncompleted term weighs more. -/
theorem weight_le_length : weight next x ≤ 3 * x.length := by
  have hspecial : ∀ p ∈ specialWeights, p.2 ≤ 3 ∧ p.1 ≠ "email".toList := by decide +kernel
  have hatom : ∀ a, atomWeight a + (if a = "email".toList then 1 else 0) ≤ 3 := by
    intro a
    rw [atomWeight]
    split
    case isFalse => split <;> omega
    case isTrue =>
      cases hlookup : specialWeights.lookup a with
      | none =>
        rw [Option.getD_none]
        split <;> omega
      | some n =>
        obtain ⟨front, back, hrow, -⟩ := List.lookup_eq_some_iff.1 hlookup
        obtain ⟨hn, hne⟩ := hspecial (a, n) (by rw [hrow]; simp)
        rw [Option.getD_some, if_neg hne]
        exact hn
  induction x with
  | nil => exact Nat.le_refl 0
  | cons b x ih =>
    obtain ⟨a, mark⟩ := b
    have ha := hatom a
    rw [weight, List.length_cons]
    by_cases hemail : a = "email".toList <;> simp only [hemail, if_true, if_false, true_and,
      false_and] at ha ⊢
    · split <;> omega
    · omega

theorem length_spaced_le (gap : Bool) (row : List Text) : (spaced gap row).length ≤ row.length := by
  induction row generalizing gap with
  | nil => exact Nat.le_refl 0
  | cons a row ih =>
    have htrue := ih true
    have hfalse := ih false
    rw [spaced]
    split <;> simp only [List.length_cons] <;> omega

theorem length_atoms_le (t : Text) : (atoms t).length ≤ t.length := by
  induction t with
  | nil => exact Nat.le_refl 0
  | cons c t ih =>
    rw [atoms]
    split
    case h_1 => simp
    case h_2 a rest hrow =>
      rw [hrow] at ih
      split <;> simp only [List.length_cons] at ih ⊢ <;> omega

/-! ## Exchanges make lighter -/

/-- What comes in the place of a phrase weighs less, but as much in the place of the term "email" if
that is completed. -/
theorem weights_of_mem_exchanges : ∀ p ∈ exchanges,
    weight false (spaced false (atoms p.2)) < weight true (spaced false (atoms p.1)) ∨
      atoms p.1 = ["email".toList] ∧
        weight false (spaced false (atoms p.2)) = weight true (spaced false (atoms p.1)) ∧
        weight false (spaced false (atoms p.2)) < weight false (spaced false (atoms p.1)) := by
  decide +kernel

/-- **Each exchange makes lighter**, unless it is of the term "email" and that is completed already:
then it makes nothing heavier. -/
theorem weight_lt_of_mem_exchanges {p : Text × Text} (hp : p ∈ exchanges)
    (gap next next' : Bool) :
    weight next' (spaced gap (atoms p.2)) < weight next (spaced gap (atoms p.1)) ∨
      atoms p.1 = ["email".toList] ∧ next = true ∧
        weight next' (spaced gap (atoms p.2)) ≤ weight next (spaced gap (atoms p.1)) := by
  have hnew := @weight_le next' (spaced false (atoms p.2))
  have hold := @weight_le true (spaced false (atoms p.1))
  rw [weight_spaced gap, weight_spaced gap]
  cases next with
  | false =>
    rcases weights_of_mem_exchanges p hp with hless | ⟨-, -, hless⟩
    · exact .inl (by omega)
    · exact .inl (by omega)
  | true =>
    rcases weights_of_mem_exchanges p hp with hless | ⟨hemail, hsame, -⟩
    · exact .inl (by omega)
    · exact .inr ⟨hemail, rfl, by omega⟩

/-- An exchanged phrase completes no term, and it ends in a visible atom. -/
theorem completesEmail_of_mem_exchanges : ∀ p ∈ exchanges, ∀ gap : Bool,
    completesEmail true (spaced gap (atoms p.1)) = false ∧
      gapAfter gap (atoms p.1) = false := by
  decide +kernel

/-- A fix does not exchange the term "email" where the text completes it. -/
def SparesCompleted (given : Text) (f : Fix) : Prop :=
  ∀ left gone right, given = left ++ gone ++ right → left.byteLength = f.start →
    f.start + gone.byteLength = f.stop → atoms gone = ["email".toList] →
      completesEmail false (spaced false (atoms right)) = false

/-- **A row of exchanges makes lighter.**  No exchange adds to the weight, and each that spares
completed terms takes off one at least; `n` is one if all do. -/
theorem weight_substituteFrom {n : Nat} (hn : n ≤ 1) {fixes : List Fix} {lead t s : Text}
    (gap : Bool) (h : substituteFrom lead.byteLength fixes t = some s)
    (hexchange : ∀ f ∈ fixes, IsExchange (lead ++ t) f)
    (hspares : n = 1 → ∀ f ∈ fixes, SparesCompleted (lead ++ t) f) :
    weight false (spaced gap (atoms s)) + n * fixes.length
      ≤ weight false (spaced gap (atoms t)) := by
  -- by induction on the fixes; the first one stands in front of all others
  induction fixes generalizing lead t s gap with
  | nil =>
    obtain rfl : t = s := Option.some.inj h
    simp
  | cons f rest ih =>
    obtain ⟨left, gone, right, later, rfl, hstart, hstop, hlater, rfl⟩ :=
      (substituteFrom_cons_eq_some_iff _ _ _ _ _).1 h
    obtain ⟨p, hp, hgone, htext, -, -, hleft, hright⟩ :=
      (hexchange f List.mem_cons_self).around hstart hstop
    have hnext : f.stop = (lead ++ left ++ gone).byteLength := by
      simp only [Text.byteLength_append]
      omega
    have hwhole : lead ++ (left ++ gone ++ right) = lead ++ left ++ gone ++ right := by simp
    rw [hnext] at hlater
    rw [hwhole] at hexchange hspares
    have hothers : ∀ g ∈ rest, IsExchange (lead ++ left ++ gone ++ right) g := fun g hg =>
      hexchange g (List.mem_cons_of_mem f hg)
    have hrest := ih false hlater hothers fun h1 g hg => hspares h1 g (List.mem_cons_of_mem f hg)
    have hafter := any_head?_of_substituteFrom hlater hothers hright
    have hold : atoms (left ++ gone ++ right) = atoms left ++ (atoms p.1 ++ atoms right) := by
      rw [List.append_assoc, atoms_append (by simp [joins, hleft]),
        atoms_append (by simp [joins, hright]), hgone]
    have hnew : atoms (left ++ f.text ++ later) = atoms left ++ (atoms p.2 ++ atoms later) := by
      rw [List.append_assoc, atoms_append (by simp [joins, hleft]),
        atoms_append (by simp [joins, hafter]), htext]
    obtain ⟨g, hg⟩ : ∃ g, gapAfter gap (atoms left) = g := ⟨_, rfl⟩
    obtain ⟨hcompletes, hvisible⟩ := completesEmail_of_mem_exchanges p hp g
    -- the exchanged phrase completes nothing, so what is in front of it does not become heavier
    have hfront : ∀ ys, completesEmail false (spaced g (atoms p.1) ++ ys) = false := by
      intro ys
      cases hrow : spaced g (atoms p.1) with
      | nil =>
        rw [hrow] at hcompletes
        cases hcompletes
      | cons b bs => rwa [hrow] at hcompletes
    rw [hold, hnew, spaced_append, spaced_append, spaced_append, spaced_append, hg, hvisible,
      weight_append, weight_append, weight_append, weight_append, hfront,
      weight_spaced (gapAfter g (atoms p.2)) (atoms later), List.length_cons, Nat.mul_add,
      Nat.mul_one]
    obtain ⟨ys, hys⟩ : ∃ ys, spaced (gapAfter g (atoms p.2)) (atoms later) = ys := ⟨_, rfl⟩
    rw [hys]
    have hlight := @weight_le (completesEmail false (spaced g (atoms p.2) ++ ys))
      (spaced gap (atoms left))
    rcases weight_lt_of_mem_exchanges hp g (completesEmail false (spaced false (atoms right)))
      (completesEmail false ys) with hless | ⟨hemail, hdone, hle⟩
    · omega
    · -- an exchange that keeps the weight is of a completed term
      have hnone : n ≠ 1 := by
        intro h1
        have hspared := hspares h1 f List.mem_cons_self (lead ++ left) gone right rfl
          (by rw [Text.byteLength_append]; omega) hstop (hgone.trans hemail)
        rw [hspared] at hdone
        cases hdone
      omega

/-! ## What the rules exchange -/

/-- Every issue that some of the rules find is one that all of them find. -/
theorem mem_check_default {checks : StyleChecks} {analyzer : Analyzer} {t : Text} {i : Issue}
    (h : i ∈ check checks analyzer t) : i ∈ check {} analyzer t := by
  simp only [check, List.mem_append, if_true] at h ⊢
  rcases h with (((((h | h) | h) | h) | h) | h) | h <;> replace h := mem_of_mem_ite h <;> tauto

/-- The term "email" is in one entry only. -/
theorem preferred_of_email : (∀ e ∈ substitutionEntries, atoms e.phrase = ["email".toList] →
      e.preferred = "email address".toList) ∧
    ∀ e ∈ weakWords ++ prohibited, atoms e.phrase ≠ ["email".toList] := by
  decide +kernel

/-- Where the term "email" is to be replaced, the text does not go on to "email address". -/
theorem not_saysAt_of_mem_check {t r gone left right : Text} {i : Issue} (hi : i ∈ check {} analyze t)
    (hr : i.replacement = some r) (ht : t = left ++ gone ++ right)
    (hstart : left.byteLength = i.start) (hstop : i.start + gone.byteLength = i.stop)
    (hemail : atoms gone = ["email".toList]) : ¬ SaysAt "email address".toList t i.start := by
  have hslice : Text.slice? i.start i.stop t = some gone :=
    (Text.slice?_eq_some_iff _ _ _ _).2 ⟨left, right, ht, hstart, hstop⟩
  -- the phrase that was found is the term
  have hphrase : ∀ {phrase matched : Text}, OccursAt phrase t i.start matched →
      i.stop = i.start + matched.byteLength → atoms phrase = ["email".toList] := by
    intro phrase matched hoccurs hlength
    rw [hlength, hoccurs.slice] at hslice
    obtain rfl := Option.some.inj hslice
    obtain ⟨left', right', -, -, hbetween⟩ := hoccurs
    rw [← hemail, Text.atoms_eq_iff, (eqIgnoreAsciiCase_iff _ _).1 hbetween.same]
  by_cases hrule : i.rule.isSubstitution = true
  · obtain ⟨e, he, hprefers, hsaid⟩ := prefers_of_mem_check hi hrule
    obtain ⟨matched, hoccurs, hlength, -⟩ := hprefers.replaced
    rwa [preferred_of_email.1 e he (hphrase hoccurs hlength)] at hsaid
  · have hdiscouraged : ∀ {catalog : List Discouraged} {rule : Rule} {severity : Severity}
        {message : Text → Text}, catalog ⊆ weakWords ++ prohibited →
        i ∉ (occurrences catalog (·.phrase) t).map fun p =>
          discouragedIssue rule severity message p.1 p.2 := by
      intro catalog rule severity message hcatalog h
      obtain ⟨⟨e, o⟩, ho, rfl⟩ := List.mem_map.1 h
      obtain ⟨he, hlength, hoccurs⟩ := (mem_occurrences_iff e o).1 ho
      exact preferred_of_email.2 e (hcatalog (List.mem_of_getElem? he)) (hphrase hoccurs hlength)
    rcases mem_check_iff.1 hi with h | h | h | h | h | h | h
    · exact absurd h (hdiscouraged (by simp))
    · obtain ⟨m, -, rfl⟩ := List.mem_map.1 h
      cases hr
    · obtain ⟨m, -, rfl⟩ := List.mem_map.1 h
      exact absurd rfl hrule
    · obtain ⟨m, -, rfl⟩ := List.mem_map.1 h
      exact absurd rfl hrule
    · exact absurd h (hdiscouraged (by simp))
    · obtain ⟨m, -, rfl⟩ := List.mem_map.1 h
      exact absurd rfl hrule
    · obtain ⟨m, -, rfl⟩ := List.mem_map.1 h
      cases hr

/-- In a collapsed text, what is to be replaced is no term that the text completes already. -/
theorem sparesCompleted_of_mem_check {t r : Text} {i : Issue} (ht : Text.IsCollapsed t)
    (hi : i ∈ check {} analyze t) (hr : i.replacement = some r) :
    SparesCompleted t ⟨i.start, i.stop, r⟩ := by
  intro left gone right hsplit hstart hstop hemail
  rw [Bool.eq_false_iff]
  intro hcompletes
  refine not_saysAt_of_mem_check hi hr hsplit hstart hstop hemail ?_
  cases hrow : spaced false (atoms right) with
  | nil =>
    rw [hrow] at hcompletes
    cases hcompletes
  | cons b ys =>
    obtain ⟨a, mark⟩ := b
    rw [hrow, completesEmail, Bool.and_eq_true, List.isPrefixOf_iff_prefix] at hcompletes
    obtain ⟨rfl, haddress⟩ := hcompletes
    -- the completing word is a bead behind a blank, and the text has just that blank
    have hblank : ' ' :: a <+: right.map Char.toLower := by
      refine Text.prefix_of_marked ?_ ?_ hrow
      · intro x y hxy
        exact ht.single x y (hxy.trans ⟨left ++ gone, [], by rw [hsplit, List.append_nil]⟩)
      · intro x hx
        exact ht.blank x (by simp [hsplit, hx])
    have hgoes : " address".toList <+: right.map Char.toLower := by
      refine List.IsPrefix.trans ?_ hblank
      rw [show " address".toList = ' ' :: "address".toList from rfl, List.cons_prefix_cons]
      exact ⟨rfl, haddress⟩
    obtain ⟨more, hmore⟩ := hgoes
    obtain ⟨said, rest, rfl, hsaid, -⟩ := List.map_eq_append_iff.1 hmore.symm
    have hgone : gone.map Char.toLower = "email".toList := by
      rw [← Text.flatten_atoms, hemail]
      rfl
    refine ⟨left, gone ++ said, rest, by rw [hsplit]; simp, hstart, ?_⟩
    rw [eqIgnoreAsciiCase_iff, List.map_append, hgone, hsaid]
    decide +kernel

end Style

/-! ## Rounds of correction -/

namespace Correction

open Style

/-- The text after a number of rounds of correction by the style rules that apply; each round checks
what the last one made of the text. There is none once a round has nothing to correct. -/
def rounds (checks : StyleChecks) (t : Text) : Nat → Option Text
  | 0 => some t
  | k + 1 => (rounds checks t k).bind fun u => (reconcile u (check checks analyze u)).corrected

variable {checks : StyleChecks} {t c : Text}

/-- **A correction makes lighter**, unless the text was not collapsed; then it makes nothing
heavier. -/
theorem weight_corrected (h : (reconcile t (check checks analyze t)).corrected = some c) :
    Text.IsCollapsed c ∧ weight false (beads c) ≤ weight false (beads t) ∧
      (Text.IsCollapsed t → weight false (beads c) < weight false (beads t)) := by
  have hissue : ∀ f ∈ inTextOrder (replacements (reconcile t (check checks analyze t)).issues),
      ∃ i ∈ check {} analyze t, i.replacement = some f.text ∧ ⟨i.start, i.stop, f.text⟩ = f := by
    intro f hf
    obtain ⟨i, hi, hstart, hstop, hr⟩ := exists_issue_of_mem_replacements (List.mem_mergeSort.1 hf)
    exact ⟨i, mem_check_default hi, hr, by rw [hstart, hstop]⟩
  have hexchange : ∀ f ∈ inTextOrder (replacements (reconcile t (check checks analyze t)).issues),
      IsExchange t f := by
    intro f hf
    obtain ⟨i, hi, hr, hf⟩ := hissue f hf
    rw [← hf]
    exact isExchange_of_mem_check hi hr
  have hends : ∀ i ∈ check checks analyze t, i.replacement.isSome = true →
      EndsVisible t i.start i.stop := by
    intro i hi hr
    obtain ⟨r, hr⟩ := Option.isSome_iff_exists.1 hr
    exact endsVisible_of_isExchange (isExchange_of_mem_check (mem_check_default hi) hr)
  obtain ⟨hcollapsed, s, hs, hbeads⟩ := beads_corrected hends h
  refine ⟨hcollapsed, ?_, fun ht => ?_⟩
  · have hsame := @weight_substituteFrom 0 (by omega) _ [] t s true hs hexchange (by simp)
    rw [hbeads]
    rw [Nat.zero_mul, Nat.add_zero] at hsame
    exact hsame
  · have hless := @weight_substituteFrom 1 (by omega) _ [] t s true hs hexchange fun _ f hf => by
      obtain ⟨i, hi, hr, hf⟩ := hissue f hf
      rw [← hf]
      exact sparesCompleted_of_mem_check ht hi hr
    obtain ⟨j, hj, hr⟩ := (isSome_corrected_iff t _).1 (by rw [h]; rfl)
    obtain ⟨r, hr⟩ := Option.isSome_iff_exists.1 hr
    have hpos : 0 < (inTextOrder
        (replacements (reconcile t (check checks analyze t)).issues)).length := by
      refine List.length_pos_of_mem (a := ⟨j.start, j.stop, r⟩) (List.mem_mergeSort.2 ?_)
      exact List.mem_filterMap.2 ⟨j, hj, by rw [hr, Option.map_some]⟩
    rw [hbeads]
    show weight false (spaced true (atoms s)) < weight false (spaced true (atoms t))
    omega

/-- The rounds after a correction are those of the corrected text. -/
theorem rounds_succ (h : (reconcile t (check checks analyze t)).corrected = some c) (k : Nat) :
    rounds checks t (k + 1) = rounds checks c k := by
  induction k with
  | zero => exact h
  | succ k ih => rw [rounds, ih, rounds]

/-- No issue of a text that is not corrected has a replacement left. -/
theorem replacement_of_corrected_none {issues : List Issue}
    (h : (reconcile t issues).corrected = none) :
    ∀ i ∈ (reconcile t issues).issues, i.replacement = none := by
  intro i hi
  by_contra hsome
  have hcorrected := (isSome_corrected_iff t issues).2 ⟨i, hi, Option.isSome_iff_ne_none.2 hsome⟩
  rw [h] at hcorrected
  cases hcorrected

/-- From a collapsed text, the rounds come to an end before its weight is used up. -/
theorem exists_settled_of_isCollapsed (ht : Text.IsCollapsed t) :
    ∃ k ≤ weight false (beads t), ∃ u, rounds checks t k = some u ∧
      (reconcile u (check checks analyze u)).corrected = none := by
  -- by induction on the weight, which a round lowers
  induction hw : weight false (beads t) using Nat.strongRecOn generalizing t with
  | ind w ih =>
    cases hround : (reconcile t (check checks analyze t)).corrected with
    | none => exact ⟨0, Nat.zero_le _, t, rfl, hround⟩
    | some c =>
      obtain ⟨hc, -, hless⟩ := weight_corrected hround
      have hless := hless ht
      obtain ⟨k, hk, u, hu, hsettled⟩ := ih _ (by omega) hc rfl
      exact ⟨k + 1, by omega, u, by rw [rounds_succ hround, hu], hsettled⟩

/-- **Repeated correction ends**, whichever rules apply: after finitely many rounds, three for each
character of the text and one more at most, no replacement is left, and there is no further round. -/
theorem exists_settled (checks : StyleChecks) (t : Text) :
    ∃ k ≤ 3 * t.length + 1, ∃ u, rounds checks t k = some u ∧
      (∀ i ∈ (reconcile u (check checks analyze u)).issues, i.replacement = none) ∧
        rounds checks t (k + 1) = none := by
  have hweight : weight false (beads t) ≤ 3 * t.length := by
    have hbeads := @weight_le_length false (beads t)
    have hatoms := length_spaced_le true (atoms t)
    have hlength := length_atoms_le t
    rw [beads] at hbeads ⊢
    omega
  cases hround : (reconcile t (check checks analyze t)).corrected with
  | none => exact ⟨0, Nat.zero_le _, t, rfl, replacement_of_corrected_none hround, hround⟩
  | some c =>
    -- the first round collapses the text; from then on each one lowers the weight
    obtain ⟨hc, hle, -⟩ := weight_corrected hround
    obtain ⟨k, hk, u, hu, hsettled⟩ := @exists_settled_of_isCollapsed checks c hc
    refine ⟨k + 1, by omega, u, by rw [rounds_succ hround, hu],
      replacement_of_corrected_none hsettled, ?_⟩
    rw [rounds_succ hround, rounds, hu]
    exact hsettled

end Correction

end CodeProse

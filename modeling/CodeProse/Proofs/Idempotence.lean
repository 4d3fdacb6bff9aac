/-
# Checking a corrected text again

A unit has an issue with a replacement wherever a phrase stands that the substitution rules report,
and reconciling drops a replacement only where it meets a kept one. So none of the phrases that
cannot come up anew is reported in the corrected text (`ExchangesAll.not_flaggedIn`). Checking the
corrected text again then finds nothing for these rules just if none of the three other phrases
occurs in it (`idempotent_iff`). They do come up: "web page" where a line break in it is collapsed or
a word in it deleted (`not_idempotent_of_broken_term`), and "they're" where "he/she" is replaced in
front of "'re".
-/
import CodeProse.Proofs.Beads
import CodeProse.Proofs.FileFixes
import CodeProse.Proofs.Style.Report
import CodeProse.Proofs.Suppression

namespace CodeProse

open Unicode

/-! ## Corrected texts -/

namespace Correction

open Style

/-- The replacements of issues exchange phrases, and each phrase that occurs and whose preferred one
is not said has an issue with a replacement. -/
structure ExchangesAll (t : Text) (issues : List Issue) : Prop where
  only : ∀ i ∈ issues, ∀ r, i.replacement = some r → IsExchange t ⟨i.start, i.stop, r⟩
  found : ∀ e ∈ substitutionEntries, ∀ start matched, OccursAt e.phrase t start matched →
    ¬ SaysAt e.preferred t start → ∃ i ∈ issues, i.start = start ∧
      i.stop = start + matched.byteLength ∧ i.replacement.isSome = true

variable {t : Text} {issues : List Issue}

/-- What is exchanged ends in a visible character. -/
theorem endsVisible_of_isExchange {f : Fix} (h : IsExchange t f) :
    EndsVisible t f.start f.stop := by
  intro gone hgone
  obtain ⟨p, hp, matched, hoccurs, hstop, -⟩ := h
  rw [hstop, hoccurs.slice] at hgone
  obtain rfl := Option.some.inj hgone
  obtain ⟨left, right, -, -, hoccurs⟩ := hoccurs
  have hlast := (hoccurs.ends (isSolid_of_mem_exchanges p hp).1).2.1
  cases hend : matched.getLast? with
  | none => rfl
  | some c =>
    rw [hend, Option.any_some] at hlast
    rw [Option.any_some, Bool.eq_false_iff]
    intro hblank
    rw [Text.not_isAsciiWordChar_of_isWhitespace hblank] at hlast
    cases hlast

/-- Issues clear a text of a phrase: their replacements exchange phrases, and this one can come up
at none of them; and each place where the phrase is to be replaced has its issue. -/
structure Clears (e : Substitution) (t : Text) (issues : List Issue) : Prop where
  not_shortening : e.isShortening = false
  plain : ∀ a ∈ Text.atoms e.phrase, Text.isPlainAtom a = true
  only : ∀ i ∈ issues, ∀ r, i.replacement = some r →
    IsExchange t ⟨i.start, i.stop, r⟩ ∧ isSafe e (Text.atoms r) = true
  found : ∀ start matched, OccursAt e.phrase t start matched → ¬ SaysAt e.preferred t start →
    ∃ i ∈ issues, i.start = start ∧ i.stop = start + matched.byteLength ∧
      i.replacement.isSome = true

/-- What the issues of all rules exchange brings up no phrase that cannot come up. -/
theorem ExchangesAll.clears (h : ExchangesAll t issues) {e : Substitution}
    (he : e ∈ substitutionEntries) (hstable : e.isStable = true) : Clears e t issues where
  not_shortening := by
    rw [Substitution.isStable, Bool.and_eq_true, Bool.not_eq_true'] at hstable
    exact hstable.1
  plain := isPlainAtom_of_mem e he hstable
  only i hi r hr := by
    have hexchange := h.only i hi r hr
    obtain ⟨p, hp, matched, -, -, rfl⟩ := id hexchange
    exact ⟨hexchange, by rw [atoms_matchCase hp]; exact isSafe_of_mem e he hstable p hp⟩
  found := h.found e he

/-- A phrase in the corrected text stands in the given one, clear of the kept edits. -/
theorem Clears.standsClear {e : Substitution} (h : Clears e t issues)
    (he : e ∈ substitutionEntries) {c : Text} (hc : (reconcile t issues).corrected = some c)
    (hflagged : FlaggedIn e (Text.atoms c)) :
    StandsClear e 0 t (inTextOrder (replacements (reconcile t issues).issues)) := by
  have hends : ∀ i ∈ issues, i.replacement.isSome = true → EndsVisible t i.start i.stop := by
    intro i hi hr
    obtain ⟨r, hr⟩ := Option.isSome_iff_exists.1 hr
    exact endsVisible_of_isExchange (h.only i hi r hr).1
  obtain ⟨hcollapsed, s, hs, hbeads⟩ := beads_corrected hends hc
  have hkept : ∀ f ∈ inTextOrder (replacements (reconcile t issues).issues),
      IsExchange t f ∧ isSafe e (Text.atoms f.text) = true := by
    intro f hf
    obtain ⟨i, hi, hstart, hstop, hr⟩ := exists_issue_of_mem_replacements (List.mem_mergeSort.1 hf)
    have hexchange := h.only i hi f.text hr
    rwa [hstart, hstop] at hexchange
  exact @standsClear_of_flaggedIn e he h.not_shortening _ [] t s hs (fun f hf => (hkept f hf).1)
    (fun f hf => (hkept f hf).2)
    (hflagged.of_beads_eq he h.not_shortening h.plain hcollapsed hbeads)

/-- An issue with a replacement meets one of the kept edits, its own or one that has taken what it
covers, or it ends where a blank was taken with an edit. -/
theorem meets_of_replacement {i : Issue} (hi : i ∈ issues) (hr : i.replacement.isSome = true)
    (hcovers : Text.Covers t i.start i.stop) :
    ∃ f ∈ replacements (reconcile t issues).issues,
      i.start < f.stop ∧ (f.start < i.stop ∨
        (i.stop = f.start ∧ ∃ start, Text.slice? start f.start t = some [' '])) := by
  obtain ⟨k, hk⟩ := List.mem_iff_getElem?.1 hi
  obtain ⟨r, hr'⟩ := Option.isSome_iff_exists.1 hr
  have hj := getElem?_reconcile t issues k
  rw [hk, Option.map_some] at hj
  split at hj
  case isTrue =>
    -- the replacement of the issue is kept
    refine ⟨⟨i.start, i.stop, r⟩, ?_, hcovers.lt, .inl hcovers.lt⟩
    exact List.mem_filterMap.2 ⟨i, List.mem_of_getElem? hj, by rw [hr', Option.map_some]⟩
  case isFalse =>
    have hlt := hcovers.lt
    obtain ⟨gone, -, hslice⟩ := hcovers
    rcases blocked_of_dropped hk hr hj rfl with hle | hnone | ⟨p, hp, hstop, hstart⟩
    · omega
    · rw [hslice] at hnone
      cases hnone
    · have hf : p.2.toFix ∈ replacements (reconcile t issues).issues := by
        refine (replacements_reconcile_perm t issues).symm.subset (List.mem_reverse.2 ?_)
        exact List.mem_map.2 ⟨p, hp, rfl⟩
      refine ⟨p.2.toFix, hf, hstop, ?_⟩
      show p.2.start < i.stop ∨ _
      rcases takenStart_cases hp with htaken | ⟨htaken, -, hblank⟩
      · exact .inl (by omega)
      · by_cases hmeets : p.2.start < i.stop
        · exact .inl hmeets
        · exact .inr ⟨by show i.stop = p.2.start; omega, _, hblank⟩

/-- **A phrase that a text is cleared of does not come up** in the corrected text. -/
theorem Clears.not_flaggedIn {e : Substitution} (h : Clears e t issues)
    (he : e ∈ substitutionEntries) {c : Text} (hc : (reconcile t issues).corrected = some c) :
    ¬ FlaggedIn e (Text.atoms c) := by
  intro hflagged
  obtain ⟨front, back, hrow, hcompletes, hclear⟩ := h.standsClear he hc hflagged
  have hsolid := (substitutionEntries_lower e he).1
  obtain ⟨left, matched, right, rfl, rfl, rfl, hoccurs⟩ := exists_occursBetween hsolid hrow
  have hsaid : ¬ SaysAt e.preferred (left ++ matched ++ right) left.byteLength := by
    rwa [saysAt_iff_completes he hoccurs]
  have hat : OccursAt e.phrase (left ++ matched ++ right) left.byteLength matched :=
    ⟨left, right, rfl, rfl, hoccurs⟩
  obtain ⟨i, hi, hstart, hstop, hr⟩ := h.found _ _ hat hsaid
  have hmatched : Text.byteLength (Text.atoms e.phrase).flatten = matched.byteLength := by
    rw [byteLength_flatten_atoms, hoccurs.byteLength_eq]
  have hlast := (hoccurs.ends hsolid).2.1
  have hne := ne_nil_of_any_getLast? hlast
  have hcovers : Text.Covers (left ++ matched ++ right) i.start i.stop := by
    rw [hstart, hstop]
    exact ⟨matched, hne, hat.slice⟩
  obtain ⟨f, hf, hbefore, hmeets⟩ := meets_of_replacement hi hr hcovers
  have hclear := hclear f (List.mem_mergeSort.2 hf)
  rw [List.flatten_append, Text.byteLength_append, byteLength_flatten_atoms, hmatched] at hclear
  rcases hmeets with hmeets | ⟨hends, start, hblank⟩
  · omega
  · -- the phrase would end in the blank that went with the edit
    obtain ⟨a, b, ht, ha, hone⟩ := (Text.slice?_eq_some_iff _ _ _ _).1 hblank
    have hlength : Text.byteLength (left ++ matched) = Text.byteLength (a ++ [' ']) := by
      rw [Text.byteLength_append, Text.byteLength_append]
      omega
    have hend := congrArg List.getLast? (Text.append_inj ht hlength).1
    rw [List.getLast?_append_of_ne_nil _ hne, List.getLast?_append_of_ne_nil _ (by simp)] at hend
    rw [hend] at hlast
    exact absurd hlast (by decide)

/-- **Nothing but the formable phrases comes up.**  No other phrase that the rules report stands in
the corrected text. -/
theorem ExchangesAll.not_flaggedIn (h : ExchangesAll t issues) {c : Text}
    (hc : (reconcile t issues).corrected = some c) {e : Substitution}
    (he : e ∈ substitutionEntries) (hstable : e.isStable = true) :
    ¬ FlaggedIn e (Text.atoms c) :=
  (h.clears he hstable).not_flaggedIn he hc

/-- A text is corrected only if one of the issues has a replacement. -/
theorem exists_replacement_of_corrected {issues : List Issue} {c : Text}
    (h : (reconcile t issues).corrected = some c) :
    ∃ i ∈ issues, i.replacement.isSome = true := by
  obtain ⟨j, hj, hr⟩ := (isSome_corrected_iff t issues).1 (by rw [h]; rfl)
  obtain ⟨r, hr⟩ := Option.isSome_iff_exists.1 hr
  have hf : (⟨j.start, j.stop, r⟩ : Fix) ∈ replacements (reconcile t issues).issues :=
    List.mem_filterMap.2 ⟨j, hj, by rw [hr, Option.map_some]⟩
  obtain ⟨i, hi, -, -, hr⟩ := exists_issue_of_mem_replacements hf
  exact ⟨i, hi, by rw [hr]; rfl⟩

end Correction

/-! ## Checking a corrected text again -/

namespace Checker

open Correction Style

/-- A dictionary that was just asked for is active. -/
theorem get_of_get {load : Loader} {language : Text} {cache cache' : DictionaryCache}
    {d : Dictionary} (h : cache.get load language = (.ok d, cache')) :
    cache'.get load language = (.ok d, cache') := by
  have hactive : cache'.active = some (language, d) := by
    have hreload : cache.reload load language = (.ok d, cache') →
        cache'.active = some (language, d) := by
      intro h
      rw [DictionaryCache.reload] at h
      split at h
      case h_1 d' hload =>
        obtain ⟨hd, rfl⟩ := Prod.mk.inj h
        rw [Except.ok.inj hd]
      case h_2 => cases (Prod.mk.inj h).1
    rw [DictionaryCache.get] at h
    split at h
    case h_1 active d' hactive =>
      split at h
      case isTrue hsame =>
        obtain ⟨hd, rfl⟩ := Prod.mk.inj h
        rw [hactive, hsame, Except.ok.inj hd]
      case isFalse => exact hreload h
    case h_2 => exact hreload h
  rw [DictionaryCache.get, hactive]
  simp

variable (load : Loader) (s : Settings) (t : Text) (kind : UnitKind) (cache : DictionaryCache)

/-- Without a grammar service, a unit that is not skipped is reconciled with its issues of spelling
and of style, unless there is no dictionary. -/
theorem checkUnit_of_not_skips (h : skips s t kind = false) :
    match cache.get load s.language with
    | (.error e, cache') => checkUnit load none s t kind cache = (⟨[], .error e⟩, cache')
    | (.ok d, cache') => checkUnit load none s t kind cache
        = (⟨[], .ok (reconcile t
            ((Spelling.check s d t ++ styleIssues s t kind).mergeSort earlierFirst))⟩, cache') := by
  unfold checkUnit
  rw [if_neg (by simp [h])]
  cases hget : cache.get load s.language with
  | mk d cache' =>
    cases d with
    | error e => rfl
    | ok d => simp [checkWith, grammarIssues]

variable {load s t kind cache}

/-- A unit with a corrected text has a dictionary, and is not an identifier. -/
theorem of_corrected {r : Correction} {c : Text}
    (h : (checkUnit load none s t kind cache).1.result = .ok r) (hc : r.corrected = some c) :
    kind ≠ .identifier ∧ ∃ d cache', cache.get load s.language = (.ok d, cache') ∧
      (checkUnit load none s t kind cache).2 = cache' ∧ r = reconcile t
        ((Spelling.check s d t ++ styleIssues s t kind).mergeSort earlierFirst) := by
  have hskips : skips s t kind = false := by
    rw [Bool.eq_false_iff]
    intro hskips
    rw [checkUnit, if_pos hskips] at h
    rw [← Except.ok.inj h] at hc
    obtain ⟨i, hi, -⟩ := exists_replacement_of_corrected hc
    cases hi
  have hcheck := checkUnit_of_not_skips load s t kind cache hskips
  cases hget : cache.get load s.language with
  | mk d cache' =>
    rw [hget] at hcheck
    cases d with
    | error e =>
      simp only at hcheck
      rw [hcheck] at h
      cases h
    | ok d =>
      simp only at hcheck
      rw [hcheck] at h ⊢
      obtain rfl := Except.ok.inj h
      refine ⟨?_, d, cache', rfl, rfl, rfl⟩
      rintro rfl
      obtain ⟨i, hi, hr⟩ := exists_replacement_of_corrected hc
      rw [List.mem_mergeSort, List.mem_append] at hi
      rcases hi with hi | hi
      · rw [replacement_of_mem_spelling s hi] at hr
        cases hr
      · cases hi

/-! ### Idempotence -/

/-- Where checking a unit without a grammar service gives a corrected text, checking that text
succeeds, and has no issue of a rule that puts one phrase in the place of another. -/
def Idempotent (load : Loader) (s : Settings) (t : Text) (kind : UnitKind)
    (cache : DictionaryCache) : Prop :=
  ∀ r c, (checkUnit load none s t kind cache).1.result = .ok r → r.corrected = some c →
    ∃ again, (checkUnit load none s c kind (checkUnit load none s t kind cache).2).1.result
      = .ok again ∧ ∀ i ∈ again.issues, i.rule.isSubstitution = false

theorem styleIssues_default (hstyle : s.style = {}) (hkind : kind ≠ .identifier) :
    styleIssues s t kind = check {} analyze t := by
  rw [styleIssues, if_neg hkind, hstyle]

theorem exchangesAll_of_perm {d : Dictionary} {issues : List Issue}
    (h : issues.Perm (Spelling.check s d t ++ check {} analyze t)) : ExchangesAll t issues where
  only i hi r hr := by
    rcases List.mem_append.1 (h.mem_iff.1 hi) with hi | hi
    · rw [replacement_of_mem_spelling s hi] at hr
      cases hr
    · exact isExchange_of_mem_check hi hr
  found e he start matched hoccurs hsaid := by
    obtain ⟨i, hi, -, hrange⟩ := exists_issue_of_occursAt he hoccurs hsaid
    exact ⟨i, h.mem_iff.2 (List.mem_append_right _ hi), hrange⟩

theorem isSubstitution_reconcile_iff (issues : List Issue) :
    (∀ i ∈ (reconcile t issues).issues, i.rule.isSubstitution = false) ↔
      ∀ i ∈ issues, i.rule.isSubstitution = false := by
  have hrules := map_reconcile (f := (·.rule)) (fun _ => rfl) t issues
  have hall : ∀ row : List Issue, (∀ i ∈ row, i.rule.isSubstitution = false) ↔
      ∀ rule ∈ row.map (·.rule), rule.isSubstitution = false := fun row => by simp
  rw [hall, hall, hrules]

/-- The substitution rules have nothing to report on a text just if no catalog phrase is flagged. -/
theorem isSubstitution_false_iff {d : Dictionary} {issues : List Issue}
    (h : issues.Perm (Spelling.check s d t ++ check {} analyze t)) :
    (∀ i ∈ issues, i.rule.isSubstitution = false) ↔
      ∀ e ∈ substitutionEntries, ¬ FlaggedIn e (Text.atoms t) := by
  constructor
  · intro hnone e he hflagged
    obtain ⟨start, matched, hoccurs, hsaid⟩ := (flaggedIn_atoms_iff he t).1 hflagged
    obtain ⟨i, hi, hrule, -⟩ := exists_issue_of_occursAt he hoccurs hsaid
    have hfalse := hnone i (h.mem_iff.2 (List.mem_append_right _ hi))
    rw [hrule] at hfalse
    cases hfalse
  · intro hnone i hi
    rcases List.mem_append.1 (h.mem_iff.1 hi) with hi | hi
    · obtain ⟨token, -, rfl⟩ := List.mem_map.1 hi
      rfl
    · rw [Bool.eq_false_iff]
      intro hrule
      obtain ⟨e, he, hprefers, hsaid⟩ := prefers_of_mem_check hi hrule
      obtain ⟨matched, hoccurs, -⟩ := hprefers.replaced
      exact hnone e he ((flaggedIn_atoms_iff he t).2 ⟨i.start, matched, hoccurs, hsaid⟩)

/-- **Checking a corrected text again.**  The rules that put one phrase in the place of another have
nothing to report on the corrected text just if it is skipped or none of the three formable phrases
occurs in it. -/
theorem idempotent_iff (load : Loader) (s : Settings) (t : Text) (kind : UnitKind)
    (cache : DictionaryCache) :
    Idempotent load { s with style := {} } t kind cache ↔
      ∀ r c, (checkUnit load none { s with style := {} } t kind cache).1.result = .ok r →
        r.corrected = some c → skips { s with style := {} } c kind = true ∨
          ∀ phrase ∈ formable, ∀ start matched, ¬ OccursAt phrase c start matched := by
  generalize hdefault : ({ s with style := {} } : Settings) = s'
  have hstyle : s'.style = {} := by rw [← hdefault]
  refine forall_congr' fun r => forall_congr' fun c => forall_congr' fun hr =>
    forall_congr' fun hc => ?_
  obtain ⟨hkind, d, cache', hget, hcache, rfl⟩ := of_corrected hr hc
  rw [hcache]
  by_cases hskips : skips s' c kind = true
  · have hnothing : (checkUnit load none s' c kind cache').1.result = .ok (reconcile c []) := by
      rw [checkUnit, if_pos hskips]
    refine iff_of_true ⟨_, hnothing, ?_⟩ (.inl hskips)
    rw [isSubstitution_reconcile_iff]
    simp
  · have hcheck := checkUnit_of_not_skips load s' c kind cache' (Bool.eq_false_iff.2 hskips)
    rw [get_of_get hget] at hcheck
    simp only at hcheck
    rw [styleIssues_default hstyle hkind] at hc hcheck
    have hgiven := List.mergeSort_perm (Spelling.check s' d t ++ check {} analyze t) earlierFirst
    have hagain := List.mergeSort_perm (Spelling.check s' d c ++ check {} analyze c) earlierFirst
    have hstable : ∀ e ∈ substitutionEntries, e.isStable = true →
        ¬ FlaggedIn e (Text.atoms c) := fun e he hstable =>
      (exchangesAll_of_perm hgiven).not_flaggedIn hc he hstable
    rw [hcheck, or_iff_right hskips, ← not_flaggedIn_iff_of_stable hstable,
      ← isSubstitution_false_iff hagain, ← isSubstitution_reconcile_iff (t := c)]
    constructor
    · rintro ⟨r, hr, hnone⟩
      obtain rfl := Except.ok.inj hr
      exact hnone
    · intro hnone
      exact ⟨_, rfl, hnone⟩

/-- A comment with a line break in a term and with another term. -/
def brokenText : Text := "web\npage login".toList

/-- The issue of the comment. -/
def brokenIssue : Issue := termIssue ⟨"login".toList, "sign in".toList⟩ 9 "login".toList

/-- The comment as it is corrected. -/
def joinedText : Text := "web page sign in".toList

theorem corrected_brokenText :
    (reconcile brokenText [brokenIssue]).corrected = some joinedText := by
  have hedits : orderedEdits [brokenIssue] = [⟨0, 9, 14, "sign in".toList⟩] := by
    have hedit : editsFrom 0 [brokenIssue] = [⟨0, 9, 14, "sign in".toList⟩] := by decide +kernel
    rw [orderedEdits, hedit, List.mergeSort_singleton]
  rw [reconcile_corrected, madeFor, hedits]
  decide +kernel

/-- With the default settings a comment is not skipped unless it is a word of the vocabulary. -/
theorem skips_default {t : Text} (hblank : Text.isBlank t = false)
    (hlisted : lowercase t ∉ vocabulary.map lowercase) : skips {} t .comment = false := by
  have hword : lowercase t ∉ defaultSkipWords := fun h =>
    hlisted (Spelling.mem_of_mem_skipWordSet h)
  simp [skips, Settings.checksKind, hblank, Settings.skipsValue, Settings.isSkipWord, hword]

/-- A dictionary that knows all words leaves nothing to report. -/
theorem check_default_dictionary (s : Settings) (t : Text) : Spelling.check s default t = [] := by
  have hknown : ∀ word, Spelling.isMisspelled s default word = false := by
    intro word
    show (!s.isSkipWord word && !true) = false
    simp
  simp [Spelling.check, Spelling.isError, hknown]

/-- One term is corrected, and with the line break gone another one is there that was not. -/
theorem not_idempotent_of_broken_term :
    ¬ Idempotent (fun _ _ => .ok default) {} brokenText .comment {} := by
  intro h
  have hlisted : lowercase brokenText ∉ vocabulary.map lowercase ∧
      lowercase joinedText ∉ vocabulary.map lowercase := by
    decide +kernel
  have hstyle : styleIssues {} brokenText .comment = [brokenIssue] := by decide +kernel
  have hbroken := checkUnit_of_not_skips (fun _ _ => .ok default) {} brokenText .comment {}
    (skips_default (by decide +kernel) hlisted.1)
  simp only [DictionaryCache.get, DictionaryCache.reload, check_default_dictionary, hstyle,
    List.nil_append, List.mergeSort_singleton] at hbroken
  obtain ⟨r, hr, hnone⟩ := h _ joinedText (by rw [hbroken]) corrected_brokenText
  have hjoined := checkUnit_of_not_skips (fun _ _ => .ok default) {} joinedText .comment
    (checkUnit (fun _ _ => .ok default) none {} brokenText .comment {}).2
    (skips_default (by decide +kernel) hlisted.2)
  rw [hbroken] at hr hjoined
  simp only [DictionaryCache.get, if_true] at hjoined
  rw [hjoined] at hr
  obtain rfl := Except.ok.inj hr
  -- the phrase at the start of the corrected text has its issue
  have hperm := List.mergeSort_perm
    (Spelling.check {} default joinedText ++ check {} analyze joinedText) earlierFirst
  have hclear := (isSubstitution_false_iff hperm).1 ((isSubstitution_reconcile_iff _).1 hnone)
  let webPage : Substitution := ⟨"web page".toList, "webpage".toList⟩
  have hmem : webPage ∈ substitutionEntries := by decide +kernel
  have hoccurs : OccursAt webPage.phrase joinedText 0 webPage.phrase :=
    ⟨[], " sign in".toList, by decide +kernel, rfl, by decide +kernel, by decide +kernel,
      by decide +kernel⟩
  have hsaid : ¬ SaysAt webPage.preferred joinedText 0 := by
    rw [saysAt_iff]
    decide +kernel
  exact hclear webPage hmem ((flaggedIn_atoms_iff hmem _).2 ⟨0, _, hoccurs, hsaid⟩)

end Checker

end CodeProse

/-
# Fixes and code

The fixes of the style rules bring only plain characters into a file: none that ends a line, and
none that ends text between tags. So they can do no harm in line comments, between tags and in
identifiers, which are not fixed at all. In the other units a fix can join what stands on both sides
of it to a delimiter. Where none does, scanning the fixed file finds the old units again, with the
same identifiers and nothing that was not there (`applyFixes_keepsCode_iff`).
-/
import CodeProse.Proofs.FileFixes
import CodeProse.Proofs.Source.Respelling

namespace CodeProse

open Source

/-! ## What the style rules put in -/

/-- Whether a character neither ends a line nor text between tags. -/
def isPlain (c : Char) : Bool :=
  c != '\n' && !endsChildText c

/-- Whether a replacement holds only plain characters, also with a capital. -/
def isPlainReplacement (r : Text) : Bool :=
  r.all isPlain && r.head?.all fun c => (Unicode.upperChar c).all isPlain

namespace Style

theorem isPlain_of_mem_matchCase {r : Text} (h : isPlainReplacement r = true) (matched : Text) :
    ∀ c ∈ matchCase matched r, isPlain c = true := by
  rw [isPlainReplacement, Bool.and_eq_true, List.all_eq_true] at h
  rw [matchCase.eq_def]
  split
  case isFalse => exact h.1
  case isTrue =>
    cases r with
    | nil => intro c hc; cases hc
    | cons d r =>
      intro c hc
      rcases List.mem_append.1 hc with hc | hc
      · exact List.all_eq_true.1 h.2 c hc
      · exact h.1 c (List.mem_cons_of_mem d hc)

theorem isPlainReplacement_of_discouraged :
    ∀ e ∈ weakWords ++ prohibited, ∀ r ∈ e.replacement, isPlainReplacement r = true := by
  decide

theorem isPlainReplacement_of_substitution :
    ∀ e ∈ terminology ++ contractions ++ genderNeutral, isPlainReplacement e.preferred = true := by
  decide

theorem mem_of_mem_occurrences {α : Type} {catalog : List α} {phrase : α → Text} {t : Text}
    {p : α × Occurrence} (hp : p ∈ occurrences catalog phrase t) : p.1 ∈ catalog := by
  obtain ⟨m, -, hm⟩ := List.mem_filterMap.1 hp
  obtain ⟨e, he, rfl⟩ := Option.map_eq_some_iff.1 hm
  exact List.mem_of_getElem? he

theorem isPlain_of_discouragedIssue {catalog : List Discouraged} {t r : Text} {rule : Rule}
    {severity : Severity} {message : Text → Text} {p : Discouraged × Occurrence}
    (hcatalog : catalog ⊆ weakWords ++ prohibited) (hp : p ∈ occurrences catalog (·.phrase) t)
    (hr : (discouragedIssue rule severity message p.1 p.2).replacement = some r) :
    ∀ c ∈ r, isPlain c = true := by
  obtain ⟨replacement, hreplacement, rfl⟩ := Option.map_eq_some_iff.1 hr
  exact isPlain_of_mem_matchCase (isPlainReplacement_of_discouraged p.1
    (hcatalog (mem_of_mem_occurrences hp)) replacement hreplacement) _

theorem isPlain_of_substitutionIssue {catalog : List Substitution} {t r : Text} {rule : Rule}
    {severity : Severity} {message : Text → Text → Text} {p : Substitution × Occurrence}
    (hcatalog : catalog ⊆ terminology ++ contractions ++ genderNeutral)
    (hp : p ∈ occurrences catalog (·.phrase) t)
    (hr : (substitutionIssue rule severity message p.1 p.2).replacement = some r) :
    ∀ c ∈ r, isPlain c = true := by
  obtain rfl := Option.some.inj hr
  exact isPlain_of_mem_matchCase
    (isPlainReplacement_of_substitution p.1 (hcatalog (mem_of_mem_occurrences hp))) _

theorem mem_of_mem_ite {on : Bool} {issues : List Issue} {i : Issue}
    (h : i ∈ if on then issues else []) : i ∈ issues := by
  split at h
  · exact h
  · cases h

/-- The style rules put in nothing but plain characters. -/
theorem isPlain_of_mem_check {checks : StyleChecks} {analyzer : Analyzer} {t r : Text} {i : Issue}
    (hi : i ∈ check checks analyzer t) (hr : i.replacement = some r) :
    ∀ c ∈ r, isPlain c = true := by
  simp only [check, List.mem_append] at hi
  -- one case for each rule; the rules without replacements have nothing to put in
  rcases hi with (((((hi | hi) | hi) | hi) | hi) | hi) | hi <;> replace hi := mem_of_mem_ite hi
  · obtain ⟨p, hp, rfl⟩ := List.mem_map.1 hi
    exact isPlain_of_discouragedIssue (by simp) hp hr
  · obtain ⟨p, -, rfl⟩ := List.mem_map.1 hi
    cases hr
  · obtain ⟨p, hp, rfl⟩ := List.mem_map.1 hi
    exact isPlain_of_substitutionIssue (by simp) (List.mem_filter.1 hp).1 hr
  · obtain ⟨p, hp, rfl⟩ := List.mem_map.1 hi
    exact isPlain_of_substitutionIssue (by simp) hp hr
  · obtain ⟨p, hp, rfl⟩ := List.mem_map.1 hi
    exact isPlain_of_discouragedIssue (by simp) hp hr
  · obtain ⟨p, hp, rfl⟩ := List.mem_map.1 hi
    exact isPlain_of_substitutionIssue (by simp) hp hr
  · obtain ⟨p, -, rfl⟩ := List.mem_map.1 hi
    cases hr

end Style

/-! ## Units that fixes cannot break -/

/-- Whether a fix can change where a node ends: it is closed by a delimiter, or a file ends in it,
and its text might hold that delimiter or hide it. -/
def isDelicate (content : Text) (n : Node) : Bool :=
  match n.kind with
  | .comment => openingOf content n == ['/', '*']
  | .string => (quoteOf? (openingOf content n)).isSome
  | .template => true
  | .identifier => false

namespace Checker

variable (load : Loader) (s : Settings)

/-- Without a grammar service, the fixes of a node's own reports bring in only plain characters. -/
theorem isPlain_or_mem_of_applyFixes {nodes : List Node} {cache : DictionaryCache}
    {u : Node × List Report} (hu : u ∈ checkEach load none s nodes cache) {c : Char}
    (hc : c ∈ (applyFixes u.1.value u.2).1) : c ∈ u.1.value ∨ isPlain c = true := by
  rcases mem_of_applyFixes hc with hc | ⟨f, hf, hc⟩
  · exact .inl hc
  · obtain ⟨i, hr, hstyle | ⟨found, hfound, hmem⟩⟩ := exists_issue_of_mem_fixes load none s hu hf
    · rw [styleIssues] at hstyle
      split at hstyle
      · cases hstyle
      · exact .inr (Style.isPlain_of_mem_check hstyle hr c hc)
    · obtain rfl : [] = found := Except.ok.inj hfound
      cases hmem

/-- The fixed text of a unit that is not delicate is read back. -/
theorem standsIn_of_not_isDelicate {content : Text} {nodes : List Node} {cache : DictionaryCache}
    (hlaid : Laid 0 content [] nodes) {u : Node × List Report}
    (hu : u ∈ checkEach load none s nodes cache) (h : isDelicate content u.1 = false) :
    StandsIn content (u.1, (applyFixes u.1.value u.2).1) := by
  have hmem : u.1 ∈ nodes := by
    rw [← map_fst_checkEach load none s nodes cache]
    exact List.mem_map_of_mem hu
  have hold := @Laid.standsIn [] content nodes hlaid u.1 hmem
  intro lead opening rest hsplit hstart hcontent
  have hreads := hold lead opening rest hsplit hstart hcontent
  have hopening : openingOf content u.1 = opening :=
    openingOf_eq (hsplit.trans (List.append_assoc ..)) hstart hcontent
  unfold isDelicate at h
  unfold ReadsBack at hreads ⊢
  rw [hopening] at h
  cases hkind : u.1.kind with
  | identifier => simp only [applyFixes_of_mem_checkEach load none s hu (.inl hkind)]
  | template => simp [hkind] at h
  | comment =>
    have hline : ¬ opening = ['/', '*'] := by simpa [hkind] using h
    simp only [hkind, if_neg hline] at hreads ⊢
    intro hend
    rcases isPlain_or_mem_of_applyFixes load s hu hend with hmem | hplain
    · exact hreads hmem
    · revert hplain
      decide
  | string =>
    have htext : quoteOf? opening = none := by simpa [hkind] using h
    simp only [hkind, htext] at hreads ⊢
    intro c hc
    rcases isPlain_or_mem_of_applyFixes load s hu hc with hmem | hplain
    · exact hreads c hmem
    · rw [isPlain, Bool.and_eq_true, Bool.not_eq_true'] at hplain
      exact hplain.2

end Checker

/-! ## The identifiers and the other units -/

/-- Between two scans the code stays: the identifiers are the same, and of the other units none is
new, though some may be gone. -/
structure KeepsCode (before after : List Node) : Prop where
  identifiers : (after.filter (·.kind == .identifier)).map (·.value)
    = (before.filter (·.kind == .identifier)).map (·.value)
  others : ((after.filter (·.kind != .identifier)).map (·.kind)).Sublist
    ((before.filter (·.kind != .identifier)).map (·.kind))

theorem KeepsCode.append {before₁ before₂ after₁ after₂ : List Node} (h₁ : KeepsCode before₁ after₁)
    (h₂ : KeepsCode before₂ after₂) : KeepsCode (before₁ ++ before₂) (after₁ ++ after₂) := by
  constructor
  · simp only [List.filter_append, List.map_append, h₁.identifiers, h₂.identifiers]
  · simp only [List.filter_append, List.map_append]
    exact h₁.others.append h₂.others

/-- A node with a new text is of the same kind, or it is gone; an identifier stays as it is. -/
theorem keepsCode_renew (content : Text) {n : Node} {new : Text} (start : Nat)
    (h : n.kind = .identifier → new = n.value ∧ n.value ≠ []) :
    KeepsCode [n] (renew content n new start).ifAny := by
  by_cases hkind : n.kind = .identifier
  · obtain ⟨rfl, hvalue⟩ := h hkind
    rw [renew_of_delimited _ _ (isChildText_of_kind (by simp [hkind])), Node.ifAny,
      if_neg (by simpa using hvalue)]
    constructor <;> simp [hkind]
  · have hrenew : (renew content n new start).kind = n.kind := rfl
    rw [Node.ifAny]
    split
    · constructor <;> simp [hkind]
    · constructor <;> simp [hkind, hrenew]

/-- Where the old nodes settle with their new texts, the code stays. -/
theorem keepsCode_settle (content : Text) (old new : Nat) {us : List (Node × Text)}
    (h : ∀ u ∈ us, u.1.kind = .identifier → u.2 = u.1.value ∧ u.1.value ≠ []) :
    KeepsCode (us.map (·.1)) (settle content old new us) := by
  induction us generalizing old new with
  | nil => exact ⟨rfl, .slnil⟩
  | cons u us ih =>
    rw [settle, List.map_cons, ← List.singleton_append]
    exact KeepsCode.append (keepsCode_renew content _ (h u List.mem_cons_self))
      (ih _ _ fun w hw => h w (List.mem_cons_of_mem u hw))

theorem isChildText_of_isDelicate {content : Text} {n : Node} (h : isDelicate content n = true) :
    isChildText content n = false := by
  unfold isDelicate at h
  rw [isChildText]
  cases hkind : n.kind with
  | comment => rfl
  | template => rfl
  | identifier => rfl
  | string =>
    rw [hkind] at h
    simpa using h

namespace Checker

/-- The nodes of a file, each with what its own fixes make of its text. -/
def fixedTexts (load : Loader) (s : Settings) (path content : Text) (cache : DictionaryCache) :
    List (Node × Text) :=
  (checkEach load none s ((nodesOfFile? path content).getD []) cache).map fun u =>
    (u.1, (applyFixes u.1.value u.2).1)

variable (load : Loader) (s : Settings)

theorem map_fst_fixedTexts (path content : Text) (cache : DictionaryCache) :
    (fixedTexts load s path content cache).map (·.1) = (nodesOfFile? path content).getD [] := by
  rw [fixedTexts, List.map_map]
  exact map_fst_checkEach load none s _ cache

theorem substituteFrom_fixedTexts (path content : Text) (cache : DictionaryCache) :
    substituteFrom 0 ((fixedTexts load s path content cache).map region) content
      = some (applyFixes content (checkSource load none s path content cache).1.2).1 := by
  rw [fixedTexts, List.map_map]
  exact (substitute?_checkSource load none s path content cache).1

/-- Identifiers keep their texts, which are not empty. -/
theorem fixedTexts_of_identifier {path content : Text} {cache : DictionaryCache} {u : Node × Text}
    (hu : u ∈ fixedTexts load s path content cache) (hkind : u.1.kind = .identifier) :
    u.2 = u.1.value ∧ u.1.value ≠ [] := by
  obtain ⟨w, hw, rfl⟩ := List.mem_map.1 hu
  refine ⟨?_, (laid_nodesOfFile path content).value_ne_nil w.1 ?_⟩
  · rw [applyFixes_of_mem_checkEach load none s hw (.inl hkind)]
  · rw [← map_fst_checkEach load none s ((nodesOfFile? path content).getD []) cache]
    exact List.mem_map_of_mem hw

/-- Where the fixed texts of all units are read back, the old units settle in the fixed file. -/
theorem nodesOfFile_applyFixes {path content : Text} {cache : DictionaryCache}
    (h : ∀ u ∈ fixedTexts load s path content cache, StandsIn content u) :
    (nodesOfFile? path
        (applyFixes content (checkSource load none s path content cache).1.2).1).getD []
      = settle content 0 0 (fixedTexts load s path content cache) := by
  have hnodes := map_fst_fixedTexts load s path content cache
  cases hlanguage : Language.ofPath? path with
  | none =>
    simp only [nodesOfFile?, hlanguage, Option.map_none, Option.getD_none] at hnodes ⊢
    rw [List.map_eq_nil_iff.1 hnodes]
    rfl
  | some language =>
    simp only [nodesOfFile?, hlanguage, Option.map_some, Option.getD_some] at hnodes ⊢
    exact (@nodesFrom_eq_settle content [] content _ _ language.hasElements [] {} 0 rfl rfl hnodes
      (substituteFrom_fixedTexts load s path content cache) h).1 0

/-- **When fixes leave the code alone.**  The style fixes of a file lead to a file in which the scan
finds exactly the old units with their fixed texts, each in its place, if and only if the fixed text
of each block comment, quoted string and template fragment is read back from between its delimiters.
In this case the identifiers are the same, and of the other units none is new. -/
theorem applyFixes_keepsCode_iff (path content : Text) (cache : DictionaryCache) :
    let units := fixedTexts load s path content cache
    let fixed := (applyFixes content (checkSource load none s path content cache).1.2).1
    let before := (nodesOfFile? path content).getD []
    let after := (nodesOfFile? path fixed).getD []
    let safe := ∀ u ∈ units, isDelicate content u.1 = true → StandsIn content u
    (after = settle content 0 0 units ↔ safe) ∧ (safe → KeepsCode before after) := by
  intro units fixed before after safe
  have hnodes : units.map (·.1) = before := map_fst_fixedTexts load s path content cache
  have hlaid : Laid 0 content [] (units.map (·.1)) := by
    rw [hnodes]
    exact laid_nodesOfFile path content
  have hsafe : safe → after = settle content 0 0 units := by
    refine fun h => nodesOfFile_applyFixes load s fun u hu => ?_
    cases hdelicate : isDelicate content u.1 with
    | true => exact h u hu hdelicate
    | false =>
      obtain ⟨w, hw, rfl⟩ := List.mem_map.1 hu
      exact standsIn_of_not_isDelicate load s (laid_nodesOfFile path content) hw hdelicate
  refine ⟨⟨fun hafter u hu hdelicate => ?_, hsafe⟩, fun h => ?_⟩
  · -- what a scan finds is laid in its file, so the old units are laid where they settle
    have hsettle : Laid 0 fixed [] (settle content 0 0 units) := by
      rw [← hafter]
      exact laid_nodesOfFile path fixed
    exact standsIn_of_settle hlaid (substituteFrom_fixedTexts load s path content cache) hsettle hu
      (fun hkind => (fixedTexts_of_identifier load s hu hkind).1)
      (isChildText_of_isDelicate hdelicate)
  · rw [hsafe h, ← hnodes]
    exact keepsCode_settle content 0 0 fun u hu => fixedTexts_of_identifier load s hu

/-! ## A comment that ends early -/

/-- A comment in which a weak word keeps a star and a slash apart. -/
def starAndSlash : Text :=
  "/* a *simply/ b */".toList

/-- The text of the comment. -/
def starAndSlashText : Text :=
  " a *simply/ b ".toList

/-- Settings under which only weak words are looked for. -/
def weakWordsOnly : Settings :=
  { skipWords := [], style := { Style.StyleChecks.none with weakWords := true } }

/-- The only issue of the comment. -/
def simplyIssue : Issue :=
  Style.discouragedIssue .weakWord .warning
    (fun word => "Avoid weak word ".toList ++ Style.quoted word
      ++ ". Be more specific and direct.".toList)
    ⟨"simply".toList, Style.weakWordHint, some []⟩ ⟨4, 4, 10, "simply".toList⟩

theorem nodesOfFile_starAndSlash :
    nodesOfFile? "a.js".toList starAndSlash
      = some [⟨.comment, starAndSlashText, 0, 18, 2, false⟩] := by
  decide +kernel

theorem checkSource_starAndSlash :
    (checkSource (fun _ _ => .ok default) none weakWordsOnly "a.js".toList starAndSlash {}).1.2
      = [Report.ofIssue starAndSlashText .comment 2 simplyIssue] := by
  have hskips : skips weakWordsOnly starAndSlashText .comment = false := by decide +kernel
  have hstyle : styleIssues weakWordsOnly starAndSlashText .comment = [simplyIssue] := by
    decide +kernel
  have hspelling : Spelling.check weakWordsOnly default starAndSlashText = [] := by decide +kernel
  have hedits : Correction.orderedEdits [simplyIssue] = [⟨0, 4, 10, []⟩] := by
    have hedit : Correction.editsFrom 0 [simplyIssue] = [⟨0, 4, 10, []⟩] := by decide +kernel
    rw [Correction.orderedEdits, hedit, List.mergeSort_singleton]
  have hissues : (reconcile starAndSlashText [simplyIssue]).issues = [simplyIssue] := by
    rw [Correction.reconcile_issues, Correction.madeFor, hedits]
    decide +kernel
  have hcheckable : ([⟨.comment, starAndSlashText, 0, 18, 2, false⟩] : List Node).filter
      (·.isCheckable) = [⟨.comment, starAndSlashText, 0, 18, 2, false⟩] := rfl
  simp only [checkSource, nodesOfFile_starAndSlash]
  rw [hcheckable, checkNodes, checkUnit, hskips]
  simp [DictionaryCache.get, DictionaryCache.reload, checkWith, grammarIssues, hspelling, hstyle,
    checkNodes, nodeReports, hissues]

/-- Deleting a weak word can end a comment early, and what comes after becomes code. -/
theorem not_keepsCode_of_joined_delimiter :
    ¬ KeepsCode ((nodesOfFile? "a.js".toList starAndSlash).getD [])
      ((nodesOfFile? "a.js".toList (applyFixes starAndSlash
        (checkSource (fun _ _ => .ok default) none weakWordsOnly "a.js".toList starAndSlash
          {}).1.2).1).getD []) := by
  have hfix : (Report.ofIssue starAndSlashText .comment 2 simplyIssue).fix = some ⟨6, 12, []⟩ := by
    decide +kernel
  have hfixed : applyFixes starAndSlash [Report.ofIssue starAndSlashText .comment 2 simplyIssue]
      = ("/* a */ b */".toList, 1) := by
    rw [applyFixes, orderedFixes, List.filterMap_cons_some hfix, List.filterMap_nil,
      List.mergeSort_singleton]
    decide +kernel
  rw [checkSource_starAndSlash, hfixed]
  intro h
  have hidentifiers := h.identifiers
  revert hidentifiers
  decide +kernel

end Checker

end CodeProse

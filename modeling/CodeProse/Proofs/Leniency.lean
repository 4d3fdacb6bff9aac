/-
# What is suppressed is only left out

Settings may be more lenient than others: they list more words to skip, more patterns, and a longer
minimal length; and a dictionary may know more words. All that comes of it is that fewer words are
reported (`Spelling.check_sublist`). An issue of spelling has no replacement, and reconciling is
indifferent to an issue that has none: it moves the places of the issues behind it by one, and with
them the places of the edits, but neither their order nor what they do (`reconcile_abridges_insert`).
-/
import CodeProse.Proofs.FileFixes
import CodeProse.Proofs.ReportPlaces

namespace CodeProse

namespace Correction

/-! ## An issue without a replacement -/

/-- The place of an issue once another one has been put in at place `n`. -/
def placeAfter (n place : Nat) : Nat :=
  if place < n then place else place + 1

theorem placeAfter_of_lt {n place : Nat} (h : place < n) : placeAfter n place = place :=
  if_pos h

theorem placeAfter_of_le {n place : Nat} (h : n ≤ place) : placeAfter n place = place + 1 :=
  if_neg (Nat.not_lt.2 h)

theorem placeAfter_injective (n : Nat) : Function.Injective (placeAfter n) := by
  intro a b hab
  unfold placeAfter at hab
  split at hab <;> split at hab <;> omega

/-- The edit of the same issue in another place. -/
def Edit.moved (f : Nat → Nat) (e : Edit) : Edit :=
  { e with place := f e.place }

theorem editsFrom_append (place : Nat) (front back : List Issue) :
    editsFrom place (front ++ back)
      = editsFrom place front ++ editsFrom (place + front.length) back := by
  induction front generalizing place with
  | nil => rfl
  | cons i front ih =>
    rw [List.cons_append, editsFrom, editsFrom, ih, List.length_cons,
      show place + 1 + front.length = place + (front.length + 1) by omega]
    cases i.replacement <;> rfl

theorem editsFrom_succ (place : Nat) (issues : List Issue) :
    editsFrom (place + 1) issues = (editsFrom place issues).map (·.moved (· + 1)) := by
  induction issues generalizing place with
  | nil => rfl
  | cons i rest ih =>
    rw [editsFrom, editsFrom, ih]
    cases i.replacement <;> rfl

/-- An issue without a replacement asks for no edit. -/
theorem editsFrom_insert {i : Issue} (hi : i.replacement = none) (front back : List Issue) :
    editsFrom 0 (front ++ i :: back)
      = (editsFrom 0 (front ++ back)).map (·.moved (placeAfter front.length)) := by
  have hfront : (editsFrom 0 front).map (·.moved (placeAfter front.length)) = editsFrom 0 front := by
    rw [List.map_congr_left (g := id), List.map_id]
    intro e he
    obtain ⟨k, j, hj, -, hplace, -⟩ := (mem_editsFrom_iff _ _ _).1 he
    obtain ⟨hk, -⟩ := List.getElem?_eq_some_iff.1 hj
    unfold Edit.moved
    rw [placeAfter_of_lt (by omega)]
    rfl
  have hback : (editsFrom front.length back).map (·.moved (placeAfter front.length))
      = editsFrom (front.length + 1) back := by
    rw [editsFrom_succ]
    apply List.map_congr_left
    intro e he
    obtain ⟨k, -, -, -, hplace, -⟩ := (mem_editsFrom_iff _ _ _).1 he
    unfold Edit.moved
    rw [placeAfter_of_le (by omega)]
  rw [editsFrom_append, editsFrom_append, List.map_append, Nat.zero_add, hfront, hback, editsFrom,
    hi]

/-- The edits of other issues are tried in the same order. -/
theorem orderedEdits_insert {i : Issue} (hi : i.replacement = none) (front back : List Issue) :
    orderedEdits (front ++ i :: back)
      = (orderedEdits (front ++ back)).map (·.moved (placeAfter front.length)) := by
  unfold orderedEdits
  rw [editsFrom_insert hi, List.map_mergeSort]
  intro a _ b _
  rfl

theorem make?_moved (f : Nat → Nat) (d : Draft) (e : Edit) : make? d (e.moved f) = make? d e :=
  rfl

theorem applyAll_map_moved (f : Nat → Nat) (d : Draft) (edits : List Edit) :
    applyAll d (edits.map (·.moved f)) = ((applyAll d edits).1, (applyAll d edits).2.map f) := by
  induction edits generalizing d with
  | nil => rfl
  | cons e rest ih =>
    rw [List.map_cons]
    cases hd : make? d e with
    | none =>
      rw [applyAll_cons_of_none _ hd, applyAll_cons_of_none _ ((make?_moved f d e).trans hd), ih]
    | some d' =>
      rw [applyAll_cons_of_some _ hd, applyAll_cons_of_some _ ((make?_moved f d e).trans hd), ih]
      rfl

theorem keepUsed_append (used : List Nat) (place : Nat) (front back : List Issue) :
    keepUsed used place (front ++ back)
      = keepUsed used place front ++ keepUsed used (place + front.length) back := by
  induction front generalizing place with
  | nil => rfl
  | cons i front ih =>
    rw [List.cons_append, keepUsed, keepUsed, ih, List.length_cons, Nat.add_assoc,
      Nat.add_comm 1, List.cons_append]

/-- What becomes of issues depends on which of their places are used. -/
theorem keepUsed_congr {used used' : List Nat} {place place' : Nat} {issues : List Issue}
    (h : ∀ k < issues.length, used.contains (place + k) = used'.contains (place' + k)) :
    keepUsed used place issues = keepUsed used' place' issues := by
  apply List.ext_getElem?
  intro k
  rw [getElem?_keepUsed, getElem?_keepUsed]
  cases hk : issues[k]? with
  | none => rfl
  | some i =>
    obtain ⟨hlt, -⟩ := List.getElem?_eq_some_iff.1 hk
    rw [Option.map_some, Option.map_some, h k hlt]

theorem contains_map_placeAfter (n place : Nat) (used : List Nat) :
    (used.map (placeAfter n)).contains (placeAfter n place) = used.contains place := by
  rw [Bool.eq_iff_iff, List.contains_iff_mem, List.contains_iff_mem,
    List.mem_map_of_injective (placeAfter_injective n)]

theorem keepUsed_insert {i : Issue} (hi : i.replacement = none) (used : List Nat)
    (front back : List Issue) :
    keepUsed (used.map (placeAfter front.length)) 0 (front ++ i :: back)
      = keepUsed used 0 front ++ i :: keepUsed used front.length back := by
  have hsame : ∀ b : Bool, (if b then i else { i with replacement := none }) = i := by
    intro b
    rw [← hi]
    exact ite_self i
  rw [keepUsed_append, keepUsed, hsame, Nat.zero_add]
  congr 1
  · apply keepUsed_congr
    intro k hk
    have hcontains := contains_map_placeAfter front.length k used
    rw [placeAfter_of_lt hk] at hcontains
    rw [Nat.zero_add, hcontains]
  · congr 1
    apply keepUsed_congr
    intro k _
    have hcontains := contains_map_placeAfter front.length (front.length + k) used
    rw [placeAfter_of_le (Nat.le_add_right _ _)] at hcontains
    rw [Nat.add_right_comm, hcontains]

/-- A correction has the same corrected text and sentences as another, and no issues besides. -/
structure Abridges (r r' : Correction) : Prop where
  issues : r.issues.Sublist r'.issues
  corrected : r.corrected = r'.corrected
  sentences : r.sentences = r'.sentences

theorem Abridges.refl (r : Correction) : r.Abridges r :=
  ⟨.refl _, rfl, rfl⟩

theorem Abridges.trans {r r' r'' : Correction} (h : r.Abridges r') (h' : r'.Abridges r'') :
    r.Abridges r'' :=
  ⟨h.issues.trans h'.issues, h.corrected.trans h'.corrected, h.sentences.trans h'.sentences⟩

/-- Without an issue that has no replacement, a text is corrected in the same way. -/
theorem reconcile_abridges_insert (t : Text) {i : Issue} (hi : i.replacement = none)
    (front back : List Issue) :
    (reconcile t (front ++ back)).Abridges (reconcile t (front ++ i :: back)) := by
  have hissues : ∀ used : List Nat, (keepUsed used 0 (front ++ back)).Sublist
      (keepUsed (used.map (placeAfter front.length)) 0 (front ++ i :: back)) := by
    intro used
    rw [keepUsed_insert hi, keepUsed_append, Nat.zero_add]
    exact (List.Sublist.refl _).append (List.sublist_cons_self i _)
  unfold reconcile
  rw [orderedEdits_insert hi, applyAll_map_moved]
  simp only [List.isEmpty_map]
  split
  case isTrue => exact ⟨hissues _, rfl, rfl⟩
  case isFalse => exact ⟨hissues _, rfl, rfl⟩

/-- Without some issues that have no replacement, a text is corrected in the same way. -/
theorem reconcile_abridges (t : Text) {issues issues' : List Issue} (h : issues.Sublist issues')
    (hcount : issues.countP (·.replacement.isSome) = issues'.countP (·.replacement.isSome)) :
    (reconcile t issues).Abridges (reconcile t issues') := by
  -- the issues in front of those that the induction has come to are the same in both
  suffices hfront : ∀ front, (reconcile t (front ++ issues)).Abridges (reconcile t (front ++ issues'))
    from hfront []
  induction h with
  | slnil => exact fun front => .refl _
  | @cons issues issues' i hsub ih =>
    intro front
    have hle := hsub.countP_le (p := fun j : Issue => j.replacement.isSome)
    cases hi : i.replacement with
    | none =>
      rw [List.countP_cons_of_neg (by simp [hi])] at hcount
      exact (ih hcount front).trans (reconcile_abridges_insert t hi front issues')
    | some text =>
      rw [List.countP_cons_of_pos (by simp [hi])] at hcount
      omega
  | @cons_cons issues issues' i _ ih =>
    intro front
    rw [List.countP_cons, List.countP_cons] at hcount
    have hrest := ih (by omega) (front ++ [i])
    simpa using hrest

end Correction

/-! ## More lenient settings -/

/-- Whether settings differ from others in no more than that they have more words and patterns to
skip, and a minimal length that is no smaller. -/
structure Settings.MoreLenient (s s' : Settings) : Prop where
  same : s' = { s with
    minLength := s'.minLength
    skipWords := s'.skipWords
    skipIfMatch := s'.skipIfMatch
    skipWordIfMatch := s'.skipWordIfMatch }
  minLength : s.minLength ≤ s'.minLength
  skipWords : s.skipWords ⊆ s'.skipWords
  skipIfMatch : s.skipIfMatch ⊆ s'.skipIfMatch
  skipWordIfMatch : s.skipWordIfMatch ⊆ s'.skipWordIfMatch

/-- Whether a dictionary knows all words of another, and proposes the same for the others. -/
structure Dictionary.Extends (d d' : Dictionary) : Prop where
  accepts : ∀ word, d.accepts word = true → d'.accepts word = true
  suggestions : ∀ word, d'.suggestions word = d.suggestions word

/-- A longer list of words comes to a larger dictionary. -/
theorem Dictionary.ofWords_extends {words words' : List Text} (h : words ⊆ words') :
    (Dictionary.ofWords words).Extends (Dictionary.ofWords words') := by
  constructor
  case accepts =>
    intro word hword
    unfold ofWords at *
    simp only [List.contains_iff_mem] at *
    exact List.map_subset _ h hword
  case suggestions =>
    intro word
    rfl

variable {s s' : Settings} {d d' : Dictionary} {word t : Text} {kind : UnitKind}

namespace Settings.MoreLenient

theorem isSkipWord (h : s.MoreLenient s') (hskip : s.isSkipWord word = true) :
    s'.isSkipWord word = true := by
  unfold Settings.isSkipWord at *
  rw [List.contains_iff_mem] at *
  exact h.skipWords hskip

theorem skipsValue (h : s.MoreLenient s') (hskip : s.skipsValue t = true) :
    s'.skipsValue t = true := by
  unfold Settings.skipsValue at *
  rw [Bool.or_eq_true, List.any_eq_true] at *
  rcases hskip with hword | ⟨p, hp, hmatch⟩
  · exact .inl (h.isSkipWord hword)
  · exact .inr ⟨p, h.skipIfMatch hp, hmatch⟩

/-- Fewer words are checked. -/
theorem keepsWord (h : s.MoreLenient s') (hkeeps : s'.keepsWord word = true) :
    s.keepsWord word = true := by
  unfold Settings.keepsWord at *
  rw [Bool.and_eq_true, decide_eq_true_eq, Bool.not_eq_true', List.any_eq_false] at *
  obtain ⟨hlength, hmatch⟩ := hkeeps
  refine ⟨h.minLength.trans hlength, ?_⟩
  intro p hp
  exact hmatch p (h.skipWordIfMatch hp)

theorem style (h : s.MoreLenient s') : s'.style = s.style := by
  rw [h.same]

theorem checksKind (h : s.MoreLenient s') (kind : UnitKind) :
    s'.checksKind kind = s.checksKind kind := by
  rw [h.same]
  cases kind <;> rfl

theorem skips (h : s.MoreLenient s') (hskips : Checker.skips s t kind = true) :
    Checker.skips s' t kind = true := by
  unfold Checker.skips at *
  rw [Bool.or_eq_true, h.checksKind]
  rw [Bool.or_eq_true] at hskips
  exact hskips.imp_right h.skipsValue

end Settings.MoreLenient

namespace Spelling

theorem isMisspelled_of_lenient (h : s.MoreLenient s') (hd : d.Extends d')
    (hword : isMisspelled s' d' word = true) : isMisspelled s d word = true := by
  unfold isMisspelled at *
  rw [Bool.and_eq_true, Bool.not_eq_true', Bool.not_eq_true'] at *
  constructor
  · exact Bool.eq_false_iff.2 fun hskip => Bool.eq_false_iff.1 hword.1 (h.isSkipWord hskip)
  · exact Bool.eq_false_iff.2 fun hknown => Bool.eq_false_iff.1 hword.2 (hd.accepts word hknown)

/-- A word that is an error, as it stands and in one of the parts that are checked, is so to stricter
settings too: they check that part as well. -/
theorem isError_of_lenient (h : s.MoreLenient s') (hd : d.Extends d')
    (hword : isError s' d' word = true) : isError s d word = true := by
  unfold isError at *
  rw [Bool.and_eq_true, List.any_eq_true] at *
  obtain ⟨hwhole, part, hpart, hmisspelled⟩ := hword
  obtain ⟨hpart, hkeeps⟩ := List.mem_filter.1 hpart
  refine ⟨isMisspelled_of_lenient h hd hwhole, part, ?_, isMisspelled_of_lenient h hd hmisspelled⟩
  exact List.mem_filter.2 ⟨hpart, h.keepsWord hkeeps⟩

theorem issue_of_extends (hd : d.Extends d') (token : Token) : issue d' token = issue d token := by
  unfold issue
  rw [hd.suggestions]

/-- What more lenient settings report is among what others do. -/
theorem check_sublist (h : s.MoreLenient s') (hd : d.Extends d') (t : Text) :
    (check s' d' t).Sublist (check s d t) := by
  unfold check
  rw [List.map_congr_left fun token _ => issue_of_extends hd token]
  apply List.Sublist.map
  apply List.monotone_filter_right
  intro token herror
  rw [Bool.and_eq_true] at *
  exact ⟨h.keepsWord herror.1, isError_of_lenient h hd herror.2⟩

end Spelling

namespace Checker

theorem countP_spelling (s : Settings) (d : Dictionary) (t : Text) :
    (Spelling.check s d t).countP (·.replacement.isSome) = 0 := by
  rw [List.countP_eq_zero]
  intro i hi
  rw [replacement_of_mem_spelling s hi]
  exact Bool.false_ne_true

/-- The issues of a unit that is not skipped. -/
def unitIssues (s : Settings) (d : Dictionary) (t : Text) (kind : UnitKind) : List Issue :=
  (Spelling.check s d t ++ styleIssues s t kind).mergeSort earlierFirst

theorem reconcile_abridges_of_lenient (h : s.MoreLenient s') (hd : d.Extends d') (t : Text)
    (kind : UnitKind) :
    (reconcile t (unitIssues s' d' t kind)).Abridges (reconcile t (unitIssues s d t kind)) := by
  have hstyle : styleIssues s' t kind = styleIssues s t kind := by
    unfold styleIssues
    rw [h.style]
  unfold unitIssues
  rw [hstyle]
  apply Correction.reconcile_abridges
  · apply mergeSort_sublist_mergeSort earlierFirst_trans earlierFirst_total
    exact (Spelling.check_sublist h hd t).append_right _
  · rw [(List.mergeSort_perm _ _).countP_eq, (List.mergeSort_perm _ _).countP_eq,
      List.countP_append, List.countP_append, countP_spelling, countP_spelling]

/-- Without a grammar service, a unit whose language has a dictionary is reconciled. -/
theorem checkUnit_of_get {load : Loader} {cache : DictionaryCache}
    (hget : (cache.get load s.language).1 = .ok d) :
    (checkUnit load none s t kind cache).1.result
      = .ok (reconcile t (if skips s t kind then [] else unitIssues s d t kind)) := by
  unfold checkUnit
  cases hskips : skips s t kind with
  | true => rfl
  | false =>
    cases hcache : cache.get load s.language with
    | mk answer after =>
      rw [hcache] at hget
      obtain rfl := hget
      simp [checkWith, grammarIssues, unitIssues]

/-- **Suppression is monotone.** Without a grammar service, more lenient settings and a dictionary
that knows more words leave issues out and change nothing else, unless the unit is skipped. -/
theorem checkUnit_of_lenient (t : Text) (kind : UnitKind) {load load' : Loader}
    {cache cache' : DictionaryCache} (h : s.MoreLenient s') (hd : d.Extends d')
    (hget : (cache.get load s.language).1 = .ok d)
    (hget' : (cache'.get load' s'.language).1 = .ok d') :
    ∃ r r', (checkUnit load none s t kind cache).1.result = .ok r ∧
      (checkUnit load' none s' t kind cache').1.result = .ok r' ∧
      r'.issues.Sublist r.issues ∧
      (skips s' t kind = false → r'.corrected = r.corrected ∧ r'.sentences = r.sentences) := by
  refine ⟨_, _, checkUnit_of_get hget, checkUnit_of_get hget', ?_⟩
  cases hskips' : skips s' t kind with
  | true =>
    refine ⟨?_, fun hchecked => by cases hchecked⟩
    have hnone : (reconcile t []).issues = [] := Correction.reconcile_issues t []
    rw [if_pos rfl, hnone]
    exact List.nil_sublist _
  | false =>
    have hskips : skips s t kind = false := by
      rw [Bool.eq_false_iff]
      intro hskips
      rw [h.skips hskips] at hskips'
      cases hskips'
    have habridges := reconcile_abridges_of_lenient h hd t kind
    rw [hskips]
    exact ⟨habridges.issues, fun _ => ⟨habridges.corrected, habridges.sentences⟩⟩

/-- Of four unknown words one is listed to be skipped and one is known to the other dictionary. The
other two are reported as before, and the contraction is replaced all the same. -/
theorem checkUnit_of_lenient_listed :
    let s : Settings := { skipWords := [] }
    let s' : Settings := { s with minLength := 2, skipWords := ["teh".toList] }
    let d := Dictionary.ofWords ["it".toList]
    let d' := Dictionary.ofWords ["it".toList, "cargo".toList]
    let t := "It isn't teh cargo wrold.".toList
    s.MoreLenient s' ∧ d.Extends d' ∧ (Spelling.check s d t).length = 4 ∧
      (Spelling.check s' d' t).length = 2 ∧
      ∃ r r', (checkUnit (fun _ _ => .ok d) none s t .comment {}).1.result = .ok r ∧
        (checkUnit (fun _ _ => .ok d') none s' t .comment {}).1.result = .ok r' ∧
        r'.issues.Sublist r.issues ∧ r'.corrected = r.corrected ∧ r'.sentences = r.sentences := by
  intro s s' d d' t
  have h : s.MoreLenient s' := ⟨rfl, by decide, by simp [s], by simp [s], by simp [s]⟩
  have hd : d.Extends d' := Dictionary.ofWords_extends (by simp)
  have hget : (DictionaryCache.get (fun _ _ => .ok d) s.language {}).1 = .ok d := rfl
  have hget' : (DictionaryCache.get (fun _ _ => .ok d') s'.language {}).1 = .ok d' := rfl
  obtain ⟨r, r', hr, hr', hissues, hsame⟩ := checkUnit_of_lenient t .comment h hd hget hget'
  exact ⟨h, hd, by decide +kernel, by decide +kernel, r, r', hr, hr', hissues, hsame (by rfl)⟩

end Checker

end CodeProse

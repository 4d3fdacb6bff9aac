/-
# What becomes of the findings of a grammar service

A unit is checked for grammar sentence by sentence. The service is asked about those sentences that
look like one, in the order of the text, and no more once it has failed; a failure is the error of
the unit (`ChecksGrammar`). Otherwise each finding either is reported, by one issue that stands at
just the characters that it marks, or is not reportable: it marks no whole characters of its
sentence, marks something that the settings skip, or is not confident enough (`Reports`).

A service counts in UTF-16 code units, and offsets and lengths are numbers of 64 bits. A sum of the
two may overflow, but no finding is placed by that (`Grammar.matchRange?_eq_some_iff`).
-/
import CodeProse.Checker
import CodeProse.Proofs.Reconciliation
import CodeProse.Proofs.Text.Sentence
import Mathlib.Data.List.Perm.Basic

namespace CodeProse

namespace Text

/-! ## Offsets in UTF-16 -/

@[simp] theorem unitLength_append (a b : Text) :
    unitLength (a ++ b) = unitLength a + unitLength b := by
  induction a with
  | nil => simp [unitLength]
  | cons c a ih => simp [unitLength, ih, Nat.add_assoc]

theorem unitSize_pos (c : Char) : 0 < unitSize c := by
  unfold unitSize
  split <;> decide

/-- Only the empty text has no code units. -/
theorem unitLength_eq_zero_iff (t : Text) : unitLength t = 0 ↔ t = [] := by
  cases t with
  | nil => simp [unitLength]
  | cons c t => have := unitSize_pos c; simp [unitLength]; omega

/-- A number of code units ends at a byte offset if the text splits there. -/
theorem byteOfUnit?_eq_some_iff (n : Nat) (t : Text) (k : Nat) :
    byteOfUnit? n t = some k ↔
      ∃ left right : Text, t = left ++ right ∧ unitLength left = n ∧ byteLength left = k := by
  fun_induction byteOfUnit? n t generalizing k with
  | case1 t =>
    constructor
    · intro h
      obtain rfl := Option.some.inj h
      exact ⟨[], t, rfl, rfl, rfl⟩
    · rintro ⟨left, right, -, hunits, rfl⟩
      rw [(unitLength_eq_zero_iff left).1 hunits]
      rfl
  | case2 n =>
    constructor
    · intro h
      cases h
    · rintro ⟨left, right, ht, hunits, -⟩
      rw [(List.append_eq_nil_iff.1 ht.symm).1] at hunits
      cases hunits
  | case3 n c t hc ih =>
    constructor
    · intro h
      obtain ⟨j, hj, rfl⟩ := Option.map_eq_some_iff.1 h
      obtain ⟨left, right, rfl, hunits, rfl⟩ := (ih j).1 hj
      refine ⟨c :: left, right, rfl, ?_, rfl⟩
      rw [unitLength, hunits]
      omega
    · rintro ⟨left, right, ht, hunits, rfl⟩
      cases left with
      | nil => cases hunits
      | cons d left =>
        obtain ⟨rfl, rfl⟩ := List.cons.inj ht
        rw [unitLength] at hunits
        rw [(ih (byteLength left)).2 ⟨left, right, rfl, by omega, rfl⟩]
        rfl
  | case4 n c t hc =>
    constructor
    · intro h
      cases h
    · rintro ⟨left, right, ht, hunits, -⟩
      cases left with
      | nil => cases hunits
      | cons d left =>
        obtain ⟨rfl, rfl⟩ := List.cons.inj ht
        rw [unitLength] at hunits
        omega

end Text

namespace Grammar

/-- The number of values of a machine word of 64 bits. -/
def wordSize : Nat := 0x10000000000000000

/-- Between `before` and `after` a finding marks the text `word` of its sentence: whole characters,
at least one, by an offset and a length that count UTF-16 code units. -/
structure Marks (m : GrammarMatch) (sentence before word after : Text) : Prop where
  split : sentence = before ++ word ++ after
  ne_nil : word ≠ []
  offset : before.unitLength = m.offset
  length : word.unitLength = m.length

variable {s : Settings} {sentence : Text} {m : GrammarMatch}

/-- The range that is made of a finding is that of the characters that it marks. -/
theorem matchRange?_eq_some_iff (hsentence : sentence.unitLength < wordSize)
    (hm : m.length < wordSize) (start stop : Nat) :
    matchRange? sentence m = some (start, stop) ↔ ∃ before word after : Text,
      Marks m sentence before word after ∧ before.byteLength = start ∧
        start + word.byteLength = stop := by
  unfold matchRange?
  constructor
  · intro h
    obtain ⟨a, ha, h⟩ := Option.bind_eq_some_iff.1 h
    obtain ⟨b, hb, h⟩ := Option.bind_eq_some_iff.1 h
    split at h
    case isFalse => cases h
    case isTrue hlt =>
      obtain ⟨rfl, rfl⟩ := Prod.mk.inj (Option.some.inj h)
      obtain ⟨before, rest, rfl, hoffset, rfl⟩ := (Text.byteOfUnit?_eq_some_iff _ _ _).1 ha
      obtain ⟨upTo, after, hsplit, hend, rfl⟩ := (Text.byteOfUnit?_eq_some_iff _ _ _).1 hb
      obtain ⟨word, rfl, rfl⟩ := Text.append_split_of_le hsplit (Nat.le_of_lt hlt)
      have hne : word ≠ [] := by
        rintro rfl
        simp at hlt
      have hpos : 0 < word.unitLength :=
        Nat.pos_of_ne_zero (mt (Text.unitLength_eq_zero_iff word).1 hne)
      simp only [Text.unitLength_append] at hsentence hend
      -- Had the sum overflowed, it would be less than the offset, and the range would be empty.
      have hword : word.unitLength = m.length := by
        unfold wordSize at hsentence hm
        omega
      exact ⟨before, word, after, ⟨by simp, hne, hoffset, hword⟩, rfl, by simp⟩
  · rintro ⟨before, word, after, ⟨rfl, hne, hoffset, hlength⟩, rfl, rfl⟩
    have hsum : (m.offset + m.length) % wordSize = (before ++ word).unitLength := by
      simp only [Text.unitLength_append] at hsentence ⊢
      rw [← hoffset, ← hlength]
      exact Nat.mod_eq_of_lt (by omega)
    have hpos : word.byteLength ≠ 0 := mt (Text.byteLength_eq_zero_iff word).1 hne
    rw [(Text.byteOfUnit?_eq_some_iff m.offset _ _).2
        ⟨before, word ++ after, by simp, hoffset, rfl⟩, Option.bind_eq_bind, Option.bind_some,
      (Text.byteOfUnit?_eq_some_iff ((m.offset + m.length) % 0x10000000000000000) _ _).2
        ⟨before ++ word, after, rfl, hsum.symm, rfl⟩, Option.bind_some,
      Text.byteLength_append, if_pos (by omega)]

/-- Whether a finding is to be reported: it marks characters of its sentence, what it marks is
neither a skip word nor matched by a pattern of what is skipped, and its confidence, 1 if it does not
say, is not below the least that the settings ask for. -/
def IsReportable (s : Settings) (sentence : Text) (m : GrammarMatch) : Prop :=
  ∃ before word after, Marks m sentence before word after ∧
    s.isSkipWord word = false ∧ (∀ p ∈ s.skipIfMatch, p.matchesIn word = false) ∧
    ∀ least, s.confidence = some least → ¬ (m.rule.bind (·.confidence)).getD 1.0 < least

/-- An issue reports a finding in a sentence of the text `t`: it stands at the characters that the
finding marks, and suggests the sentence with the first replacement in their place. -/
structure IssueOf (t : Text) (sentence : Span) (m : GrammarMatch) (i : Issue) : Prop where
  rule : i.rule = .grammar
  severity : i.severity = .error
  message : i.message = if m.shortMessage.isEmpty then m.message else m.shortMessage
  marked : ∃ before word after : Text, Marks m sentence.text before word after ∧
    i.start = sentence.start + before.byteLength ∧ Text.slice? i.start i.stop t = some word ∧
    i.suggestion = m.replacements.head?.map fun new => before ++ new ++ after
  replacement : i.replacement = none ∨ i.replacement = m.replacements.head?

/-- Issues report findings: each finding has one issue, in the same order, unless it is not to be
reported. -/
inductive Reports (s : Settings) (t : Text) : List (Span × GrammarMatch) → List Issue → Prop
  | nil : Reports s t [] []
  | reported {sentence : Span} {m : GrammarMatch} {i : Issue} {findings issues}
      (hm : IsReportable s sentence.text m) (hi : IssueOf t sentence m i)
      (rest : Reports s t findings issues) : Reports s t ((sentence, m) :: findings) (i :: issues)
  | dropped {sentence : Span} {m : GrammarMatch} {findings issues}
      (hm : ¬ IsReportable s sentence.text m) (rest : Reports s t findings issues) :
      Reports s t ((sentence, m) :: findings) issues

/-- Whether a service counts in machine words, as every service does that there is. -/
def CountsInWords (service : GrammarService) : Prop :=
  ∀ q r, service q = .ok r → ∀ m ∈ r.found, m.length < wordSize

/-- The questions about the sentences among some spans. -/
def questions (s : Settings) (spans : List Span) : List GrammarRequest :=
  (spans.filter (isValidSentence ·.text)).map (request s ·.text)

/-- The findings that a service answers a question with. -/
def answer (service : GrammarService) (q : GrammarRequest) : List GrammarMatch :=
  match service q with
  | .ok r => r.found
  | .error _ => []

/-- The findings in the sentences among some spans, each with its sentence. -/
def findings (service : GrammarService) (s : Settings) (spans : List Span) :
    List (Span × GrammarMatch) :=
  (spans.filter (isValidSentence ·.text)).flatMap fun sentence =>
    (answer service (request s sentence.text)).map (sentence, ·)

/-! ## One finding -/

theorem isConfident_iff : isConfident s m = true ↔
    ∀ least, s.confidence = some least → ¬ (m.rule.bind (·.confidence)).getD 1.0 < least := by
  unfold isConfident
  cases s.confidence with
  | none => simp
  | some least => simp

/-- A finding marks one text only. -/
theorem Marks.unique {before word after before' word' after' : Text}
    (h : Marks m sentence before word after) (h' : Marks m sentence before' word' after')
    (hsentence : sentence.unitLength < wordSize) (hm : m.length < wordSize) :
    before = before' ∧ word = word' ∧ after = after' := by
  have hrange := (matchRange?_eq_some_iff hsentence hm _ _).2 ⟨_, _, _, h, rfl, rfl⟩
  rw [(matchRange?_eq_some_iff hsentence hm _ _).2 ⟨_, _, _, h', rfl, rfl⟩] at hrange
  obtain ⟨hbefore, hword⟩ := Prod.mk.inj (Option.some.inj hrange)
  have hsplit : before ++ (word ++ after) = before' ++ (word' ++ after') := by
    rw [← List.append_assoc, ← h.split, h'.split, List.append_assoc]
  obtain ⟨rfl, hrest⟩ := Text.append_inj hsplit hbefore.symm
  obtain ⟨rfl, rfl⟩ := Text.append_inj hrest (by omega)
  exact ⟨rfl, rfl, rfl⟩

/-- A finding on the text `word` between `before` and `after` has become an issue. -/
structure Becomes (s : Settings) (sentence : Text) (m : GrammarMatch) (i : Issue)
    (start stop : Nat) (before word after : Text) : Prop where
  range : matchRange? sentence m = some (start, stop)
  lt : start < stop
  slice : Text.slice? start stop sentence = some word
  keeps : s.skipsValue word = false
  eq : i = issue m start stop before after

/-- **What is made of a finding.**  An issue is made only of a finding that has a range, and that
holds something which is not skipped. -/
theorem matchIssue?_eq_some {i : Issue} (h : matchIssue? s sentence m = some i) :
    ∃ start stop before word after, Becomes s sentence m i start stop before word after := by
  obtain ⟨⟨start, stop⟩, hrange, hcut⟩ := Option.bind_eq_some_iff.1 h
  obtain ⟨⟨before, rest⟩, hbefore, hmade⟩ := Option.bind_eq_some_iff.1 hcut
  obtain ⟨⟨word, after⟩, hword, hkept⟩ := Option.bind_eq_some_iff.1 hmade
  have hlt : start < stop := by
    obtain ⟨a, -, hsecond⟩ := Option.bind_eq_some_iff.1 hrange
    obtain ⟨b, -, hlt⟩ := Option.bind_eq_some_iff.1 hsecond
    split at hlt
    case isTrue hab =>
      obtain ⟨rfl, rfl⟩ := Prod.mk.inj (Option.some.inj hlt)
      exact hab
    case isFalse => cases hlt
  obtain ⟨rfl, hstart⟩ := (Text.cutAt?_eq_some_iff _ _ _ _).1 hbefore
  obtain ⟨rfl, hlength⟩ := (Text.cutAt?_eq_some_iff _ _ _ _).1 hword
  have hslice : Text.slice? start stop (before ++ (word ++ after)) = some word := by
    refine (Text.slice?_eq_some_iff _ _ _ _).2 ⟨before, after, ?_, hstart, ?_⟩
    · rw [List.append_assoc]
    · show start + word.byteLength = stop
      omega
  dsimp only at hkept
  split at hkept
  case isTrue hkeeps =>
    rw [Bool.and_eq_true, Bool.not_eq_true'] at hkeeps
    exact ⟨start, stop, before, word, after, hrange, hlt, hslice, hkeeps.1,
      (Option.some.inj hkept).symm⟩
  case isFalse => cases hkept

/-- An issue is made of a finding if it is reportable, and only then. -/
theorem matchIssue?_cases (hsentence : sentence.unitLength < wordSize)
    (hm : m.length < wordSize) :
    (IsReportable s sentence m ∧ ∃ before word after : Text, Marks m sentence before word after ∧
      matchIssue? s sentence m = some (issue m before.byteLength
        (before.byteLength + word.byteLength) before after)) ∨
    (¬ IsReportable s sentence m ∧ matchIssue? s sentence m = none) := by
  unfold matchIssue?
  cases hrange : matchRange? sentence m with
  | none =>
    refine .inr ⟨?_, rfl⟩
    rintro ⟨before, word, after, hmarks, -⟩
    rw [(matchRange?_eq_some_iff hsentence hm _ _).2
      ⟨before, word, after, hmarks, rfl, rfl⟩] at hrange
    cases hrange
  | some range =>
    obtain ⟨before, word, after, hmarks, hstart, hstop⟩ :=
      (matchRange?_eq_some_iff hsentence hm range.1 range.2).1 hrange
    have hbefore : Text.cutAt? range.1 sentence = some (before, word ++ after) :=
      (Text.cutAt?_eq_some_iff _ _ _ _).2 ⟨by rw [hmarks.split, List.append_assoc], hstart⟩
    have hword : Text.cutAt? (range.2 - range.1) (word ++ after) = some (word, after) :=
      (Text.cutAt?_eq_some_iff _ _ _ _).2 ⟨rfl, by omega⟩
    have hreportable : (!s.skipsValue word && isConfident s m) = true ↔
        IsReportable s sentence m := by
      have hskips : s.skipsValue word = false ↔
          s.isSkipWord word = false ∧ ∀ p ∈ s.skipIfMatch, p.matchesIn word = false := by
        simp [Settings.skipsValue]
      rw [Bool.and_eq_true, Bool.not_eq_true', hskips, isConfident_iff, and_assoc]
      constructor
      · exact fun h => ⟨before, word, after, hmarks, h⟩
      · rintro ⟨before', word', after', hmarks', h⟩
        obtain ⟨-, rfl, -⟩ := hmarks'.unique hmarks hsentence hm
        exact h
    simp only [Option.bind_eq_bind, Option.bind_some, hbefore, hword]
    rw [← hstop, ← hstart]
    split
    case isTrue h => exact .inl ⟨hreportable.1 h, before, word, after, hmarks, rfl⟩
    case isFalse h => exact .inr ⟨mt hreportable.2 h, rfl⟩

/-- The issue that is made of a finding in a sentence, placed in the text, reports it. -/
theorem issueOf_shift {t : Text} {sentence : Span} {before word after : Text}
    (hslice : Text.slice? sentence.start sentence.stop t = some sentence.text)
    (hmarks : Marks m sentence.text before word after) :
    IssueOf t sentence m ((issue m before.byteLength (before.byteLength + word.byteLength)
      before after).shift sentence.start) where
  rule := rfl
  severity := rfl
  message := rfl
  marked := by
    have hword : Text.slice? before.byteLength (before.byteLength + word.byteLength)
        sentence.text = some word :=
      (Text.slice?_eq_some_iff _ _ _ _).2 ⟨before, after, hmarks.split, rfl, rfl⟩
    refine ⟨before, word, after, hmarks, Nat.add_comm _ _, ?_, rfl⟩
    have hplaced := Text.slice?_of_slice? hslice hword
    rwa [Nat.add_comm, Nat.add_comm sentence.start (before.byteLength + _)] at hplaced
  replacement := .inr rfl

/-- The issues of the findings in one sentence report them. -/
theorem reports_filterMap {t : Text} {sentence : Span}
    (hslice : Text.slice? sentence.start sentence.stop t = some sentence.text)
    (hsentence : sentence.text.unitLength < wordSize) {found : List GrammarMatch}
    (hfound : ∀ m ∈ found, m.length < wordSize) {later : List (Span × GrammarMatch)}
    {issues : List Issue} (rest : Reports s t later issues) :
    Reports s t (found.map (sentence, ·) ++ later)
      ((found.filterMap (matchIssue? s sentence.text)).map (·.shift sentence.start) ++ issues) := by
  induction found with
  | nil => exact rest
  | cons m found ih =>
    have hrest := ih fun m' hm' => hfound m' (List.mem_cons_of_mem m hm')
    rcases matchIssue?_cases (s := s) hsentence (hfound m List.mem_cons_self) with
      ⟨hreportable, before, word, after, hmarks, hissue⟩ | ⟨hnot, hnone⟩
    · rw [List.filterMap_cons_some hissue]
      exact .reported hreportable (issueOf_shift hslice hmarks) hrest
    · rw [List.filterMap_cons_none hnone]
      exact .dropped hnot hrest

end Grammar

namespace Checker

open Grammar

variable {service : GrammarService} {s : Settings}

/-! ## The sentences of a unit -/

/-- A question is about a sentence; other spans are passed over. -/
theorem questions_cons (span : Span) (rest : List Span) :
    questions s (span :: rest) = if isValidSentence span.text
      then request s span.text :: questions s rest else questions s rest := by
  unfold questions
  rw [List.filter_cons]
  split <;> rfl

theorem findings_cons (span : Span) (rest : List Span) :
    findings service s (span :: rest) = if isValidSentence span.text
      then (answer service (request s span.text)).map (span, ·) ++ findings service s rest
      else findings service s rest := by
  unfold findings
  rw [List.filter_cons]
  split <;> rfl

/-- What looks like no sentence is passed over. -/
theorem checkSentences_cons_of_not_valid {span : Span} (rest : List Span)
    (h : isValidSentence span.text = false) :
    checkSentences service s (span :: rest) = checkSentences service s rest := by
  rw [checkSentences, checkSentence, if_neg (by simp [h])]
  cases hlater : checkSentences service s rest with
  | mk asked later => cases later <;> rfl

/-- The service is asked nothing after it has failed. -/
theorem checkSentences_cons_of_error {span : Span} (rest : List Span) {e : GrammarError}
    (h : isValidSentence span.text = true) (he : service (request s span.text) = .error e) :
    checkSentences service s (span :: rest) = ([request s span.text], .error e) := by
  rw [checkSentences, checkSentence, if_pos h]
  dsimp only
  rw [he]
  rfl

/-- After an answer the other sentences are checked. -/
theorem checkSentences_cons_of_ok {span : Span} (rest : List Span) {r : GrammarResponse}
    (h : isValidSentence span.text = true) (hr : service (request s span.text) = .ok r) :
    checkSentences service s (span :: rest) =
      (request s span.text :: (checkSentences service s rest).1,
        (checkSentences service s rest).2.map
          ((r.found.filterMap (matchIssue? s span.text)).map (·.shift span.start) ++ ·)) := by
  rw [checkSentences, checkSentence, if_pos h]
  dsimp only
  rw [hr]
  rfl

/-- The first failure of the service ends the check. -/
theorem checkSentences_of_error {spans : List Span} {front rest : List GrammarRequest}
    {q : GrammarRequest} {e : GrammarError} (hsplit : questions s spans = front ++ q :: rest)
    (hfront : ∀ p ∈ front, ∃ r, service p = .ok r) (he : service q = .error e) :
    checkSentences service s spans = (front ++ [q], .error e) := by
  induction spans generalizing front with
  | nil => cases front <;> cases hsplit
  | cons span spans ih =>
    rw [questions_cons] at hsplit
    split at hsplit
    case isFalse h =>
      rw [checkSentences_cons_of_not_valid spans (by simpa using h)]
      exact ih hsplit hfront
    case isTrue h =>
      cases front with
      | nil =>
        obtain ⟨rfl, -⟩ := List.cons.inj hsplit
        exact checkSentences_cons_of_error spans h he
      | cons p front =>
        obtain ⟨rfl, htail⟩ := List.cons.inj hsplit
        obtain ⟨r, hr⟩ := hfront _ List.mem_cons_self
        rw [checkSentences_cons_of_ok spans h hr,
          ih htail fun p hp => hfront p (List.mem_cons_of_mem _ hp)]
        rfl

/-- A service that always answers is asked all questions, and its findings are reported. -/
theorem checkSentences_of_ok {t : Text} {spans : List Span} (ht : t.unitLength < wordSize)
    (hservice : CountsInWords service) (hspans : ∀ span ∈ spans, span ∈ t.sentences)
    (h : ∀ q ∈ questions s spans, ∃ r, service q = .ok r) :
    ∃ issues, checkSentences service s spans = (questions s spans, .ok issues) ∧
      Reports s t (findings service s spans) issues := by
  induction spans with
  | nil => exact ⟨[], rfl, .nil⟩
  | cons span spans ih =>
    have ih := ih fun span' hs => hspans span' (List.mem_cons_of_mem span hs)
    rw [questions_cons] at h ⊢
    rw [findings_cons]
    split
    case isFalse hvalid =>
      rw [if_neg hvalid] at h
      rw [checkSentences_cons_of_not_valid spans (by simpa using hvalid)]
      exact ih h
    case isTrue hvalid =>
      rw [if_pos hvalid] at h
      obtain ⟨r, hr⟩ := h _ List.mem_cons_self
      obtain ⟨later, hlater, hreports⟩ := ih fun q hq => h q (List.mem_cons_of_mem _ hq)
      obtain ⟨-, hslice⟩ := Text.sentence_slice (hspans span List.mem_cons_self)
      have hshort : span.text.unitLength < wordSize := by
        obtain ⟨a, b, rfl, -, -⟩ := (Text.slice?_eq_some_iff _ _ _ _).1 hslice
        simp only [Text.unitLength_append] at ht
        omega
      rw [checkSentences_cons_of_ok spans hvalid hr, hlater, answer, hr]
      exact ⟨_, rfl, reports_filterMap hslice hshort (hservice _ r hr) hreports⟩

/-- A service either answers all questions of a list, or there is one that it fails on first. -/
theorem answers_or_fails (service : GrammarService) (qs : List GrammarRequest) :
    (∀ q ∈ qs, ∃ r, service q = .ok r) ∨
      ∃ front q rest e, qs = front ++ q :: rest ∧ (∀ p ∈ front, ∃ r, service p = .ok r) ∧
        service q = .error e := by
  induction qs with
  | nil => exact .inl (by simp)
  | cons q qs ih =>
    cases hq : service q with
    | error e => exact .inr ⟨[], q, qs, e, rfl, by simp, hq⟩
    | ok r =>
      rcases ih with hall | ⟨front, p, rest, e, rfl, hfront, he⟩
      · exact .inl (List.forall_mem_cons.2 ⟨⟨r, hq⟩, hall⟩)
      · exact .inr ⟨q :: front, p, rest, e, rfl, List.forall_mem_cons.2 ⟨⟨r, hq⟩, hfront⟩, he⟩

/-! ## A unit -/

/-- Reconciling takes at most the replacement from an issue. -/
theorem forall₂_keepUsed (used : List Nat) (place : Nat) (issues : List Issue) :
    List.Forall₂ (fun i j => j = i ∨ j = { i with replacement := none }) issues
      (Correction.keepUsed used place issues) := by
  induction issues generalizing place with
  | nil => exact .nil
  | cons i issues ih =>
    refine .cons ?_ (ih (place + 1))
    split
    · exact .inl rfl
    · exact .inr rfl

/-- What issues report they still report without their replacements. -/
theorem reports_of_forall₂ {t : Text} {found : List (Span × GrammarMatch)} {issues kept : List Issue}
    (h : Reports s t found issues)
    (hkept : List.Forall₂ (fun i j => j = i ∨ j = { i with replacement := none }) issues kept) :
    Reports s t found kept := by
  induction h generalizing kept with
  | nil =>
    cases hkept
    exact .nil
  | dropped hm _ ih => exact .dropped hm (ih hkept)
  | reported hm hi _ ih =>
    cases hkept with
    | cons hij rest =>
      refine .reported hm ?_ (ih rest)
      rcases hij with rfl | rfl
      · exact hi
      · exact ⟨hi.rule, hi.severity, hi.message, hi.marked, .inl rfl⟩

theorem rule_of_reports {t : Text} {found : List (Span × GrammarMatch)} {issues : List Issue}
    (h : Reports s t found issues) : ∀ i ∈ issues, i.rule = .grammar := by
  induction h with
  | nil => simp
  | reported hm hi _ ih => exact List.forall_mem_cons.2 ⟨hi.rule, ih⟩
  | dropped _ _ ih => exact ih

theorem rule_ne_grammar_of_mem_spelling {d : Dictionary} {t : Text} {i : Issue}
    (h : i ∈ Spelling.check s d t) : i.rule ≠ .grammar := by
  obtain ⟨token, -, rfl⟩ := List.mem_map.1 h
  exact Rule.noConfusion

theorem rule_ne_grammar_of_mem_style {t : Text} {kind : UnitKind} {i : Issue}
    (h : i ∈ styleIssues s t kind) : i.rule ≠ .grammar := by
  rw [styleIssues] at h
  split at h
  · cases h
  · simp only [Style.check, List.mem_append] at h
    rcases h with (((((h | h) | h) | h) | h) | h) | h
    all_goals
      split at h
      · obtain ⟨p, -, rfl⟩ := List.mem_map.1 h
        exact Rule.noConfusion
      · cases h

/-- The issues of grammar keep their number and what they report when the issues of a unit are sorted
and reconciled. -/
theorem reports_reconcile {t : Text} {found : List (Span × GrammarMatch)}
    {others issues : List Issue} (hothers : ∀ i ∈ others, i.rule ≠ .grammar)
    (h : Reports s t found issues) :
    ∃ row, Reports s t found row ∧
      row.Perm ((reconcile t ((others ++ issues).mergeSort earlierFirst)).issues.filter
        (·.rule = .grammar)) := by
  have hsorted : issues.Perm
      (((others ++ issues).mergeSort earlierFirst).filter (·.rule = .grammar)) := by
    refine List.Perm.trans (.of_eq ?_)
      ((List.mergeSort_perm (others ++ issues) earlierFirst).filter _).symm
    rw [List.filter_append, List.filter_eq_nil_iff.2 (by simpa using hothers), List.nil_append,
      List.filter_eq_self.2 (by simpa using rule_of_reports h)]
  rw [Correction.reconcile_issues]
  -- the replacements that reconciling takes leave the rules as they are
  have hkept := List.rel_filter (p := (·.rule = .grammar)) (q := (·.rule = .grammar))
    (by rintro i j (rfl | rfl) <;> rfl)
    (forall₂_keepUsed ((Correction.madeFor t ((others ++ issues).mergeSort earlierFirst)).map
      (·.2.place)) 0 ((others ++ issues).mergeSort earlierFirst))
  obtain ⟨row, hrow, hperm⟩ := List.perm_comp_forall₂ hsorted hkept
  exact ⟨row, reports_of_forall₂ h hrow, hperm⟩

/-- What a unit is asked about and what is reported on it, if the service is asked at all. -/
structure ChecksGrammar (service : GrammarService) (s : Settings) (t : Text)
    (outcome : UnitOutcome) : Prop where
  /-- The check fails if the service fails on some sentence. -/
  fails_iff : (∃ e, outcome.result = .error e) ↔
    ∃ q ∈ questions s t.sentences, ∃ e, service q = .error e
  /-- All sentences are asked about if the service answers each. -/
  asked_of_ok : (∀ q ∈ questions s t.sentences, ∃ r, service q = .ok r) →
    outcome.asked = questions s t.sentences
  /-- The first failure is the last question, and the error of the unit. -/
  asked_of_error : ∀ front q rest e, questions s t.sentences = front ++ q :: rest →
    (∀ p ∈ front, ∃ r, service p = .ok r) → service q = .error e →
      outcome.asked = front ++ [q] ∧ outcome.result = .error (.grammar e)
  /-- The issues of grammar are those of the reportable findings, one each. -/
  reports : ∀ c, outcome.result = .ok c → ∃ row,
    Reports s t (findings service s t.sentences) row ∧
      row.Perm (c.issues.filter (·.rule = .grammar))

theorem checksGrammar_checkWith {t : Text} {kind : UnitKind} (d : Dictionary)
    (ht : t.unitLength < wordSize) (hservice : CountsInWords service)
    (hkind : kind ≠ .identifier) (hsentences : s.sentences = true) :
    ChecksGrammar service s t (checkWith d service s t kind) := by
  have hgrammar : grammarIssues service s t kind = checkSentences service s t.sentences :=
    if_pos ⟨hkind, hsentences⟩
  have herror : ∀ front q rest e, questions s t.sentences = front ++ q :: rest →
      (∀ p ∈ front, ∃ r, service p = .ok r) → service q = .error e →
        checkWith d service s t kind = ⟨front ++ [q], .error (.grammar e)⟩ := by
    intro front q rest e hsplit hfront he
    rw [checkWith, hgrammar, checkSentences_of_error hsplit hfront he]
  have hok : (∀ q ∈ questions s t.sentences, ∃ r, service q = .ok r) →
      ∃ issues, Reports s t (findings service s t.sentences) issues ∧
        checkWith d service s t kind = ⟨questions s t.sentences,
          .ok (reconcile t ((Spelling.check s d t ++ styleIssues s t kind ++ issues).mergeSort
            earlierFirst))⟩ := by
    intro h
    obtain ⟨issues, hissues, hreports⟩ :=
      checkSentences_of_ok ht hservice (fun _ hspan => hspan) h
    exact ⟨issues, hreports, by rw [checkWith, hgrammar, hissues]⟩
  rcases answers_or_fails service (questions s t.sentences) with
    hall | ⟨front, q, rest, e, hsplit, hfront, he⟩
  case inl =>
    obtain ⟨issues, hreports, houtcome⟩ := hok hall
    have hnone : ¬ ∃ q ∈ questions s t.sentences, ∃ e, service q = .error e := by
      rintro ⟨q, hq, e, he⟩
      obtain ⟨r, hr⟩ := hall q hq
      rw [he] at hr
      cases hr
    rw [houtcome]
    constructor
    case fails_iff =>
      refine iff_of_false ?_ hnone
      rintro ⟨e, he⟩
      cases he
    case asked_of_ok => exact fun _ => rfl
    case asked_of_error =>
      intro front q rest e hsplit _ he
      exact absurd ⟨q, by simp [hsplit], e, he⟩ hnone
    case reports =>
      intro c hc
      obtain rfl := Except.ok.inj hc
      refine reports_reconcile (fun i hi => ?_) hreports
      rcases List.mem_append.1 hi with hi | hi
      · exact rule_ne_grammar_of_mem_spelling hi
      · exact rule_ne_grammar_of_mem_style hi
  case inr =>
    constructor
    case fails_iff =>
      refine iff_of_true ⟨.grammar e, ?_⟩ ⟨q, by simp [hsplit], e, he⟩
      rw [herror front q rest e hsplit hfront he]
    case asked_of_ok =>
      intro hall
      obtain ⟨r, hr⟩ := hall q (by simp [hsplit])
      rw [he] at hr
      cases hr
    case asked_of_error =>
      intro front q rest e hsplit hfront he
      rw [herror front q rest e hsplit hfront he]
      exact ⟨rfl, rfl⟩
    case reports =>
      intro c hc
      rw [herror front q rest e hsplit hfront he] at hc
      cases hc

/-- **A unit is checked for grammar sentence by sentence, and each finding that can be reported is
reported once, where it stands.** -/
theorem grammar_checkUnit (load : Loader) (service : GrammarService) (s : Settings) (t : Text)
    (kind : UnitKind) (cache : DictionaryCache) (ht : t.unitLength < wordSize)
    (hservice : CountsInWords service) :
    (kind = .identifier ∨ s.sentences = false ∨ skips s t kind = true →
      (checkUnit load service s t kind cache).1.asked = []) ∧
    (kind ≠ .identifier → s.sentences = true → skips s t kind = false →
      match (cache.get load s.language).1 with
      | .error e => (checkUnit load service s t kind cache).1 = ⟨[], .error e⟩
      | .ok _ => ChecksGrammar service s t (checkUnit load service s t kind cache).1) := by
  constructor
  · intro h
    unfold checkUnit
    split
    case isTrue => rfl
    case isFalse hskips =>
      have hnot : ¬ (kind ≠ .identifier ∧ s.sentences = true) := by
        rintro ⟨hkind, hsentences⟩
        rcases h with h | h | h
        · exact hkind h
        · rw [hsentences] at h
          cases h
        · exact hskips h
      split
      · rfl
      · show (grammarIssues service s t kind).1 = []
        rw [grammarIssues, if_neg hnot]
  · intro hkind hsentences hskips
    rw [checkUnit, if_neg (by simp [hskips])]
    cases hget : cache.get load s.language with
    | mk dictionary cache' =>
      cases dictionary with
      | error e => rfl
      | ok d => exact checksGrammar_checkWith d ht hservice hkind hsentences

theorem grammar_checkUnit_heGo :
    let service : GrammarService := fun _ =>
      .ok ⟨[{ offset := 3, length := 2, replacements := ["goes".toList] }]⟩
    let s : Settings := { skipWords := [], sentences := true }
    let outcome := (checkUnit (fun _ _ => .ok default) service s "He go.".toList .comment {}).1
    ChecksGrammar service s "He go.".toList outcome ∧
      outcome.asked = [request s "He go.".toList] := by
  intro service s outcome
  have hservice : CountsInWords service := by
    intro q r hr m hm
    obtain rfl := Except.ok.inj hr
    obtain rfl := List.mem_singleton.1 hm
    decide
  have h : ChecksGrammar service s "He go.".toList outcome :=
    (grammar_checkUnit (fun _ _ => .ok default) service s "He go.".toList .comment {} (by decide)
      hservice).2 (by decide) rfl (by decide +kernel)
  refine ⟨h, (h.asked_of_ok fun q _ => ⟨_, rfl⟩).trans ?_⟩
  have hsentences : questions s (Text.sentences "He go.".toList) = [request s "He go.".toList] := by
    decide +kernel
  exact hsentences

end Checker

end CodeProse

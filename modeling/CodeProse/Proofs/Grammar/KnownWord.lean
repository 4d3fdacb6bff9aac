/-
# Findings on known words

A server knows nothing of the caller's dictionary, so the client drops findings on its words from
every answer. Checking a sentence skips the same findings once more, along with those that a pattern
matches or that are not confident enough: whatever the client drops would come to no issue
(`matchIssue?_of_isOnKnownWord`). So a sentence is checked with the same outcome over the client and
over a service that hands on all findings of the server (`checkSentence_client`).
-/
import CodeProse.Grammar.Client
import CodeProse.Proofs.GrammarChecks

namespace CodeProse.Grammar

open Text (slice?)

/-! ## Services with and without the findings -/

/-- A service whose answers are rid of findings on words of the dictionary. -/
def sparingKnownWords (service : GrammarService) : GrammarService := fun question =>
  (service question).map fun r =>
    { r with found := r.found.filter (!Client.isOnKnownWord question ·) }

namespace Client

/-- What a reply says about a question, with all findings of the server. -/
def readAll : HttpReply → Except GrammarError GrammarResponse
  | .dropped => .error (.transport "connection closed".toList)
  | .answer status body =>
    let body := if isBodiless status then [] else body
    if isSuccess status then
      match readResponse? body with
      | some r => .ok r
      | none => .error (.decode "not a response".toList)
    else .error (.status status body)

/-- The service at a base address that hands on all findings. -/
def fullService (network : HttpRequest → HttpReply) (base : Text) : GrammarService := fun question =>
  match request? base question with
  | some request => readAll (network request)
  | none => .error (.transport "unusable address".toList)

/-- Reading a reply is reading all of it and dropping the findings on known words. -/
theorem read_eq (question : GrammarRequest) (reply : HttpReply) :
    read question reply = (readAll reply).map fun r =>
      { r with found := r.found.filter (!isOnKnownWord question ·) } := by
  cases reply with
  | dropped => rfl
  | answer status body =>
    simp only [read, readAll]
    split
    case isTrue =>
      cases readResponse? (if isBodiless status then [] else body) with
      | some r => rfl
      | none => rfl
    case isFalse => rfl

/-- The client is the service that hands on all findings, rid of those on known words. -/
theorem service_eq (network : HttpRequest → HttpReply) (base : Text) :
    service network base = sparingKnownWords (fullService network base) := by
  funext question
  rw [service, sparingKnownWords, fullService]
  cases request? base question with
  | some request => exact read_eq question (network request)
  | none => rfl

/-- A finding is on a known word if it has a range and the dictionary has what stands there. -/
theorem isOnKnownWord_iff (question : GrammarRequest) (m : GrammarMatch) :
    isOnKnownWord question m = true ↔ ∃ start stop word,
      matchRange? question.text m = some (start, stop) ∧
        slice? start stop question.text = some word ∧
        Unicode.lowercase word ∈ question.dictionary := by
  rw [isOnKnownWord]
  cases hrange : matchRange? question.text m with
  | none => simp
  | some range =>
    obtain ⟨start, stop⟩ := range
    dsimp only
    cases hslice : slice? start stop question.text with
    | none =>
      refine iff_of_false (by simp) ?_
      rintro ⟨start', stop', word, hrange', hword, -⟩
      obtain ⟨rfl, rfl⟩ := Prod.mk.inj (Option.some.inj hrange')
      rw [hslice] at hword
      cases hword
    | some word =>
      rw [Option.any_some, List.contains_iff_mem]
      constructor
      · exact fun hknown => ⟨start, stop, word, rfl, hslice, hknown⟩
      · rintro ⟨start', stop', word', hrange', hword, hknown⟩
        obtain ⟨rfl, rfl⟩ := Prod.mk.inj (Option.some.inj hrange')
        rw [hslice] at hword
        rwa [Option.some.inj hword]

end Client

/-! ## One finding -/

variable {s : Settings} {sentence : Text} {m : GrammarMatch}

/-- **A finding on a known word comes to no issue:** the words of the dictionary are among what the
settings skip. -/
theorem matchIssue?_of_isOnKnownWord (h : Client.isOnKnownWord (request s sentence) m = true) :
    matchIssue? s sentence m = none := by
  obtain ⟨start, stop, word, hrange, hslice, hknown⟩ := (Client.isOnKnownWord_iff _ _).1 h
  have hskips : s.skipsValue word = true := by
    have hword : s.isSkipWord word = true := List.contains_iff_mem.2 hknown
    rw [Settings.skipsValue, hword, Bool.true_or]
  cases hissue : matchIssue? s sentence m with
  | none => rfl
  | some i =>
    exfalso
    obtain ⟨start', stop', before, word', after, hmade⟩ := matchIssue?_eq_some hissue
    have hsame : (start, stop) = (start', stop') := Option.some.inj (hrange.symm.trans hmade.range)
    obtain ⟨rfl, rfl⟩ := Prod.mk.inj hsame
    obtain rfl : word = word' := Option.some.inj (hslice.symm.trans hmade.slice)
    rw [hmade.keeps] at hskips
    cases hskips

/-! ## One sentence -/

/-- The findings that are dropped leave no gap among the issues, and the others stay in order. -/
theorem filterMap_matchIssue?_filter (found : List GrammarMatch) :
    (found.filter (!Client.isOnKnownWord (request s sentence) ·)).filterMap
        (matchIssue? s sentence) = found.filterMap (matchIssue? s sentence) := by
  induction found with
  | nil => rfl
  | cons m found ih =>
    rw [List.filter_cons, List.filterMap_cons]
    cases hknown : Client.isOnKnownWord (request s sentence) m with
    | true =>
      rw [Bool.not_true, if_neg (by simp), matchIssue?_of_isOnKnownWord hknown, ih]
    | false =>
      rw [Bool.not_false, if_pos rfl, List.filterMap_cons, ih]

/-- A sentence is checked with the same outcome whether or not the findings are dropped first. -/
theorem checkSentence_sparing (service : GrammarService) (s : Settings) (sentence : Text) :
    checkSentence (sparingKnownWords service) s sentence = checkSentence service s sentence := by
  rw [checkSentence, checkSentence]
  split
  case isFalse => rfl
  case isTrue =>
    simp only [sparingKnownWords]
    cases service (request s sentence) with
    | error e => rfl
    | ok r => simp only [Except.map, filterMap_matchIssue?_filter]

/-- **What the client drops makes no difference.**  Whatever a service answers, a sentence is checked
with the same outcome, the same error or the same issues in the same order, if the findings on words
of the dictionary are dropped from the answers; and whatever a network replies, it is checked with the
same outcome over the client as over the service that hands on all findings of the server. -/
theorem checkSentence_client (service : GrammarService) (network : HttpRequest → HttpReply)
    (base : Text) (s : Settings) (sentence : Text) :
    checkSentence (sparingKnownWords service) s sentence = checkSentence service s sentence ∧
      checkSentence (Client.service network base) s sentence
        = checkSentence (Client.fullService network base) s sentence := by
  refine ⟨checkSentence_sparing service s sentence, ?_⟩
  rw [Client.service_eq, checkSentence_sparing]

end CodeProse.Grammar

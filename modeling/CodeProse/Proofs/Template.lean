/-
# What a template comes to

A template is cut from left to right: at the first pair of opening braces, and behind that at the
first pair of closing ones (`Template.Cut`). There is one way to do so
(`Template.exists_cut`, `Template.Cut.unique`). The template that is filled in is made of the same
pieces, each with its value in its place (`Template.fill_of_cut`), so nothing that is put in is ever
read again: whatever the message of an issue and its suggestion contain, they are shown as they are
(`message_ofIssue`).
-/
import CodeProse.Proofs.Text.Search
import CodeProse.Report

namespace CodeProse

open Text (PartsFirst splitFirst?_eq_some_iff splitFirst?_eq_none_iff)

namespace Template

/-! ## Pieces -/

/-- A piece of a template. -/
inductive Piece where
  | literal (t : Text)
  | placeholder (name : Text)
  deriving DecidableEq, Repr

/-- A piece as it is written. -/
def Piece.text : Piece → Text
  | literal t => t
  | placeholder name => openMark ++ name ++ closeMark

/-- What a piece comes to: a placeholder with a name that is known, without the white space around
it, to the value of that name, and everything else to itself. -/
def Piece.value (lookup : Text → Option Text) : Piece → Text
  | literal t => t
  | placeholder name => (lookup name.trim).getD (openMark ++ name ++ closeMark)

/-- A template is cut into literal text and placeholders, from left to right. A placeholder is a
pair of opening braces with everything up to the next pair of closing ones; what has none of these
is literal text, with any opening braces that are not closed. -/
inductive Cut : Text → List Piece → Prop
  | rest {t : Text}
    (h : ∀ before name after, t ≠ before ++ openMark ++ name ++ closeMark ++ after) :
    Cut t [.literal t]
  | step {t literal body name rest : Text} {pieces : List Piece}
    (hopen : PartsFirst openMark t literal body) (hclose : PartsFirst closeMark body name rest)
    (hrest : Cut rest pieces) : Cut t (.literal literal :: .placeholder name :: pieces)

/-- No placeholder is in a text in which the first opening braces are not closed. -/
theorem not_placeholder_of_splitFirst? {t : Text}
    (h : ∀ literal body, Text.splitFirst? openMark t = some (literal, body) →
      Text.splitFirst? closeMark body = none) (before name after : Text) :
    t ≠ before ++ openMark ++ name ++ closeMark ++ after := by
  intro ht
  have ht : t = before ++ openMark ++ (name ++ closeMark ++ after) := by
    rw [ht]
    simp
  cases hsplit : Text.splitFirst? openMark t with
  | none => exact (splitFirst?_eq_none_iff _ _).1 hsplit ⟨before, _, ht.symm⟩
  | some parts =>
    obtain ⟨literal, body⟩ := parts
    have hnone := (splitFirst?_eq_none_iff _ _).1 (h literal body hsplit)
    obtain ⟨hparts, hfirst⟩ := (splitFirst?_eq_some_iff _ _ _ _).1 hsplit
    -- the placeholder would begin at the first opening braces or behind them, and close them
    obtain ⟨more, hmore⟩ : literal ++ openMark <+: before ++ openMark := by
      refine List.prefix_of_prefix_length_le ⟨body, hparts.symm⟩ ⟨_, ht.symm⟩ ?_
      have hle := hfirst before _ ht
      simpa using hle
    have hbody : body = more ++ (name ++ closeMark ++ after) := by
      have hsame : literal ++ openMark ++ body =
          literal ++ openMark ++ (more ++ (name ++ closeMark ++ after)) := by
        rw [← hparts, ht, ← hmore, List.append_assoc]
      exact List.append_cancel_left hsame
    exact hnone ⟨more ++ name, after, by rw [hbody]; simp⟩

/-- What is left behind a placeholder is shorter. -/
theorem length_rest_lt {t literal body name rest : Text}
    (hopen : PartsFirst openMark t literal body) (hclose : PartsFirst closeMark body name rest) :
    rest.length < t.length := by
  rw [hopen.split, hclose.split]
  simp [openMark, closeMark]
  omega

/-- There is a way to cut a template. -/
theorem exists_cut (t : Text) : ∃ pieces, Cut t pieces := by
  induction hlength : t.length using Nat.strongRecOn generalizing t with
  | _ n ih =>
    by_cases hfound : ∃ literal body name rest, PartsFirst openMark t literal body ∧
        PartsFirst closeMark body name rest
    · obtain ⟨literal, body, name, rest, hopen, hclose⟩ := hfound
      obtain ⟨more, hrest⟩ := ih _ (hlength ▸ length_rest_lt hopen hclose) rest rfl
      exact ⟨_, .step hopen hclose hrest⟩
    · refine ⟨_, .rest (not_placeholder_of_splitFirst? fun literal body hopen => ?_)⟩
      rw [Option.eq_none_iff_forall_ne_some]
      rintro ⟨name, rest⟩ hclose
      exact hfound ⟨literal, body, name, rest, (splitFirst?_eq_some_iff _ _ _ _).1 hopen,
        (splitFirst?_eq_some_iff _ _ _ _).1 hclose⟩

/-- There is only one way to cut a template. -/
theorem Cut.unique {t : Text} {pieces pieces' : List Piece} (h : Cut t pieces)
    (h' : Cut t pieces') : pieces' = pieces := by
  have hfound : ∀ {t literal body name rest : Text}, PartsFirst openMark t literal body →
      PartsFirst closeMark body name rest →
        t = literal ++ openMark ++ name ++ closeMark ++ rest := by
    intro t literal body name rest hopen hclose
    rw [hopen.split, hclose.split]
    simp
  induction h generalizing pieces' with
  | rest hnone =>
    cases h' with
    | rest => rfl
    | step hopen hclose => exact absurd (hfound hopen hclose) (hnone _ _ _)
  | step hopen hclose hrest ih =>
    cases h' with
    | rest hnone => exact absurd (hfound hopen hclose) (hnone _ _ _)
    | step hopen' hclose' hrest' =>
      obtain ⟨rfl, rfl⟩ := hopen.unique hopen'
      obtain ⟨rfl, rfl⟩ := hclose.unique hclose'
      rw [ih hrest']

/-- Nothing of a template is lost. -/
theorem Cut.text {t : Text} {pieces : List Piece} (h : Cut t pieces) :
    pieces.flatMap Piece.text = t := by
  induction h with
  | rest => simp [Piece.text]
  | step hopen hclose hrest ih =>
    rw [hopen.split, hclose.split, List.flatMap_cons, List.flatMap_cons, ih]
    simp [Piece.text]

/-- **A template is filled in piece by piece.** -/
theorem fill_of_cut (lookup : Text → Option Text) {t : Text} {pieces : List Piece} {fuel : Nat}
    (h : Cut t pieces) (hfuel : t.length ≤ fuel) :
    fill lookup fuel t = pieces.flatMap (Piece.value lookup) := by
  induction h generalizing fuel with
  | @rest t hnone =>
    have hsame : fill lookup fuel t = t := by
      cases fuel with
      | zero => rfl
      | succ fuel =>
        rw [fill]
        split
        case h_1 => rfl
        case h_2 literal body hopen =>
          split
          case h_1 => rfl
          case h_2 name after hclose =>
            refine absurd ?_ (hnone literal name after)
            rw [Text.splitFirst?_eq_some hopen, Text.splitFirst?_eq_some hclose]
            simp
    rw [hsame, List.flatMap_singleton, Piece.value]
  | @step t literal body name rest pieces hopen hclose hrest ih =>
    have hlt := length_rest_lt hopen hclose
    obtain ⟨fuel, rfl⟩ := Nat.exists_eq_succ_of_ne_zero (n := fuel) (by omega)
    rw [fill, (splitFirst?_eq_some_iff _ _ _ _).2 hopen]
    simp only [(splitFirst?_eq_some_iff _ _ _ _).2 hclose]
    rw [ih (by omega), List.flatMap_cons, List.flatMap_cons, Piece.value, Piece.value,
      List.append_assoc]

/-- A template is the concatenation of its pieces, and filled in, that of their values. -/
structure FillsPieces (lookup : Text → Option Text) (t : Text) (pieces : List Piece) : Prop where
  cut : ∀ other, Cut t other ↔ other = pieces
  text : pieces.flatMap Piece.text = t
  render : render lookup t = pieces.flatMap (Piece.value lookup)

theorem Cut.fillsPieces {t : Text} {pieces : List Piece} (h : Cut t pieces)
    (lookup : Text → Option Text) : FillsPieces lookup t pieces where
  cut _ := ⟨h.unique, fun heq => heq ▸ h⟩
  text := h.text
  render := fill_of_cut lookup h (Nat.le_refl _)

/-! ## Plain templates -/

theorem cut_literal {t : Text} (h : '{' ∉ t) : Cut t [.literal t] := by
  refine .rest fun before name after ht => h ?_
  rw [ht]
  simp [openMark]

theorem cut_placeholder (literal : Text) (name : String) {rest : Text} {pieces : List Piece}
    (hliteral : '{' ∉ literal) (hname : '}' ∉ name.toList) (hrest : Cut rest pieces) :
    Cut (literal ++ placeholder name ++ rest)
      (.literal literal :: .placeholder name.toList :: pieces) := by
  have hopen := Text.partsFirst_of_notMem ['{'] (name.toList ++ closeMark ++ rest) hliteral
  have hclose := Text.partsFirst_of_notMem ['}'] rest hname
  refine .step ?_ hclose hrest
  simpa [placeholder, openMark, closeMark] using hopen

end Template

/-! ## The message of a report -/

/-- The suggestion that is shown behind the message of an issue: not one that only repeats the
replacement. -/
def Issue.shownSuggestion? (issue : Issue) : Option Text :=
  issue.suggestion.filter fun s => some s != issue.replacement

/-- The message of an issue as it is shown. -/
def Issue.shownMessage (issue : Issue) : Text :=
  match issue.shownSuggestion? with
  | none => issue.message
  | some s => issue.message ++ " (".toList ++ s ++ ")".toList

open Template

/-- The template of a message that is shown alone. -/
theorem cut_message :
    Cut (placeholder "message") [.literal [], .placeholder "message".toList, .literal []] := by
  have hcut := cut_placeholder [] "message" (by simp) (by decide)
    (cut_literal (t := []) (by simp))
  rwa [List.nil_append, List.append_nil] at hcut

/-- The template of a message that is shown with a suggestion. -/
theorem cut_messageWithSuggestion :
    Cut (placeholder "message" ++ " (".toList ++ placeholder "suggestion" ++ ")".toList)
      [.literal [], .placeholder "message".toList, .literal " (".toList,
        .placeholder "suggestion".toList, .literal ")".toList] := by
  have hrest := cut_placeholder " (".toList "suggestion" (by decide)
    (by decide) (cut_literal (t := ")".toList) (by decide))
  have hcut := cut_placeholder [] "message" (by simp) (by decide) hrest
  rwa [List.nil_append, ← List.append_assoc, ← List.append_assoc] at hcut

/-- The message of an issue is the entry of its data of that name. -/
theorem find?_message (data : ReportData) :
    data.find? (Text.trim "message".toList) = some data.message := by
  rfl

theorem find?_suggestion (data : ReportData) :
    data.find? (Text.trim "suggestion".toList) = data.suggestion := by
  obtain ⟨word, unit, message, suggestion⟩ := data
  cases suggestion with
  | none => rfl
  | some s => rfl

theorem isSome_shownSuggestion? (issue : Issue) :
    (issue.suggestion.isSome && issue.suggestion != issue.replacement)
      = issue.shownSuggestion?.isSome := by
  unfold Issue.shownSuggestion?
  cases issue.suggestion with
  | none => rfl
  | some s => cases h : some s != issue.replacement <;> simp [Option.filter, h]

/-- The template of an issue goes by whether a suggestion is shown. -/
theorem messageTemplate_eq {issue : Issue} (hrule : issue.rule ≠ .spelling) :
    messageTemplate issue = match issue.shownSuggestion? with
      | none => placeholder "message"
      | some _ =>
        placeholder "message" ++ " (".toList ++ placeholder "suggestion" ++ ")".toList := by
  unfold messageTemplate
  simp only [isSome_shownSuggestion?]
  split
  case h_1 hspelling _ => exact absurd hspelling hrule
  case h_2 hspelling _ => exact absurd hspelling hrule
  case h_3 hshown _ =>
    obtain ⟨s, hs⟩ := Option.isSome_iff_exists.1 hshown
    rw [hs]
  case h_4 hshown _ =>
    rw [Option.isSome_eq_false_iff, Option.isNone_iff_eq_none] at hshown
    rw [hshown]

/-- **A message is shown as it is,** and so is a suggestion behind it. -/
theorem message_ofIssue (unit : Text) (kind : UnitKind) (offset : Nat) {issue : Issue}
    (hrule : issue.rule ≠ .spelling) :
    (Report.ofIssue unit kind offset issue).message = issue.shownMessage := by
  unfold Report.ofIssue Issue.shownMessage
  simp only [messageTemplate_eq hrule]
  cases hs : issue.shownSuggestion? with
  | none =>
    simp only
    rw [(cut_message.fillsPieces _).render]
    simp only [List.flatMap_cons, List.flatMap_nil, Piece.value, find?_message, Option.getD_some,
      List.nil_append, List.append_nil]
  | some s =>
    have hsuggestion : issue.suggestion = some s := (Option.filter_eq_some_iff.1 hs).1
    simp only
    rw [(cut_messageWithSuggestion.fillsPieces _).render]
    simp only [List.flatMap_cons, List.flatMap_nil, Piece.value, find?_message, find?_suggestion,
      hsuggestion, Option.getD_some, List.nil_append, List.append_nil, List.append_assoc]

/-- **Templates are filled in one pass.** Every template has its pieces, whatever is filled in, and
comes to the values of these. The message of an issue that is not a misspelled word is shown as it
is, with its suggestion behind it unless that only repeats the replacement. -/
theorem fillsInOnePass :
    (∀ t, ∃ pieces, ∀ lookup, FillsPieces lookup t pieces) ∧
      ∀ unit kind offset issue, issue.rule ≠ .spelling →
        (Report.ofIssue unit kind offset issue).message = issue.shownMessage := by
  refine ⟨fun t => ?_, fun unit kind offset issue hrule => message_ofIssue unit kind offset hrule⟩
  obtain ⟨pieces, hcut⟩ := exists_cut t
  exact ⟨pieces, hcut.fillsPieces⟩

/-- An issue that speaks of placeholders. -/
def Issue.ofBraces : Issue where
  rule := .grammar
  start := 0
  stop := 3
  severity := .error
  message := "\x7b\x7bword\x7d\x7d is not closed: \x7b\x7b".toList
  suggestion := some "\x7d\x7d or \x7b\x7bunit\x7d\x7d".toList

/-- What looks like a placeholder in a message stays what it is. -/
theorem message_ofBraces :
    Issue.ofBraces.rule ≠ .spelling ∧
      (Report.ofIssue "a b".toList .comment 0 Issue.ofBraces).message =
        ("\x7b\x7bword\x7d\x7d is not closed: \x7b\x7b"
          ++ " (\x7d\x7d or \x7b\x7bunit\x7d\x7d)").toList := by
  have hrule : Issue.ofBraces.rule ≠ .spelling := by decide
  refine ⟨hrule, ?_⟩
  rw [fillsInOnePass.2 "a b".toList .comment 0 Issue.ofBraces hrule]
  decide

end CodeProse

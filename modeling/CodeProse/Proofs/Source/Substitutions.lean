/-
# Expressions in braces

Code in braces is skipped in two ways. In and between tags the scanner reads it as code, up to the
brace that closes it (`readContainer`). In a template it counts braces, and counts those of strings
and comments with them.

What a template skips is known for every expression (`skipsExpression_iff`): the text behind the
closing brace is read as the next literal fragment just if the braces of the expression are balanced,
or if it falls apart into such expressions with nothing but a closing brace and the opening of a
substitution between them. Where each string, comment and inner template that the scanner reads in
the expression has balanced braces of its own, both ways agree (`isBalanced_of_readContainer`, by
induction over the steps of the scanner). Else they need not: a brace in quotes ends the substitution
(`not_skipsExpression_of_quoted_brace`).
-/
import CodeProse.Proofs.Source.RoundTrip

namespace CodeProse.Source

variable {hasElements : Bool} {frames frames' : List Frame} {m : Memory} {c : Char}

/-! ## What a step does to the frames -/

/-- Whether the scanner counts the character as a brace: one that opens, as nothing else starts with
it, or one that closes in code. -/
def CountsBrace (c : Char) (frames : List Frame) : Prop :=
  c = '{' ∨ c = '}' ∧ ∃ depth, frames.head? = some (.container depth)

/-- In and between tags only an open brace is counted. -/
theorem not_countsBrace {f : Frame} (hopen : c ≠ '{') (hf : ∀ depth, f ≠ .container depth) :
    ¬ CountsBrace c (f :: frames) := by
  rintro (hc | ⟨-, depth, hdepth⟩)
  · exact hopen hc
  · exact hf depth (Option.some.inj hdepth)

/-- How a step at the character `c`, which takes `extra` more characters, changes what the scanner is
inside of. -/
inductive Moves (c : Char) : Nat → List Frame → List Frame → Prop
  | stay (extra : Nat) {frames : List Frame} (h : ¬ CountsBrace c frames) :
    Moves c extra frames frames
  | openTag (extra : Nat) {frames : List Frame} (h : ¬ CountsBrace c frames) :
    Moves c extra frames (.tag :: frames)
  | endTag (extra : Nat) (frames : List Frame) (h : c ≠ '{') :
    Moves c extra (.tag :: frames) (.children :: frames)
  | closeTag (extra : Nat) (frames : List Frame) (h : c ≠ '{') :
    Moves c extra (.tag :: frames) frames
  | closeElement (extra : Nat) (frames : List Frame) (h : c ≠ '{') :
    Moves c extra (.children :: frames) frames
  | openContainer (frames : List Frame) (h : c = '{') : Moves c 0 frames (.container 0 :: frames)
  | openBrace (depth : Nat) (frames : List Frame) (h : c = '{') :
    Moves c 0 (.container depth :: frames) (.container (depth + 1) :: frames)
  | closeBrace (depth : Nat) (frames : List Frame) (h : c = '}') :
    Moves c 0 (.container (depth + 1) :: frames) (.container depth :: frames)
  | closeContainer (frames : List Frame) (h : c = '}') : Moves c 0 (.container 0 :: frames) frames

theorem moves_codeChar (depth : Nat) (frames : List Frame) (m : Memory) {c : Char}
    (hclose : ¬ (c = '}' ∧ depth = 0)) :
    Moves c (codeChar (.container depth :: frames) m c).extra (.container depth :: frames)
      (codeChar (.container depth :: frames) m c).frames := by
  rw [codeChar]
  split
  case isTrue hspace =>
    refine .stay 0 ?_
    rintro (rfl | ⟨rfl, -⟩) <;> exact absurd hspace (by decide)
  case isFalse =>
    simp only [countBrace]
    split
    case isTrue hopen => exact .openBrace depth frames hopen
    case isFalse hopen =>
      split
      case isTrue hbrace =>
        obtain ⟨depth, rfl⟩ := Nat.exists_eq_succ_of_ne_zero fun h => hclose ⟨hbrace, h⟩
        exact .closeBrace depth frames hbrace
      case isFalse hbrace =>
        exact .stay 0 fun h => h.elim hopen fun h => hbrace h.1

theorem moves_codeStep (hasElements : Bool) (depth : Nat) (frames : List Frame) (m : Memory)
    (offset : Nat) (c : Char) (t : Text) :
    Moves c (codeStep hasElements (.container depth :: frames) m offset c t).extra
      (.container depth :: frames)
      (codeStep hasElements (.container depth :: frames) m offset c t).frames := by
  have hother : c ≠ '{' → c ≠ '}' → ¬ CountsBrace c (.container depth :: frames) :=
    fun hopen hclose h => h.elim hopen fun h => hclose h.1
  rw [codeStep]
  split
  case isTrue h => exact .stay _ (hother (by rw [h.1]; decide) (by rw [h.1]; decide))
  case isFalse =>
  split
  case isTrue h =>
    rw [blockComment_frames]
    exact .stay _ (hother (by rw [h.1]; decide) (by rw [h.1]; decide))
  case isFalse =>
  split
  case isTrue h =>
    refine .stay _ (hother ?_ ?_) <;> rcases h with rfl | rfl <;> decide
  case isFalse =>
  split
  case isTrue h => exact .stay _ (hother (by rw [h]; decide) (by rw [h]; decide))
  case isFalse =>
  split
  case isTrue h => refine .stay _ (hother ?_ ?_) <;> rintro rfl <;> exact absurd h (by decide)
  case isFalse =>
  split
  case isTrue h => refine .stay _ (hother ?_ ?_) <;> rintro rfl <;> exact absurd h (by decide)
  case isFalse =>
  split
  case isTrue h => exact .openTag _ (hother (by rw [h.1]; decide) (by rw [h.1]; decide))
  case isFalse =>
  split
  case isTrue h =>
    obtain rfl : depth = 0 := by simpa using h.2
    exact .closeContainer frames h.1
  case isFalse h =>
    exact moves_codeChar depth frames m fun hc => h ⟨hc.1, by rw [hc.2]; rfl⟩

theorem moves_tagStep (frames : List Frame) (m : Memory) (offset : Nat) (c : Char) (t : Text) :
    Moves c (tagStep (.tag :: frames) m offset c t).extra (.tag :: frames)
      (tagStep (.tag :: frames) m offset c t).frames := by
  have hother (hopen : c ≠ '{') : ¬ CountsBrace c (.tag :: frames) :=
    not_countsBrace hopen (by simp)
  rw [tagStep]
  split
  case isTrue h => exact .stay _ (hother (by rcases h with rfl | rfl <;> decide))
  case isFalse =>
  split
  case isTrue h => exact .openContainer _ h
  case isFalse hopen =>
  split
  case isTrue => exact .closeTag _ frames hopen
  case isFalse =>
  split
  case isTrue => exact .endTag _ frames hopen
  case isFalse => exact .stay _ (hother hopen)

theorem moves_childStep (frames : List Frame) (m : Memory) (offset : Nat) (c : Char) (t : Text) :
    Moves c (childStep (.children :: frames) m offset c t).extra (.children :: frames)
      (childStep (.children :: frames) m offset c t).frames := by
  have hother (hopen : c ≠ '{') : ¬ CountsBrace c (.children :: frames) :=
    not_countsBrace hopen (by simp)
  rw [childStep]
  split
  case isTrue h => exact .openContainer _ h
  case isFalse hopen =>
  split
  case isTrue h =>
    split
    · exact .closeElement _ frames hopen
    · exact .openTag _ (hother hopen)
  case isFalse => exact .stay _ (hother hopen)

/-- **What a step inside of something does to the frames.** -/
theorem moves_step (hasElements : Bool) (hframes : frames ≠ []) (m : Memory) (offset : Nat)
    (c : Char) (t : Text) :
    Moves c (step hasElements frames m offset c t).extra frames
      (step hasElements frames m offset c t).frames := by
  cases frames with
  | nil => exact absurd rfl hframes
  | cons f frames =>
    cases f with
    | container depth => exact moves_codeStep hasElements depth frames m offset c t
    | tag => exact moves_tagStep frames m offset c t
    | children => exact moves_childStep frames m offset c t

/-- What the scanner is inside of further out does not matter to a step. -/
theorem step_append (hasElements : Bool) (hframes : frames ≠ []) (outer : List Frame) (m : Memory)
    (offset : Nat) (c : Char) (t : Text) :
    step hasElements (frames ++ outer) m offset c t
      = { step hasElements frames m offset c t with
          frames := (step hasElements frames m offset c t).frames ++ outer } := by
  cases frames with
  | nil => exact absurd rfl hframes
  | cons f frames =>
    cases f with
    | container depth =>
      show codeStep hasElements _ m offset c t = _
      simp only [step, List.head?_cons, List.cons_append]
      rw [codeStep, codeStep]
      split
      case isTrue => rfl
      split
      case isTrue =>
        rw [blockComment_frames, blockComment_frames (.container depth :: frames)]
        rfl
      iterate 5 (split; case isTrue => rfl)
      by_cases hclose : c = '}' ∧ depth = 0
      · obtain ⟨rfl, rfl⟩ := hclose
        rw [if_pos ⟨rfl, rfl⟩, if_pos ⟨rfl, rfl⟩]
        rfl
      · have hhead (inner : List Frame) :
            ¬ (c = '}' ∧ (Frame.container depth :: inner).head? = some (.container 0)) :=
          fun h => hclose ⟨h.1, by simpa using h.2⟩
        rw [if_neg (hhead _), if_neg (hhead _), codeChar, codeChar]
        split
        · rfl
        · simp only [countBrace]
          repeat' split
          all_goals rfl
    | tag =>
      show tagStep _ m offset c t = _
      simp only [step, List.head?_cons, List.cons_append]
      rw [tagStep, tagStep]
      repeat' split
      all_goals rfl
    | children =>
      show childStep _ m offset c t = _
      simp only [step, List.head?_cons, List.cons_append]
      rw [childStep, childStep]
      repeat' split
      all_goals rfl

/-! ## Containers -/

/-- A piece of code that one step of the scanner reads. -/
structure Piece where
  /-- What the scanner is inside of. -/
  inside : Option Frame
  text : Text
  deriving DecidableEq, Repr, Inhabited

/-- Whether the piece is a brace that the scanner counts. -/
def Piece.IsBrace (p : Piece) : Prop :=
  p.text = ['{'] ∨ p.text = ['}'] ∧ ∃ depth, p.inside = some (.container depth)

/-- What the scanner reads in a container up to the brace that closes it, and what follows that
brace; `none` if nothing closes the container. -/
def readContainer (hasElements : Bool) (frames : List Frame) (m : Memory) (offset : Nat) :
    Text → List Piece × Option Text
  | [] => ([], none)
  | c :: t =>
    if c = '}' ∧ frames = [.container 0] then ([], some t)
    else
      let s := step hasElements frames m offset c t
      let r := readContainer hasElements s.frames s.memory
        (offset + c.utf8Size + (Text.byteLength (t.take s.extra))) (t.drop s.extra)
      (⟨frames.head?, c :: t.take s.extra⟩ :: r.1, r.2)
termination_by t => t.length
decreasing_by simp only [List.length_drop, List.length_cons]; omega

/-- Whether the scanner is inside of a container. -/
def InContainer (frames : List Frame) : Prop :=
  ∃ inner depth, frames = inner ++ [.container depth]

theorem InContainer.ne_nil (h : InContainer frames) : frames ≠ [] := by
  obtain ⟨inner, depth, rfl⟩ := h
  simp

theorem InContainer.cons (h : InContainer frames) (f : Frame) : InContainer (f :: frames) := by
  obtain ⟨inner, depth, rfl⟩ := h
  exact ⟨f :: inner, depth, rfl⟩

/-- A frame in a container is the container or lies further in. -/
theorem InContainer.of_cons {f : Frame} (h : InContainer (f :: frames)) :
    (∃ depth, f = .container depth ∧ frames = []) ∨ InContainer frames := by
  obtain ⟨inner, depth, heq⟩ := h
  cases inner with
  | nil =>
    obtain ⟨rfl, rfl⟩ := List.cons.inj heq
    exact .inl ⟨depth, rfl, rfl⟩
  | cons g inner =>
    obtain ⟨rfl, rfl⟩ := List.cons.inj heq
    exact .inr ⟨inner, depth, rfl⟩

/-- Only the brace that closes the container leads out of it. -/
theorem InContainer.moves {extra : Nat} (h : InContainer frames)
    (hclose : ¬ (c = '}' ∧ frames = [.container 0])) (hmoves : Moves c extra frames frames') :
    InContainer frames' := by
  cases hmoves with
  | stay => exact h
  | openTag => exact h.cons _
  | endTag frames =>
    rcases h.of_cons with ⟨depth, hf, -⟩ | h
    · cases hf
    · exact h.cons _
  | closeTag =>
    rcases h.of_cons with ⟨depth, hf, -⟩ | h
    · cases hf
    · exact h
  | closeElement =>
    rcases h.of_cons with ⟨depth, hf, -⟩ | h
    · cases hf
    · exact h
  | openContainer => exact h.cons _
  | openBrace depth frames =>
    rcases h.of_cons with ⟨-, -, rfl⟩ | h
    · exact ⟨[], depth + 1, rfl⟩
    · exact h.cons _
  | closeBrace depth frames =>
    rcases h.of_cons with ⟨-, -, rfl⟩ | h
    · exact ⟨[], depth, rfl⟩
    · exact h.cons _
  | closeContainer _ hc =>
    rcases h.of_cons with ⟨-, -, rfl⟩ | h
    · exact absurd ⟨hc, rfl⟩ hclose
    · exact h

/-- **Containers are read so in a file**: behind the brace that closes a container, the scan goes on
in what the container is in. -/
theorem nodesFrom_readContainer (hasElements : Bool) (h : InContainer frames) (outer : List Frame)
    (m : Memory) (offset : Nat) (t : Text) {rest : Text}
    (hread : (readContainer hasElements frames m offset t).2 = some rest) :
    ∃ ns m', nodesFrom hasElements (frames ++ outer) m offset t
        = ns ++ nodesFrom hasElements outer m'
          (offset + Text.byteLength t - Text.byteLength rest) rest ∧
      t = (readContainer hasElements frames m offset t).1.flatMap (·.text) ++ '}' :: rest := by
  -- by induction on the length: a step takes one piece
  induction hlength : t.length using Nat.strongRecOn generalizing frames m offset t with
  | ind k ih =>
    cases t with
    | nil =>
      rw [readContainer] at hread
      cases hread
    | cons c t =>
      rw [readContainer] at hread ⊢
      by_cases hclose : c = '}' ∧ frames = [.container 0]
      · rw [if_pos hclose] at hread ⊢
        obtain rfl : t = rest := Option.some.inj hread
        obtain ⟨rfl, rfl⟩ := hclose
        refine ⟨[], { m with last := some '}' }, ?_, rfl⟩
        have hstep : step hasElements ([.container 0] ++ outer) m offset '}' t
            = ⟨[], outer, { m with last := some '}' }, 0⟩ := by
          show codeStep hasElements _ m offset '}' t = _
          rw [codeStep_plain (by simp) (by decide) (by decide), if_neg (by decide),
            if_neg (by decide), if_neg (by simp), if_pos ⟨rfl, rfl⟩]
          rfl
        have hoffset : offset + Text.byteLength ('}' :: t) - Text.byteLength t
            = offset + '}'.utf8Size := by
          rw [Text.byteLength_cons]
          omega
        rw [nodesFrom, hstep, hoffset]
        simp
      · rw [if_neg hclose] at hread ⊢
        have hmoves := moves_step hasElements h.ne_nil m offset c t
        have hless : (t.drop (step hasElements frames m offset c t).extra).length < k := by
          rw [← hlength, List.length_drop, List.length_cons]
          omega
        obtain ⟨ns, m', hnodes, htext⟩ := ih _ hless (h.moves hclose hmoves) _ _ _ hread rfl
        refine ⟨(step hasElements frames m offset c t).nodes ++ ns, m', ?_, ?_⟩
        · have hoffset (k : Nat) : offset + c.utf8Size + Text.byteLength (t.take k)
              + Text.byteLength (t.drop k) = offset + Text.byteLength (c :: t) := by
            rw [Text.byteLength_cons, Nat.add_assoc, ← Text.byteLength_append,
              List.take_append_drop, Nat.add_assoc]
          rw [nodesFrom, step_append hasElements h.ne_nil]
          simp only
          rw [hnodes, hoffset, List.append_assoc]
        · simp only [List.flatMap_cons, List.append_assoc, List.cons_append]
          rw [← htext, List.take_append_drop]

/-- Whether code in braces ends just where the expression does, if a brace follows that. -/
def Encloses (hasElements : Bool) (m : Memory) (e : Text) : Prop :=
  (readContainer hasElements [.container 0] m 0 (e ++ ['}'])).2 = some []

/-- The pieces that are read of an expression in braces. -/
def pieces (hasElements : Bool) (m : Memory) (e : Text) : List Piece :=
  (readContainer hasElements [.container 0] m 0 (e ++ ['}'])).1

/-! ## Substitutions -/

/-- A text without escapes, dollar signs and backticks. -/
def IsPlain (t : Text) : Prop :=
  '`' ∉ t ∧ '\\' ∉ t ∧ '$' ∉ t

theorem IsPlain.isFragment {t : Text} (h : IsPlain t) : IsFragment t := by
  induction t with
  | nil => exact .nil
  | cons c t ih =>
    obtain ⟨htick, hescape, hdollar⟩ := h
    rw [List.mem_cons, not_or] at htick hescape hdollar
    exact .char (Ne.symm htick.1) (Ne.symm hescape.1) (fun h => hdollar.1 h.1.symm)
      (ih ⟨htick.2, hescape.2, hdollar.2⟩)

/-- Whether a template skips the expression in a substitution: what comes behind its closing brace is
the next literal fragment, and nothing of the expression is one. -/
def SkipsExpression (e : Text) : Prop :=
  ∀ (fragment : Text) (later : List TemplatePart) (f rest : Text), IsFragment fragment →
    IsPlain f → ∀ (frames : List Frame) (m : Memory) (offset : Nat),
      (template frames m offset
          (templateBody fragment later ++ '$' :: '{' :: (e ++ '}' :: (f ++ '`' :: rest)))).nodes
        = templateNodes (offset + 1) fragment later
          ++ fragmentNode (offset + 1 + (templateBody fragment later).byteLength + 2
            + e.byteLength + 1) f

/-- Whether a text is an expression with balanced braces, or falls apart into such expressions with
nothing but a closing brace and the opening of a substitution between them. -/
inductive IsSubstitutions : Text → Prop
  | last {e : Text} (h : IsBalanced 0 e) : IsSubstitutions e
  | more {e later : Text} (h : IsBalanced 0 e) (hlater : IsSubstitutions later) :
    IsSubstitutions (e ++ '}' :: '$' :: '{' :: later)

/-! ### What is skipped -/

theorem byteLength_opening (t : Text) : Text.byteLength ('$' :: '{' :: t) = 2 + t.byteLength := by
  rw [Text.byteLength_cons, Text.byteLength_cons, ← Nat.add_assoc]
  rfl

theorem byteLength_closing (t : Text) : Text.byteLength ('}' :: t) = 1 + t.byteLength := by
  rw [Text.byteLength_cons]
  rfl

theorem templateBody_append (fragment : Text) (later : List TemplatePart) (p : TemplatePart) :
    templateBody fragment (later ++ [p])
      = templateBody fragment later ++ '$' :: '{' :: (p.code ++ '}' :: p.fragment) := by
  induction later generalizing fragment with
  | nil => simp [templateBody]
  | cons q later ih => simp [templateBody, ih]

theorem templateNodes_append (offset : Nat) (fragment : Text) (later : List TemplatePart)
    (p : TemplatePart) :
    templateNodes offset fragment (later ++ [p])
      = templateNodes offset fragment later
        ++ fragmentNode (offset + (templateBody fragment later).byteLength + 2
          + p.code.byteLength + 1) p.fragment := by
  induction later generalizing offset fragment with
  | nil => rfl
  | cons q later ih =>
    have hoffset : (templateBody fragment (q :: later)).byteLength
        = fragment.byteLength + 2 + q.code.byteLength + 1
          + (templateBody q.fragment later).byteLength := by
      simp only [templateBody, Text.byteLength_append, byteLength_opening, byteLength_closing,
        Text.byteLength_nil]
      omega
    rw [List.cons_append, templateNodes, ih, templateNodes, List.append_assoc, hoffset]
    simp only [Nat.add_assoc]

/-- Expressions with balanced braces are skipped. -/
theorem skipsExpression_of_isSubstitutions {e : Text} (h : IsSubstitutions e) :
    SkipsExpression e := by
  induction h with
  | @last e h =>
    intro fragment later f rest hfragment hf frames m offset
    obtain ⟨-, -, hnodes⟩ := templateScan_of_isFragment hfragment
      (later ++ [⟨e, h, f, hf.isFragment⟩]) (offset + 1) rest
    rw [templateBody_append, templateNodes_append] at hnodes
    simp only [List.append_assoc, List.cons_append] at hnodes
    exact hnodes
  | @more e e' h _ ih =>
    intro fragment later f rest hfragment hf frames m offset
    have hnext := ih fragment (later ++ [⟨e, h, [], .nil⟩]) f rest hfragment hf frames m offset
    have hempty (start : Nat) : fragmentNode start [] = [] := rfl
    have hoffset : offset + 1 + (templateBody fragment (later ++ [⟨e, h, [], .nil⟩])).byteLength + 2
          + e'.byteLength + 1
        = offset + 1 + (templateBody fragment later).byteLength + 2
          + (e ++ '}' :: '$' :: '{' :: e').byteLength + 1 := by
      simp only [templateBody_append, Text.byteLength_append, byteLength_opening, byteLength_closing,
        Text.byteLength_nil]
      omega
    rw [hoffset, templateBody_append, templateNodes_append, hempty, List.append_nil] at hnext
    simp only [List.append_assoc, List.cons_append, List.nil_append] at hnext ⊢
    exact hnext

/-! ### What is not skipped -/

/-- A substitution ends at the brace behind its expression, at one in it, or not at all. -/
theorem substitutionBody_cases (depth : Nat) (e : Text) {more : Text} (hmore : '}' ∉ more) :
    IsBalanced depth e ∨
      (∃ e₁ e₂, e = e₁ ++ '}' :: e₂ ∧ IsBalanced depth e₁) ∨
      (substitutionBody depth (e ++ '}' :: more)).2 = [] := by
  have hnever : ∀ depth, (substitutionBody depth more).2 = [] := by
    induction more with
    | nil => exact fun _ => rfl
    | cons c more ih =>
      intro depth
      rw [List.mem_cons, not_or] at hmore
      rw [substitutionBody, if_neg fun h => hmore.1 h.1.symm]
      exact ih hmore.2 _
  induction e generalizing depth with
  | nil =>
    cases depth with
    | zero => exact .inl rfl
    | succ depth =>
      refine .inr (.inr ?_)
      rw [List.nil_append, substitutionBody, if_neg (by simp)]
      exact hnever _
  | cons c e ih =>
    by_cases hstop : c = '}' ∧ depth = 0
    · obtain ⟨rfl, rfl⟩ := hstop
      exact .inr (.inl ⟨[], e, rfl, rfl⟩)
    · let next := if c = '{' then depth + 1 else if c = '}' then depth - 1 else depth
      have hcons : ∀ t, IsBalanced next t → IsBalanced depth (c :: t) := by
        intro t ht
        rw [IsBalanced]
        by_cases hopen : c = '{'
        · simpa [next, hopen] using ht
        · by_cases hclose : c = '}'
          · have hpos : 0 < depth := Nat.pos_of_ne_zero fun h => hstop ⟨hclose, h⟩
            simpa [next, hopen, hclose, hpos] using ht
          · simpa [next, hopen, hclose] using ht
      rcases ih next with h | ⟨e₁, e₂, rfl, h⟩ | h
      · exact .inl (hcons e h)
      · exact .inr (.inl ⟨c :: e₁, e₂, rfl, hcons e₁ h⟩)
      · refine .inr (.inr ?_)
        rw [List.cons_append, substitutionBody, if_neg hstop]
        exact h

/-- A literal fragment that starts before the one node there is holds no text. -/
theorem eq_nil_of_fragmentNode {start start' : Nat} {f f' : Text} {ns : List Node}
    (h : fragmentNode start f ++ ns = fragmentNode start' f') (hne : start ≠ start') : f = [] := by
  cases f with
  | nil => rfl
  | cons c f =>
    rw [fragmentNode, fragmentNode, Node.ifAny, Node.ifAny, if_neg (by simp)] at h
    split at h
    · cases h
    · exact absurd (congrArg Node.start (List.cons.inj h).1) hne

/-- What opens a substitution in front of a brace does so on its own. -/
theorem exists_of_opens {e more t : Text} (h : e ++ '}' :: more = '$' :: '{' :: t) :
    ∃ e', e = '$' :: '{' :: e' ∧ t = e' ++ '}' :: more := by
  match e, h with
  | [], h => exact absurd (List.cons.inj h).1 (by decide)
  | [_], h => exact absurd (List.cons.inj (List.cons.inj h).2).1 (by decide)
  | x :: y :: e', h =>
    simp only [List.cons_append, List.cons.injEq] at h
    obtain ⟨rfl, rfl, rfl⟩ := h
    exact ⟨e', rfl, rfl⟩

/-- If only the text behind a substitution is read as a literal fragment, the expression in it is one
of those that are skipped. -/
theorem isSubstitutions_of_templateScan (e : Text) (offset : Nat)
    (h : let skip := substitutionBody 0 (e ++ '}' :: ['F', '`'])
      fragmentNodes (templateScan (offset + skip.1.byteLength) skip.2).fragments
        = fragmentNode (offset + e.byteLength + 1) ['F']) : IsSubstitutions e := by
  -- by induction on the length: if it ends in the expression, another one starts there
  induction hlength : e.length using Nat.strongRecOn generalizing e offset with
  | ind k ih =>
    simp only at h
    have hmore : '}' ∉ ['F', '`'] := by decide
    rcases substitutionBody_cases 0 e hmore with he | ⟨e₁, e₂, rfl, he⟩ | hend
    case inl => exact .last he
    case inr.inr =>
      rw [hend] at h
      cases h
    rw [List.append_assoc, List.cons_append, substitutionBody_of_isBalanced _ he] at h
    have hplace : offset + Text.byteLength (e₁ ++ ['}'])
        ≠ offset + Text.byteLength (e₁ ++ '}' :: e₂) + 1 := by
      simp only [Text.byteLength_append, byteLength_closing, Text.byteLength_nil]
      omega
    rcases template_cases (e₂ ++ '}' :: ['F', '`'])
      with hbody | ⟨b, rest, ht, hbody⟩ | ⟨b, skipped, tail, ht, hbody, hskip⟩
    · obtain ⟨-, -, hnodes⟩ := templateScan_of_end (offset + Text.byteLength (e₁ ++ ['}'])) hbody
      rw [hnodes, ← List.append_nil (fragmentNode _ _)] at h
      exact absurd (eq_nil_of_fragmentNode h hplace) (by simp)
    · obtain ⟨-, -, hnodes⟩ :=
        templateScan_of_backtick (offset + Text.byteLength (e₁ ++ ['}'])) hbody
      rw [ht, hnodes, ← List.append_nil (fragmentNode _ _)] at h
      rw [eq_nil_of_fragmentNode h hplace] at h
      cases h
    · obtain ⟨-, -, hnodes⟩ :=
        templateScan_of_substitution (offset + Text.byteLength (e₁ ++ ['}'])) hbody hskip
      rw [ht, hnodes] at h
      obtain rfl : b = [] := eq_nil_of_fragmentNode h hplace
      -- the expression goes on with the opening of another substitution
      obtain ⟨e₃, rfl, hrest⟩ := exists_of_opens (t := skipped ++ tail) ht
      refine .more he (ih e₃.length ?_ e₃ (offset + Text.byteLength (e₁ ++ ['}']) + 2) ?_ rfl)
      · rw [← hlength]
        simp only [List.length_append, List.length_cons]
        omega
      · rw [← hrest, hskip]
        have hstart : offset + Text.byteLength (e₁ ++ ['}']) + 2 + Text.byteLength skipped
            = offset + Text.byteLength (e₁ ++ ['}'])
              + Text.byteLength ([] ++ '$' :: '{' :: skipped) := by
          simp only [List.nil_append, byteLength_opening, Nat.add_assoc]
        have hfragment : offset + Text.byteLength (e₁ ++ ['}']) + 2 + Text.byteLength e₃ + 1
            = offset + Text.byteLength (e₁ ++ '}' :: '$' :: '{' :: e₃) + 1 := by
          simp only [Text.byteLength_append, byteLength_opening, byteLength_closing,
            Text.byteLength_nil]
          omega
        show fragmentNodes (templateScan
          (offset + Text.byteLength (e₁ ++ ['}']) + 2 + Text.byteLength skipped) tail).fragments = _
        rw [hstart, hfragment, ← h]
        rfl

/-- Nothing else is skipped. -/
theorem isSubstitutions_of_skipsExpression {e : Text} (h : SkipsExpression e) :
    IsSubstitutions e := by
  have hplain : IsPlain ['F'] := ⟨by decide, by decide, by decide⟩
  have hnodes : fragmentNodes (templateScan 1 ('$' :: '{' :: (e ++ '}' :: ['F', '`']))).fragments
      = fragmentNode (1 + 0 + 2 + e.byteLength + 1) ['F'] :=
    h [] [] ['F'] [] .nil hplain [] {} 0
  obtain ⟨skipped, tail, hskip⟩ : ∃ skipped tail,
      substitutionBody 0 (e ++ '}' :: ['F', '`']) = (skipped, tail) := ⟨_, _, rfl⟩
  have htext := substitutionBody_append 0 (e ++ '}' :: ['F', '`'])
  rw [hskip] at htext
  have hbody : fragmentBody ([] ++ '$' :: '{' :: skipped ++ tail)
      = ([], '$' :: '{' :: (skipped ++ tail)) := ClosesFragment.fragmentBody_eq (.inr ⟨_, rfl⟩)
  obtain ⟨-, -, hscan⟩ := templateScan_of_substitution 1 hbody (by rw [htext, hskip])
  refine isSubstitutions_of_templateScan e 3 ?_
  have hstart : 1 + Text.byteLength ([] ++ '$' :: '{' :: skipped) = 3 + skipped.byteLength := by
    rw [List.nil_append, byteLength_opening, ← Nat.add_assoc]
  rw [← htext] at hnodes
  rw [hskip]
  show fragmentNodes (templateScan (3 + skipped.byteLength) tail).fragments = _
  rw [← hstart]
  exact hscan.symm.trans hnodes

/-! ## Braces that are counted -/

/-- How many braces are open in a container, those of the containers in it included. -/
def openBraces : List Frame → Nat
  | [] => 0
  | [.container depth] => depth
  | .container depth :: frames => depth + 1 + openBraces frames
  | _ :: frames => openBraces frames

theorem openBraces_container (depth : Nat) (hframes : frames ≠ []) :
    openBraces (.container depth :: frames) = depth + 1 + openBraces frames := by
  cases frames with
  | nil => exact absurd rfl hframes
  | cons f frames => rfl

theorem openBraces_succ (depth : Nat) (frames : List Frame) :
    openBraces (.container (depth + 1) :: frames) = openBraces (.container depth :: frames) + 1 := by
  cases frames with
  | nil => rfl
  | cons f frames =>
    rw [openBraces_container _ (by simp), openBraces_container _ (by simp)]
    omega

/-- A text with balanced braces does not change how many are open. -/
theorem IsBalanced.append {depth depth' : Nat} {t t' : Text} (h : IsBalanced depth t)
    (h' : IsBalanced depth' t') : IsBalanced (depth + depth') (t ++ t') := by
  induction t generalizing depth with
  | nil =>
    obtain rfl : depth = 0 := h
    rwa [Nat.zero_add]
  | cons c t ih =>
    rw [List.cons_append]
    rw [IsBalanced] at h ⊢
    split at h
    case isTrue hopen =>
      rw [if_pos hopen]
      have := ih h
      rwa [Nat.add_right_comm] at this
    case isFalse hopen =>
      rw [if_neg hopen]
      split at h
      case isTrue hclose =>
        rw [if_pos hclose]
        refine ⟨Nat.add_pos_left h.1 _, ?_⟩
        have := ih h.2
        rwa [← Nat.sub_add_comm h.1] at this
      case isFalse hclose =>
        rw [if_neg hclose]
        exact ih h

theorem isBalanced_open {depth : Nat} {t : Text} (h : IsBalanced (depth + 1) t) :
    IsBalanced depth ('{' :: t) := by
  rwa [IsBalanced, if_pos rfl]

theorem isBalanced_close {depth : Nat} {t : Text} (h : IsBalanced depth t) :
    IsBalanced (depth + 1) ('}' :: t) := by
  rw [IsBalanced, if_neg (by decide), if_pos rfl]
  exact ⟨Nat.succ_pos depth, h⟩

theorem Piece.IsBrace.countsBrace {body : Text}
    (h : Piece.IsBrace ⟨frames.head?, c :: body⟩) : CountsBrace c frames := by
  rcases h with h | ⟨h, hinside⟩
  · exact .inl (List.cons.inj h).1
  · exact .inr ⟨(List.cons.inj h).1, hinside⟩

/-- **A step counts the braces of the piece that it reads**, if the piece is a brace that is counted or
has balanced braces. -/
theorem isBalanced_of_moves {extra : Nat} {body t : Text} (h : InContainer frames)
    (h' : InContainer frames') (hmoves : Moves c extra frames frames') (hbody : body.length = extra)
    (hpiece : Piece.IsBrace ⟨frames.head?, c :: body⟩ ∨ IsBalanced 0 (c :: body))
    (ht : IsBalanced (openBraces frames') t) : IsBalanced (openBraces frames) (c :: body ++ t) := by
  -- a piece that is not counted leaves the number as it is
  have hsame (hcount : ¬ CountsBrace c frames) (heq : openBraces frames' = openBraces frames) :
      IsBalanced (openBraces frames) (c :: body ++ t) := by
    have happend := (hpiece.resolve_left fun hp => hcount hp.countsBrace).append ht
    rwa [Nat.zero_add, heq] at happend
  cases hmoves with
  | stay _ hcount => exact hsame hcount rfl
  | openTag _ hcount => exact hsame hcount rfl
  | endTag _ frames hc => exact hsame (not_countsBrace hc (by simp)) rfl
  | closeTag _ _ hc => exact hsame (not_countsBrace hc (by simp)) rfl
  | closeElement _ _ hc => exact hsame (not_countsBrace hc (by simp)) rfl
  | openContainer _ hc =>
    obtain rfl := List.eq_nil_of_length_eq_zero hbody
    subst hc
    rw [openBraces_container _ h.ne_nil, Nat.zero_add, Nat.add_comm] at ht
    exact isBalanced_open ht
  | openBrace depth frames hc =>
    obtain rfl := List.eq_nil_of_length_eq_zero hbody
    subst hc
    rw [openBraces_succ] at ht
    exact isBalanced_open ht
  | closeBrace depth frames hc =>
    obtain rfl := List.eq_nil_of_length_eq_zero hbody
    subst hc
    rw [openBraces_succ]
    exact isBalanced_close ht
  | closeContainer _ hc =>
    obtain rfl := List.eq_nil_of_length_eq_zero hbody
    subst hc
    rw [openBraces_container _ h'.ne_nil, Nat.zero_add, Nat.add_comm]
    exact isBalanced_close ht

/-- **What the scanner encloses in braces is balanced**, if only the braces that it counts are not. -/
theorem isBalanced_of_readContainer (h : InContainer frames) (m : Memory) (offset : Nat) (e : Text)
    (hread : (readContainer hasElements frames m offset (e ++ ['}'])).2 = some [])
    (hpieces : ∀ p ∈ (readContainer hasElements frames m offset (e ++ ['}'])).1,
      p.IsBrace ∨ IsBalanced 0 p.text) : IsBalanced (openBraces frames) e := by
  -- by induction on the length: a step takes one piece
  induction hlength : e.length using Nat.strongRecOn generalizing frames m offset e with
  | ind k ih =>
    cases e with
    | nil =>
      rw [List.nil_append, readContainer] at hread
      by_cases hclose : '}' = '}' ∧ frames = [.container 0]
      · rw [hclose.2]
        rfl
      · rw [if_neg hclose] at hread
        simp only [List.drop_nil, readContainer] at hread
        cases hread
    | cons c e =>
      rw [List.cons_append, readContainer] at hread hpieces
      by_cases hclose : c = '}' ∧ frames = [.container 0]
      · rw [if_pos hclose] at hread
        simp at hread
      · rw [if_neg hclose] at hread hpieces
        have hmoves := moves_step hasElements h.ne_nil m offset c (e ++ ['}'])
        generalize step hasElements frames m offset c (e ++ ['}']) = s at hread hpieces hmoves
        -- the brace behind the expression is not part of the piece
        have hextra : s.extra ≤ e.length := by
          refine Nat.le_of_not_lt fun hlong => ?_
          have hall : (e ++ ['}']).drop s.extra = [] := by
            rw [List.drop_eq_nil_iff, List.length_append, List.length_singleton]
            omega
          simp only [hall, readContainer] at hread
          cases hread
        simp only [List.take_append_of_le_length hextra, List.drop_append_of_le_length hextra]
          at hread hpieces
        have hless : (e.drop s.extra).length < k := by
          rw [← hlength, List.length_drop, List.length_cons]
          omega
        have h' := h.moves hclose hmoves
        have hrest := ih _ hless h' _ _ _ hread
          (fun p hp => hpieces p (List.mem_cons_of_mem _ hp)) rfl
        have hpiece := hpieces _ List.mem_cons_self
        have hbalanced := isBalanced_of_moves h h' hmoves (List.length_take_of_le hextra) hpiece hrest
        rwa [List.cons_append, List.take_append_drop] at hbalanced

/-! ## Both ways -/

/-- **What a template skips.** An expression is skipped just if its braces are balanced, or if it
falls apart into such expressions as substitutions without text between them. So it is where the
scanner finds the end of the expression in code, if each piece that it reads there has balanced
braces or is a brace that it counts. -/
theorem skipsExpression_iff (e : Text) :
    (SkipsExpression e ↔ IsSubstitutions e) ∧
      ∀ (hasElements : Bool) (m : Memory), Encloses hasElements m e →
        (∀ p ∈ pieces hasElements m e, p.IsBrace ∨ IsBalanced 0 p.text) → SkipsExpression e := by
  refine ⟨⟨isSubstitutions_of_skipsExpression, skipsExpression_of_isSubstitutions⟩, ?_⟩
  intro hasElements m hencloses hpieces
  have hcontainer : InContainer [.container 0] := ⟨[], 0, rfl⟩
  exact skipsExpression_of_isSubstitutions
    (.last (isBalanced_of_readContainer hcontainer m 0 e hencloses hpieces))

/-- A brace in quotes closes a substitution, though it does not close braces in code. -/
theorem not_skipsExpression_of_quoted_brace :
    (∀ hasElements, Encloses hasElements {} ['"', '}', '"']) ∧
      ¬ SkipsExpression ['"', '}', '"'] := by
  refine ⟨by unfold Encloses; decide +kernel, fun h => ?_⟩
  have hplain : IsPlain ['F'] := ⟨by decide, by decide, by decide⟩
  have hnodes := h [] [] ['F'] [] .nil hplain [] {} 0
  exact absurd hnodes (by decide +kernel)

end CodeProse.Source

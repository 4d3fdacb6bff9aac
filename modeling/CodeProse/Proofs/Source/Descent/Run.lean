/-
# A scan by descent comes to its end

A scan by descent of any file, in any language, comes to the end of the file without a fault, and
finds the nodes that the scan with a stack finds (`exists_scan_eq`). So every slice is one of the
file, no depth falls below zero, every turn leads further, and the functions call one another on less
and less of the file.

The stack holds what the functions have been called for. A function that is called with the frames
`outer` below its own reads on until the scan with a stack is back at `outer`; what both have found
by then, and remember, is the same (`CodeReads`, `TagReads`, `ChildrenReads`). This is shown of each
function for one turn, if all of them do so further on in the file, and from that by induction on
what is left of the file.
-/
import CodeProse.Proofs.Source.Descent.Readers
import CodeProse.Proofs.Source.Respelling

namespace CodeProse.Source.Descent

variable {content t : Text} {s : State} {hasElements nested : Bool} {depth : Nat} {c : Char}

/-! ## Both scans at one place -/

/-- The nodes found so far and those that the scan with a stack finds from here on. -/
def State.all (hasElements : Bool) (frames : List Frame) (s : State) (t : Text) : List Node :=
  s.nodes ++ nodesFrom hasElements frames s.memory s.pos t

theorem all_nil (frames : List Frame) : s.all hasElements frames [] = s.nodes := by
  rw [State.all, nodesFrom, List.append_nil]

/-- A step of the scan with a stack leads to the state after it. -/
theorem all_step {frames : List Frame} {r : Step}
    (hstep : step hasElements frames s.memory s.pos c t = r) :
    s.all hasElements frames (c :: t)
      = (s.after c t r).all hasElements r.frames (t.drop r.extra) := by
  rw [State.all, nodesFrom, hstep, State.all, State.after]
  exact (List.append_assoc _ _ _).symm

theorem At.after (h : At content s.pos (c :: t)) (r : Step) :
    At content (s.after c t r).pos (t.drop r.extra) := by
  have hsplit : At content (s.pos + c.utf8Size) (t.take r.extra ++ t.drop r.extra) := by
    rw [List.take_append_drop]
    exact h.cons
  exact hsplit.append

theorem lt_after (s : State) (c : Char) (t : Text) (r : Step) : s.pos < (s.after c t r).pos := by
  have := c.utf8Size_pos
  rw [State.after]
  simp only
  omega

theorem At.advances {next : State} (h : At content next.pos t) (hlt : s.pos < next.pos) :
    Advances content s next := by
  refine ⟨hlt, ?_⟩
  rw [← h.pos_add]
  exact Nat.le_add_right _ _

/-- The frames of code: a container if it is nested, and none if it is the file itself. -/
def inside (nested : Bool) (depth : Nat) (outer : List Frame) : List Frame :=
  if nested then .container depth :: outer else []

theorem step_inside (nested : Bool) (depth : Nat) (outer : List Frame) (m : Memory) (offset : Nat)
    (c : Char) (t : Text) :
    step hasElements (inside nested depth outer) m offset c t
      = codeStep hasElements (inside nested depth outer) m offset c t := by
  cases nested <;> rfl

/-! ## What the functions read -/

/-- Code is read up to the end of its container, or of the file. -/
def CodeReads (content : Text) (hasElements : Bool) (s : State) (t : Text) : Prop :=
  ∀ nested depth, ∃ next t', code content hasElements nested depth s = .ok next ∧
    At content next.pos t' ∧ s.pos ≤ next.pos ∧ (nested = false → t' = []) ∧
    ∀ outer, s.all hasElements (inside nested depth outer) t = next.all hasElements outer t'

/-- What is remembered behind an element. -/
def State.leave (s : State) : State :=
  { s with memory := { s.memory with word := none, last := some 'a' } }

/-- The rest of a tag is read up to its end. -/
def TagReads (content : Text) (hasElements : Bool) (s : State) (t : Text) : Prop :=
  ∃ ended next t', tagRest content hasElements s = .ok (ended, next) ∧
    At content next.pos t' ∧ s.pos ≤ next.pos ∧
    ∀ outer, s.all hasElements (.tag :: outer) t
      = if ended then next.leave.all hasElements outer t'
        else next.all hasElements (.children :: outer) t'

/-- What is between tags is read up to the end of the closing tag. -/
def ChildrenReads (content : Text) (hasElements : Bool) (s : State) (t : Text) : Prop :=
  ∃ next t', children content hasElements s = .ok next ∧
    At content next.pos t' ∧ s.pos ≤ next.pos ∧
    ∀ outer, s.all hasElements (.children :: outer) t = next.leave.all hasElements outer t'

/-- An element is read from its `<` up to its end. -/
def ElementReads (content : Text) (hasElements : Bool) (s : State) (t : Text) : Prop :=
  ∃ next t', element content hasElements s = .ok next ∧
    At content next.pos t' ∧ s.pos < next.pos ∧
    ∀ outer, s.enterTag.all hasElements (.tag :: outer) t = next.all hasElements outer t'

/-- All functions read what they should. -/
structure Reads (content : Text) (hasElements : Bool) (s : State) (t : Text) : Prop where
  code : CodeReads content hasElements s t
  tag : TagReads content hasElements s t
  children : ChildrenReads content hasElements s t

/-- All functions read what they should further on in the file. -/
def ReadsBehind (content : Text) (hasElements : Bool) (s : State) : Prop :=
  ∀ next t, At content next.pos t → s.pos < next.pos → Reads content hasElements next t

/-! ## Elements -/

theorem elementReads (h : At content s.pos ('<' :: t)) (ih : ReadsBehind content hasElements s) :
    ElementReads content hasElements s t := by
  have henter : At content s.enterTag.pos t := h.cons
  have hlt : s.pos < s.enterTag.pos := Nat.lt_succ_self _
  obtain ⟨ended, next, t', hrun, hat, hle, hall⟩ := (ih _ _ henter hlt).tag
  rw [ElementReads, element, dif_pos (henter.advances hlt), hrun, ok_bind]
  cases ended with
  | true => exact ⟨next.leave, t', rfl, hat, Nat.lt_of_lt_of_le hlt hle, hall⟩
  | false =>
    have hnext := Nat.lt_of_lt_of_le hlt hle
    obtain ⟨last, t'', hrun', hat', hle', hall'⟩ := (ih _ _ hat hnext).children
    simp only [Bool.false_eq_true, if_false, dif_pos (hat.advances hnext), hrun', ok_bind]
    exact ⟨last.leave, t'', rfl, hat', Nat.lt_of_lt_of_le hnext hle', fun outer =>
      (hall outer).trans (hall' outer)⟩

/-! ## Code -/

/-- Whether an element opens is decided as in a step of the scanner. -/
theorem opensElement_eq (h : At content s.pos (c :: t)) :
    opensElement content hasElements s c
      = .ok (decide (c = '<') && opensTag hasElements s.memory t) := by
  rw [opensElement]
  by_cases hc : c = '<'
  · subst hc
    have hnext : At content (s.pos + 1) t := h.cons
    rw [if_pos rfl, opensTag, hnext.slice_end]
    cases hasElements with
    | false => rfl
    | true =>
      cases hhead : t.head?.any fun c => Unicode.isAlphabetic c || c == '>' with
      | false => simp [hhead]
      | true => simp [hhead]
  · rw [if_neg hc]
    simp [hc]

theorem codeStep_openTag (hopen : opensTag hasElements s.memory t = true) (frames : List Frame) :
    codeStep hasElements frames s.memory s.pos '<' t = openTag frames s.memory := by
  rw [codeStep, if_neg (by simp), if_neg (by simp), if_neg (by decide), if_neg (by decide),
    if_neg (by decide), if_neg (by decide), if_pos ⟨rfl, hopen⟩]

theorem after_openTag (frames : List Frame) :
    s.after '<' t (openTag frames s.memory) = s.enterTag := by
  simp [State.after, openTag, State.enterTag, State.skip]
  rfl

/-- A turn of the code leads further as the scan with a stack goes on: in the code with `depth'`
braces open, or behind it. -/
inductive Follows (content : Text) (hasElements nested : Bool) (depth : Nat) (s : State) (t : Text) :
    Turn → Prop
  | goesOn {depth' : Nat} {next : State} {t' : Text} (hat : At content next.pos t')
    (hlt : s.pos < next.pos)
    (hall : ∀ outer, s.all hasElements (inside nested depth outer) t
      = next.all hasElements (inside nested depth' outer) t') :
    Follows content hasElements nested depth s t (.goesOn depth' next)
  | ends {next : State} {t' : Text} (hnested : nested = true) (hat : At content next.pos t')
    (hlt : s.pos < next.pos)
    (hall : ∀ outer, s.all hasElements (inside nested depth outer) t
      = next.all hasElements outer t') :
    Follows content hasElements nested depth s t (.ends next)

/-- A step that leaves the frames as they are leads further in the code. -/
theorem follows_after (h : At content s.pos (c :: t)) {r : Step}
    (hstep : ∀ outer, codeStep hasElements (inside nested depth outer) s.memory s.pos c t
      = { r with frames := inside nested depth outer }) :
    Follows content hasElements nested depth s (c :: t) (.goesOn depth (s.after c t r)) :=
  .goesOn (h.after r) (lt_after s c t r) fun outer =>
    all_step ((step_inside nested depth outer s.memory s.pos c t).trans (hstep outer))

/-- A step that takes one character and finds nothing. -/
theorem after_char (frames : List Frame) (m : Memory) :
    s.after c t ⟨[], frames, m, 0⟩ = { s.skip c.utf8Size with memory := m } := by
  simp [State.after, State.skip]

/-- A brace is counted. -/
theorem countBrace_inside (nested : Bool) (depth : Nat) (outer : List Frame) (c : Char) :
    countBrace c (inside nested depth outer)
      = inside nested (if c = '{' then depth + 1 else if c = '}' then depth - 1 else depth)
        outer := by
  cases nested with
  | false => rfl
  | true =>
    simp only [inside, if_true, countBrace]
    split
    · rfl
    · split <;> rfl

/-- The code is closed by a brace just if it is nested and no brace of its own is open. -/
theorem head?_inside_iff (nested : Bool) (depth : Nat) (outer : List Frame) :
    (inside nested depth outer).head? = some (.container 0) ↔ nested = true ∧ depth = 0 := by
  cases nested <;> simp [inside]

/-- A step that takes one character and finds nothing leads further in the code. -/
theorem follows_char (h : At content s.pos (c :: t)) {depth' : Nat} {m : Memory}
    (hstep : ∀ outer, step hasElements (inside nested depth outer) s.memory s.pos c t
      = ⟨[], inside nested depth' outer, m, 0⟩) :
    Follows content hasElements nested depth s (c :: t)
      (.goesOn depth' { s.skip c.utf8Size with memory := m }) :=
  .goesOn h.cons (Nat.lt_add_of_pos_right c.utf8Size_pos) fun outer => by
    rw [all_step (hstep outer), after_char]
    rfl

/-- A turn at a character that starts nothing. -/
theorem follows_charTurn (h : At content s.pos (c :: t))
    (hstep : ∀ outer, codeStep hasElements (inside nested depth outer) s.memory s.pos c t
      = if c = '}' ∧ (inside nested depth outer).head? = some (.container 0) then
          ⟨[], (inside nested depth outer).drop 1, { s.memory with last := some '}' }, 0⟩
        else codeChar (inside nested depth outer) s.memory c) :
    Follows content hasElements nested depth s (c :: t) (charTurn nested depth s c) := by
  rw [charTurn]
  split
  case isTrue hclose =>
    obtain ⟨rfl, rfl, rfl⟩ := hclose
    refine .ends rfl h.cons (Nat.lt_succ_self _) fun outer => ?_
    have hall := all_step ((step_inside true 0 outer s.memory s.pos '}' t).trans (hstep outer))
    rwa [if_pos ⟨rfl, (head?_inside_iff true 0 outer).2 ⟨rfl, rfl⟩⟩, after_char] at hall
  case isFalse hclose =>
    have hopen (outer : List Frame) :
        ¬ (c = '}' ∧ (inside nested depth outer).head? = some (.container 0)) := fun hc =>
      have hinside := (head?_inside_iff nested depth outer).1 hc.2
      hclose ⟨hinside.1, hc.1, hinside.2⟩
    have hchar (outer : List Frame) :=
      (@step_inside hasElements nested depth outer s.memory s.pos c t).trans
        ((hstep outer).trans (if_neg (hopen outer)))
    simp only [codeChar, countBrace_inside] at hchar
    split
    case isTrue hspace =>
      simp only [if_pos hspace] at hchar
      exact follows_char h hchar
    case isFalse hspace =>
      simp only [if_neg hspace] at hchar
      exact follows_char h hchar

/-- **A turn in code** that opens no element is a step of the scan with a stack. -/
theorem exists_codeTurn (h : At content s.pos (c :: t)) (nested : Bool) (depth : Nat)
    (hopen : ¬ (c = '<' ∧ opensTag hasElements s.memory t = true)) :
    ∃ turn, codeTurn content nested depth s c t = .ok turn ∧
      Follows content hasElements nested depth s (c :: t) turn := by
  rw [codeTurn]
  by_cases hline : c = '/' ∧ t.head? = some '/'
  · obtain ⟨rfl, ht⟩ := hline
    obtain ⟨t, rfl⟩ := List.head?_eq_some_iff.1 ht
    rw [if_pos ⟨rfl, rfl⟩, lineComment_eq h, map_ok]
    exact ⟨_, rfl, follows_after h fun outer => codeStep_lineComment _ _⟩
  by_cases hblock : c = '/' ∧ t.head? = some '*'
  · obtain ⟨rfl, ht⟩ := hblock
    obtain ⟨t, rfl⟩ := List.head?_eq_some_iff.1 ht
    rw [if_neg hline, if_pos ⟨rfl, rfl⟩, blockComment_eq h, map_ok]
    exact ⟨_, rfl, follows_after h fun outer =>
      (codeStep_blockComment _ _).trans (blockComment_frames _ _ _ _)⟩
  by_cases hquote : c = '"' ∨ c = '\''
  · rw [if_neg hline, if_neg hblock, if_pos hquote, string_eq hquote h, map_ok]
    exact ⟨_, rfl, follows_after h fun outer => codeStep_quote hquote _ _⟩
  by_cases htick : c = '`'
  · subst htick
    rw [if_neg hline, if_neg hblock, if_neg hquote, if_pos rfl, template_eq h, map_ok]
    exact ⟨_, rfl, follows_after h fun outer => codeStep_backtick _ _⟩
  rw [if_neg hline, if_neg hblock, if_neg hquote, if_neg htick]
  -- what is left are words, numbers and single characters
  have hplain := fun outer : List Frame =>
    @codeStep_plain c hasElements (inside nested depth outer) s.memory s.pos t
      (fun hc => ⟨fun ht => hline ⟨hc, ht⟩, fun ht => hblock ⟨hc, ht⟩⟩) hquote htick
  by_cases hword : startsWord c = true
  · rw [if_pos hword, word_eq hword h, map_ok]
    refine ⟨_, rfl, follows_after h fun outer => ?_⟩
    rw [hplain, if_pos hword]
    rfl
  by_cases hdigit : c.isDigit = true
  · rw [if_neg hword, if_pos hdigit, number_eq hdigit h, map_ok]
    refine ⟨_, rfl, follows_after h fun outer => ?_⟩
    rw [hplain, if_neg hword, if_pos hdigit]
  rw [if_neg hword, if_neg hdigit]
  simp only [if_neg hword, if_neg hdigit, if_neg hopen] at hplain
  exact ⟨_, rfl, follows_charTurn h hplain⟩

/-- A turn of the code, at an element or at anything else. -/
theorem exists_turn (h : At content s.pos (c :: t)) (ih : ReadsBehind content hasElements s)
    (nested : Bool) (depth : Nat) :
    ∃ turn, (if (decide (c = '<') && opensTag hasElements s.memory t) = true then
        Turn.goesOn depth <$> element content hasElements s
      else codeTurn content nested depth s c t) = .ok turn ∧
      Follows content hasElements nested depth s (c :: t) turn := by
  by_cases hopen : c = '<' ∧ opensTag hasElements s.memory t = true
  · obtain ⟨rfl, hopen⟩ := hopen
    obtain ⟨next, t', hrun, hat, hlt, hall⟩ := elementReads h ih
    rw [hopen, hrun]
    refine ⟨.goesOn depth next, rfl, .goesOn hat hlt fun outer => ?_⟩
    rw [all_step ((step_inside nested depth outer s.memory s.pos '<' t).trans
      (codeStep_openTag hopen _)), after_openTag]
    exact hall _
  · rw [if_neg (by simpa using hopen)]
    exact exists_codeTurn h nested depth hopen

theorem codeReads (h : At content s.pos t) (ih : ReadsBehind content hasElements s) :
    CodeReads content hasElements s t := by
  intro nested depth
  rw [code, h.rest_eq, ok_bind]
  cases t with
  | nil => exact ⟨s, [], rfl, h, Nat.le_refl _, fun _ => rfl, fun outer => by rw [all_nil, all_nil]⟩
  | cons c t =>
    obtain ⟨turn, hturn, hfollows⟩ := exists_turn h ih nested depth
    simp only [opensElement_eq h, ok_bind, hturn]
    cases hfollows with
    | @goesOn depth' next t' hat hlt hall =>
      obtain ⟨last, t'', hrun, hat', hle, hend, hall'⟩ := (ih _ _ hat hlt).code nested depth'
      simp only [dif_pos (hat.advances hlt), hrun]
      exact ⟨last, t'', rfl, hat', Nat.le_trans (Nat.le_of_lt hlt) hle, hend, fun outer =>
        (hall outer).trans (hall' outer)⟩
    | @ends next t' hnested hat hlt hall =>
      refine ⟨next, t', rfl, hat, Nat.le_of_lt hlt, fun hfile => ?_, hall⟩
      rw [hnested] at hfile
      cases hfile

/-! ## Tags -/

theorem ReadsBehind.mono {next : State} (h : ReadsBehind content hasElements s)
    (hle : s.pos ≤ next.pos) : ReadsBehind content hasElements next :=
  fun _ _ hat hlt => h _ _ hat (Nat.lt_of_le_of_lt hle hlt)

/-- A container is read up to the brace that closes it. -/
theorem exists_container (h : At content s.pos ('{' :: t)) (ih : ReadsBehind content hasElements s)
    {f : Frame} (hstep : ∀ outer, step hasElements (f :: outer) s.memory s.pos '{' t
      = ⟨[], .container 0 :: f :: outer, s.memory, 0⟩) :
    ∃ next t', code content hasElements true 0 (s.skip 1) = .ok next ∧
      At content next.pos t' ∧ s.pos < next.pos ∧
      ∀ outer, s.all hasElements (f :: outer) ('{' :: t) = next.all hasElements (f :: outer) t' := by
  have hat : At content (s.skip 1).pos t := h.cons
  have hlt : s.pos < (s.skip 1).pos := Nat.lt_succ_self _
  obtain ⟨next, t', hrun, hat', hle, -, hall⟩ := (ih _ _ hat hlt).code true 0
  refine ⟨next, t', hrun, hat', Nat.lt_of_lt_of_le hlt hle, fun outer => ?_⟩
  rw [all_step (hstep outer), after_char]
  exact hall (f :: outer)

/-- A turn in a tag that does not end it. -/
theorem exists_tagTurn (h : At content s.pos (c :: t)) (ih : ReadsBehind content hasElements s)
    (hslash : ¬ (c = '/' ∧ t.head? = some '>')) (hend : c ≠ '>') :
    ∃ next t', (if c = '"' ∨ c = '\'' then string content c s
        else if c = '{' then
          if _ : Advances content s (s.skip 1) then code content hasElements true 0 (s.skip 1)
          else throw .stuck
        else pure (s.skip c.utf8Size)) = .ok next ∧
      At content next.pos t' ∧ s.pos < next.pos ∧
      ∀ outer, s.all hasElements (.tag :: outer) (c :: t)
        = next.all hasElements (.tag :: outer) t' := by
  have hstep (outer : List Frame) : step hasElements (.tag :: outer) s.memory s.pos c t
      = tagStep (.tag :: outer) s.memory s.pos c t := rfl
  by_cases hquote : c = '"' ∨ c = '\''
  · rw [if_pos hquote, string_eq hquote h]
    refine ⟨_, _, rfl, h.after _, lt_after _ _ _ _, fun outer => ?_⟩
    exact all_step ((hstep outer).trans (by rw [tagStep, if_pos hquote]))
  rw [if_neg hquote]
  by_cases hopen : c = '{'
  · subst hopen
    have hat : At content (s.skip 1).pos t := h.cons
    rw [if_pos rfl, dif_pos (hat.advances (Nat.lt_succ_self _))]
    exact exists_container h ih fun outer => (hstep outer).trans (by
      rw [tagStep, if_neg hquote, if_pos rfl])
  · rw [if_neg hopen]
    refine ⟨_, t, rfl, h.cons, Nat.lt_add_of_pos_right c.utf8Size_pos, fun outer => ?_⟩
    have hall := all_step ((hstep outer).trans (by
      rw [tagStep, if_neg hquote, if_neg hopen, if_neg hslash, if_neg hend]))
    rwa [after_char] at hall

theorem tagReads (h : At content s.pos t) (ih : ReadsBehind content hasElements s) :
    TagReads content hasElements s t := by
  rw [TagReads, tagRest, h.rest_eq, ok_bind]
  cases t with
  | nil =>
    exact ⟨true, s, [], rfl, h, Nat.le_refl _, fun outer => by rw [all_nil, if_pos rfl, all_nil]; rfl⟩
  | cons c t =>
    simp only
    by_cases hslash : c = '/' ∧ t.head? = some '>'
    · obtain ⟨rfl, ht⟩ := hslash
      obtain ⟨t, rfl⟩ := List.head?_eq_some_iff.1 ht
      rw [if_pos ⟨rfl, rfl⟩]
      refine ⟨true, s.skip 2, t, rfl, At.append (a := ['/', '>']) h, Nat.le_add_right _ _,
        fun outer => ?_⟩
      have hstep : step hasElements (.tag :: outer) s.memory s.pos '/' ('>' :: t)
          = closeElement (.tag :: outer) s.memory 1 := by
        show tagStep _ _ _ _ _ = _
        rw [tagStep, if_neg (by decide), if_neg (by decide), if_pos ⟨rfl, rfl⟩]
      have hafter : s.after '/' ('>' :: t) (closeElement (.tag :: outer) s.memory 1)
          = (s.skip 2).leave := by
        simp only [State.after, closeElement, List.append_nil]
        rfl
      rw [all_step hstep, if_pos rfl, hafter]
      rfl
    rw [if_neg hslash]
    by_cases hend : c = '>'
    · subst hend
      rw [if_pos rfl]
      refine ⟨false, s.skip 1, t, rfl, h.cons, Nat.le_add_right _ _, fun outer => ?_⟩
      have hstep : step hasElements (.tag :: outer) s.memory s.pos '>' t
          = ⟨[], .children :: outer, s.memory, 0⟩ := by
        show tagStep _ _ _ _ _ = _
        rw [tagStep, if_neg (by decide), if_neg (by decide), if_neg (by simp), if_pos rfl]
        rfl
      rw [all_step hstep, after_char]
      rfl
    · rw [if_neg hend]
      obtain ⟨next, t', hturn, hat, hlt, hall⟩ := exists_tagTurn h ih hslash hend
      obtain ⟨ended, last, t'', hrun, hat', hle, hall'⟩ := (ih _ _ hat hlt).tag
      rw [hturn, ok_bind, dif_pos (hat.advances hlt), hrun]
      exact ⟨ended, last, t'', rfl, hat', Nat.le_trans (Nat.le_of_lt hlt) hle, fun outer =>
        (hall outer).trans (hall' outer)⟩

/-! ## Between tags -/

/-- The text between tags is read up to the next tag or container. -/
theorem exists_childText (h : At content s.pos t) :
    ∃ behind, childText content s = .ok behind ∧
      At content behind.pos (t.dropWhile (!endsChildText ·)) ∧ s.pos ≤ behind.pos ∧
      ∀ outer, s.all hasElements (.children :: outer) t
        = behind.all hasElements (.children :: outer) (t.dropWhile (!endsChildText ·)) := by
  refine ⟨_, childText_eq h rfl, ?_, Nat.le_add_right _ _, fun outer => ?_⟩
  · refine At.append ?_
    rwa [List.takeWhile_append_dropWhile]
  · cases t with
    | nil => simp [all_nil, Text.trim, Text.trimEnd, Text.trimStart, Node.ifAny]
    | cons c t =>
      cases hc : endsChildText c with
      | true =>
        have hnone : (c :: t).takeWhile (!endsChildText ·) = [] := by simp [hc]
        have hall : (c :: t).dropWhile (!endsChildText ·) = c :: t := by simp [hc]
        rw [hnone, hall]
        simp [State.all, Text.trim, Text.trimEnd, Text.trimStart, Node.ifAny]
      | false =>
        have htext : (c :: t).takeWhile (!endsChildText ·) = c :: t.takeWhile (!endsChildText ·) := by
          simp [hc]
        have hrest : (c :: t).dropWhile (!endsChildText ·) = t.dropWhile (!endsChildText ·) := by
          simp [hc]
        have hstep : step hasElements (.children :: outer) s.memory s.pos c t
            = _ := childStep_text (.children :: outer) s.memory hc s.pos t
        rw [htext, hrest, all_step hstep, State.after]
        simp only [take_length_takeWhile, drop_length_takeWhile, Text.byteLength_cons,
          Nat.add_assoc]

/-- What ends with the first `>`. -/
theorem take_length_takeWhile_succ (h : t.any (· == '>') = true) :
    t.take ((t.takeWhile (· != '>')).length + 1) = t.takeWhile (· != '>') ++ ['>'] := by
  induction t with
  | nil => cases h
  | cons c t ih =>
    by_cases hc : c = '>'
    · simp [hc]
    · have ht : t.any (· == '>') = true := by simpa [hc] using h
      rw [List.takeWhile_cons_of_pos (by simpa using hc), List.length_cons, List.take_succ_cons,
        ih ht, List.cons_append]

/-- A closing tag is read up to its `>`. -/
theorem offsetOf_closingTag (h : At content s.pos ('<' :: t)) (frames : List Frame) :
    offsetOf content s ((find? (· == '>') ('<' :: t)).map (· + 1))
      = (s.after '<' t
          (closeElement frames s.memory ((t.takeWhile (· != '>')).length + 1))).pos := by
  have hopen : '<'.utf8Size = 1 := rfl
  have hclose : '>'.utf8Size = 1 := rfl
  have hend := h.pos_add
  rw [Text.byteLength_cons, hopen] at hend
  have htake : ('<' :: t).takeWhile (!· == '>') = '<' :: t.takeWhile (· != '>') :=
    List.takeWhile_cons_of_pos rfl
  have hany : ('<' :: t).any (· == '>') = t.any (· == '>') := rfl
  rw [offsetOf, find?, hany, htake]
  simp only [State.after, closeElement, hopen]
  cases hfound : t.any (· == '>') with
  | false =>
    have hself : t.takeWhile (· != '>') = t := takeWhile_eq_self hfound
    rw [hself, List.take_of_length_le (Nat.le_succ _), if_neg (by decide), Option.map_none,
      Option.map_none, Option.getD_none]
    omega
  | true =>
    rw [take_length_takeWhile_succ hfound, if_pos rfl]
    simp only [Option.map_some, Option.getD_some, Text.byteLength_append, Text.byteLength_cons,
      Text.byteLength_nil, hopen, hclose]
    omega

/-- A turn between tags that does not end them. -/
theorem exists_childTurn {behind : State} (hat : At content behind.pos (c :: t))
    (ih : ReadsBehind content hasElements s) (hle : s.pos ≤ behind.pos)
    (hends : c = '<' ∨ c = '{') (hclose : ¬ (c = '<' ∧ t.head? = some '/')) :
    ∃ next t', (if c = '{' then
          if _ : Advances content s (behind.skip 1) then
            code content hasElements true 0 (behind.skip 1)
          else throw .stuck
        else if _ : s.pos ≤ behind.pos then element content hasElements behind
        else throw .stuck) = .ok next ∧
      At content next.pos t' ∧ behind.pos < next.pos ∧
      ∀ outer, behind.all hasElements (.children :: outer) (c :: t)
        = next.all hasElements (.children :: outer) t' := by
  have hstep (outer : List Frame) : step hasElements (.children :: outer) behind.memory behind.pos c t
      = childStep (.children :: outer) behind.memory behind.pos c t := rfl
  rcases hends with rfl | rfl
  · obtain ⟨next, t', hrun, hat', hlt, hall⟩ := elementReads hat (ih.mono hle)
    rw [if_neg (by decide), dif_pos hle]
    refine ⟨next, t', hrun, hat', hlt, fun outer => ?_⟩
    rw [all_step ((hstep outer).trans (by
      rw [childStep, if_neg (by decide), if_pos rfl, if_neg fun h => hclose ⟨rfl, h⟩])),
      after_openTag]
    exact hall _
  · have hskip : At content (behind.skip 1).pos t := hat.cons
    rw [if_pos rfl, dif_pos (hskip.advances (Nat.lt_succ_of_le hle))]
    exact exists_container hat (ih.mono hle) fun outer => (hstep outer).trans (by
      rw [childStep, if_pos rfl])

theorem childrenReads (h : At content s.pos t) (ih : ReadsBehind content hasElements s) :
    ChildrenReads content hasElements s t := by
  obtain ⟨behind, htext, hat, hle, hall⟩ := @exists_childText content t s hasElements h
  rw [ChildrenReads, children, htext, ok_bind, hat.rest_eq, ok_bind]
  cases hrest : t.dropWhile (!endsChildText ·) with
  | nil =>
    rw [hrest] at hat hall
    exact ⟨behind, [], rfl, hat, hle, fun outer => by rw [hall outer, all_nil, all_nil]; rfl⟩
  | cons c t' =>
    rw [hrest] at hat hall
    have hends : c = '<' ∨ c = '{' := by
      have hhead := List.head?_dropWhile_not (!endsChildText ·) t
      rw [hrest] at hhead
      have hother : c ≠ '<' → c = '{' := by simpa [endsChildText] using hhead
      exact Decidable.or_iff_not_imp_left.2 hother
    simp only
    by_cases hclose : c = '<' ∧ t'.head? = some '/'
    · rw [if_pos hclose]
      obtain ⟨rfl, hslash⟩ := hclose
      let r := closeElement [] behind.memory ((t'.takeWhile (· != '>')).length + 1)
      rw [offsetOf_closingTag hat []]
      refine ⟨_, t'.drop r.extra, rfl, hat.after r,
        Nat.le_trans hle (Nat.le_of_lt (lt_after behind '<' t' r)), fun outer => ?_⟩
      have hstep : step hasElements (.children :: outer) behind.memory behind.pos '<' t'
          = closeElement (.children :: outer) behind.memory
            ((t'.takeWhile (· != '>')).length + 1) := by
        show childStep _ _ _ _ _ = _
        rw [childStep, if_neg (by decide), if_pos rfl, if_pos hslash]
      rw [hall outer, all_step hstep]
      simp only [State.after, State.leave, closeElement, List.append_nil]
      rfl
    · rw [if_neg hclose]
      obtain ⟨next, t'', hturn, hat', hlt, hall'⟩ := exists_childTurn hat ih hle hends hclose
      have hnext := Nat.lt_of_le_of_lt hle hlt
      obtain ⟨last, rest, hrun, hat'', hle', hall''⟩ := (ih _ _ hat' hnext).children
      rw [hturn, ok_bind, dif_pos (hat'.advances hnext), hrun]
      exact ⟨last, rest, rfl, hat'', Nat.le_trans (Nat.le_of_lt hnext) hle', fun outer =>
        (hall outer).trans ((hall' outer).trans (hall'' outer))⟩

/-! ## The whole file -/

/-- **All functions read what they should**, by induction on what is left of the file. -/
theorem reads (hasElements : Bool) (h : At content s.pos t) : Reads content hasElements s t := by
  induction hleft : content.byteLength - s.pos using Nat.strongRecOn generalizing s t with
  | ind n ih =>
    have hbehind : ReadsBehind content hasElements s := fun next t' hat hlt => by
      have hend := hat.pos_add
      exact ih _ (by omega) hat rfl
    exact ⟨codeReads h hbehind, tagReads h hbehind, childrenReads h hbehind⟩

/-- **The scan by descent never fails.** In any file of any language it comes to the end of the file,
and finds the nodes of the file. -/
theorem exists_scan_eq (language : Language) (content : Text) :
    ∃ m, scan language content = .ok ⟨content.byteLength, nodes language content, m⟩ := by
  have hstart : At content (State.pos {}) content := ⟨[], rfl, rfl⟩
  obtain ⟨next, t, hrun, hat, -, hend, hall⟩ :=
    (reads language.hasElements hstart).code false 0
  obtain rfl := hend rfl
  have hpos : next.pos = content.byteLength := hat.pos_add
  have hnodes : nodes language content = next.nodes := by
    have := hall []
    rwa [all_nil] at this
  refine ⟨next.memory, ?_⟩
  rw [scan, hrun, hnodes, ← hpos]

end CodeProse.Source.Descent

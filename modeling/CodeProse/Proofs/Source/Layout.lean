/-
# Where the nodes of a file stand

The nodes of a file stand in it one behind the other, each between its delimiters, from between
which its text is read (`Laid`). A step of the scanner lays its nodes in the characters that it
takes (`laid_step`), so by induction over the scan the nodes of a file are laid in the file
(`laid_nodesFrom`). Nodes that are laid in a file are well formed and do not overlap
(`wellFormed_nodes`).
-/
import CodeProse.Proofs.Source.Readers
import CodeProse.Proofs.Text.Trim

namespace CodeProse.Source

/-! ## Nodes between their delimiters -/

/-- The quote that opens a string; text between tags has none. -/
def quoteOf? : Text → Option Char
  | [c] => if c = '"' ∨ c = '\'' then some c else none
  | _ => none

/-- A text is read back from between the delimiters of a node, of which `opening` is the first, if
`rest` follows it: nothing in it ends the node early, swallows the closing delimiter or opens a
substitution. -/
def ReadsBack (n : Node) (opening text rest : Text) : Prop :=
  match n.kind with
  | .comment => if opening = ['/', '*'] then ¬ ['*', '/'] <:+: text else '\n' ∉ text
  | .string =>
    match quoteOf? opening with
    | some quote => (stringBody quote (text ++ rest)).1 = text
    | none => ∀ c ∈ text, endsChildText c = false
  | .template => (fragmentBody (text ++ rest)).1 = text
  | .identifier => text = n.value

/-- What closes the text of a quoted string and of a literal fragment, unless the file ends there.
-/
def Closes (n : Node) (opening closing rest : Text) : Prop :=
  match n.kind with
  | .string => ∀ quote, quoteOf? opening = some quote →
      closing = [quote] ∨ closing = ['\n'] ∨ closing = [] ∧ rest = []
  | .template => closing = ['`'] ∨ closing = ['$', '{'] ∨ closing = [] ∧ rest = []
  | .comment | .identifier => True

/-- A node holds text, which is read from between its delimiters, and its range stops within the
closing one or with it. -/
structure Delimits (n : Node) (opening closing rest : Text) : Prop where
  value : n.value ≠ []
  reads : ReadsBack n opening n.value (closing ++ rest)
  closes : Closes n opening closing rest
  contentStop_le : n.contentStop ≤ n.stop
  stop_le : n.stop ≤ n.contentStop + closing.byteLength

/-! ## Nodes in a row -/

/-- Nodes that stand one behind the other in a text that starts at `offset`, if `after` follows the
text: before each comes a gap and its opening delimiter, after it its closing delimiter. -/
def Laid (offset : Nat) (t after : Text) : List Node → Prop
  | [] => True
  | n :: rest => ∃ gap opening closing post, t = gap ++ opening ++ n.value ++ closing ++ post ∧
      offset + gap.byteLength = n.start ∧ n.start + opening.byteLength = n.contentStart ∧
      Delimits n opening closing (post ++ after) ∧
      Laid (n.contentStop + closing.byteLength) post after rest

@[simp] theorem laid_nil (offset : Nat) (t after : Text) : Laid offset t after [] := trivial

/-- Nodes may come after any text. -/
theorem Laid.append_left {offset : Nat} {t after : Text} {ns : List Node} (lead : Text)
    (h : Laid (offset + lead.byteLength) t after ns) : Laid offset (lead ++ t) after ns := by
  cases ns with
  | nil => trivial
  | cons n rest =>
    obtain ⟨gap, opening, closing, post, rfl, hstart, hcontent, hdelimits, hrest⟩ := h
    refine ⟨lead ++ gap, opening, closing, post, by simp, ?_, hcontent, hdelimits, hrest⟩
    rw [Text.byteLength_append, ← hstart]
    omega

/-- Any text, with nodes of its own, may come after nodes that are laid before it. -/
theorem Laid.append {offset : Nat} {t₁ t₂ after : Text} {ns₁ ns₂ : List Node}
    (h₁ : Laid offset t₁ (t₂ ++ after) ns₁) (h₂ : Laid (offset + t₁.byteLength) t₂ after ns₂) :
    Laid offset (t₁ ++ t₂) after (ns₁ ++ ns₂) := by
  induction ns₁ generalizing offset t₁ with
  | nil => exact h₂.append_left t₁
  | cons n rest ih =>
    obtain ⟨gap, opening, closing, post, rfl, hstart, hcontent, hdelimits, hrest⟩ := h₁
    refine ⟨gap, opening, closing, post ++ t₂, by simp, hstart, hcontent,
      by rwa [List.append_assoc], ih hrest ?_⟩
    have hend : n.contentStop + closing.byteLength + post.byteLength
        = offset + (gap ++ opening ++ n.value ++ closing ++ post).byteLength := by
      rw [Node.contentStop, ← hcontent, ← hstart]
      simp only [Text.byteLength_append]
      omega
    rw [hend]
    exact h₂

/-- Laid nodes stand in the text that they are laid in. -/
theorem Laid.bounds {offset : Nat} {t after : Text} {ns : List Node} (h : Laid offset t after ns) :
    ∀ n ∈ ns, offset ≤ n.start ∧ n.start ≤ n.contentStart ∧
      n.contentStop ≤ offset + t.byteLength := by
  induction ns generalizing offset t with
  | nil => intro n hn; cases hn
  | cons n ns ih =>
    obtain ⟨gap, opening, closing, post, rfl, hstart, hcontent, -, hrest⟩ := h
    intro n' hn'
    simp only [Text.byteLength_append]
    rcases List.mem_cons.1 hn' with rfl | hn'
    · simp only [Node.contentStop]
      omega
    · have := ih hrest n' hn'
      simp only [Node.contentStop] at this ⊢
      omega

/-- The text of a laid node is what stands between the offsets of the node. -/
theorem Laid.slice {pre t after : Text} {ns : List Node} (h : Laid pre.byteLength t after ns) :
    ∀ n ∈ ns, Text.slice? n.contentStart n.contentStop (pre ++ t) = some n.value := by
  induction ns generalizing pre t with
  | nil => intro n hn; cases hn
  | cons n ns ih =>
    obtain ⟨gap, opening, closing, post, rfl, hstart, hcontent, -, hrest⟩ := h
    intro n' hn'
    rcases List.mem_cons.1 hn' with rfl | hn'
    · refine (Text.slice?_eq_some_iff _ _ _ _).2
        ⟨pre ++ gap ++ opening, closing ++ post, by simp, ?_, rfl⟩
      simp only [Text.byteLength_append]
      omega
    · have hpre : n.contentStop + closing.byteLength
          = (pre ++ gap ++ opening ++ n.value ++ closing).byteLength := by
        simp only [Text.byteLength_append, Node.contentStop]
        omega
      rw [hpre] at hrest
      have hslice := ih hrest n' hn'
      rwa [show pre ++ (gap ++ opening ++ n.value ++ closing ++ post)
        = pre ++ gap ++ opening ++ n.value ++ closing ++ post by simp]

/-- The texts of laid nodes do not overlap. -/
theorem Laid.pairwise {offset : Nat} {t after : Text} {ns : List Node}
    (h : Laid offset t after ns) : ns.Pairwise fun a b => a.contentStop ≤ b.contentStart := by
  induction ns generalizing offset t with
  | nil => exact .nil
  | cons n ns ih =>
    obtain ⟨gap, opening, closing, post, rfl, -, -, -, hrest⟩ := h
    refine List.pairwise_cons.2 ⟨fun n' hn' => ?_, ih hrest⟩
    have := hrest.bounds n' hn'
    omega

/-- The range of a laid node holds its text, and it stays in the text that the node is laid in. -/
theorem Laid.stop_bounds {offset : Nat} {t after : Text} {ns : List Node}
    (h : Laid offset t after ns) :
    ∀ n ∈ ns, n.contentStop ≤ n.stop ∧ n.stop ≤ offset + t.byteLength := by
  induction ns generalizing offset t with
  | nil => intro n hn; cases hn
  | cons n ns ih =>
    obtain ⟨gap, opening, closing, post, rfl, hstart, hcontent, hdelimits, hrest⟩ := h
    intro n' hn'
    simp only [Text.byteLength_append]
    rcases List.mem_cons.1 hn' with rfl | hn'
    · refine ⟨hdelimits.contentStop_le, ?_⟩
      have hstop := hdelimits.stop_le
      simp only [Node.contentStop] at hstop
      omega
    · have hlater := ih hrest n' hn'
      simp only [Node.contentStop] at hlater ⊢
      omega

/-- No laid node begins, its delimiters included, before the one in front of it has stopped. -/
theorem Laid.pairwise_stop_le {offset : Nat} {t after : Text} {ns : List Node}
    (h : Laid offset t after ns) : ns.Pairwise fun a b => a.stop ≤ b.start := by
  induction ns generalizing offset t with
  | nil => exact .nil
  | cons n ns ih =>
    obtain ⟨gap, opening, closing, post, rfl, -, -, hdelimits, hrest⟩ := h
    refine List.pairwise_cons.2 ⟨fun n' hn' => ?_, ih hrest⟩
    exact Nat.le_trans hdelimits.stop_le (hrest.bounds n' hn').1

/-- Laid nodes hold text. -/
theorem Laid.value_ne_nil {offset : Nat} {t after : Text} {ns : List Node}
    (h : Laid offset t after ns) : ∀ n ∈ ns, n.value ≠ [] := by
  induction ns generalizing offset t with
  | nil => intro n hn; cases hn
  | cons n ns ih =>
    obtain ⟨gap, opening, closing, post, -, -, -, hdelimits, hrest⟩ := h
    intro n' hn'
    rcases List.mem_cons.1 hn' with rfl | hn'
    · exact hdelimits.value
    · exact ih hrest n' hn'

/-- A node between its delimiters. -/
theorem laid_ifAny {offset : Nat} {opening closing after : Text} {n : Node} (more : Text)
    (hstart : n.start = offset) (hcontent : n.start + opening.byteLength = n.contentStart)
    (hreads : ReadsBack n opening n.value (closing ++ (more ++ after)))
    (hcloses : Closes n opening closing (more ++ after)) (hcontentStop : n.contentStop ≤ n.stop)
    (hstop : n.stop ≤ n.contentStop + closing.byteLength) :
    Laid offset (opening ++ n.value ++ closing ++ more) after n.ifAny := by
  rw [Node.ifAny]
  split
  case isTrue => trivial
  case isFalse hvalue =>
    exact ⟨[], opening, closing, more, by simp, hstart.symm, hcontent,
      ⟨fun h => hvalue (List.isEmpty_iff.2 h), hreads, hcloses, hcontentStop, hstop⟩, trivial⟩

/-! ## Steps -/

theorem laid_fragmentNode {start : Nat} {value closing more after : Text}
    (hreads : (fragmentBody (value ++ (closing ++ (more ++ after)))).1 = value)
    (hcloses : closing = ['`'] ∨ closing = ['$', '{'] ∨ closing = [] ∧ more ++ after = []) :
    Laid start (value ++ closing ++ more) after (fragmentNode start value) :=
  @laid_ifAny start [] closing after
    ⟨.template, value, start, start + value.byteLength, start, false⟩ more rfl rfl hreads hcloses
    (Nat.le_refl _) (Nat.le_add_right _ _)

/-- The fragments of a template are laid in the characters that it takes. -/
theorem laid_template (start : Nat) (t : Text) :
    Laid start (t.take (templateScan start t).taken) (t.drop (templateScan start t).taken)
      (fragmentNodes (templateScan start t).fragments) := by
  -- by induction on the length, as what follows a substitution is read like a template of its own
  induction hn : t.length using Nat.strongRecOn generalizing start t with
  | ind n ih =>
    rcases template_cases t with hend | ⟨b, rest, rfl, hend⟩ | ⟨b, skipped, tail, rfl, hend, hskip⟩
    · obtain ⟨htaken, -, hnodes⟩ := templateScan_of_end start hend
      rw [hnodes, htaken, List.take_length, List.drop_length]
      have h := @laid_fragmentNode start t [] [] [] (by simp [hend]) (.inr (.inr ⟨rfl, rfl⟩))
      rwa [List.append_nil, List.append_nil] at h
    · obtain ⟨htaken, -, hnodes⟩ := templateScan_of_backtick start hend
      rw [hnodes, htaken, List.take_left, List.drop_left]
      have h := @laid_fragmentNode start b ['`'] [] rest
        (by rw [List.nil_append, ← List.append_assoc, hend]) (.inl rfl)
      rwa [List.append_nil] at h
    · obtain ⟨htaken, -, hnodes⟩ := templateScan_of_substitution start hend hskip
      rw [hnodes, htaken, List.take_length_add_append, List.drop_length_add_append]
      refine Laid.append ?_ (ih tail.length ?_ _ _ rfl)
      · rw [List.take_append_drop]
        have h := @laid_fragmentNode start b ['$', '{'] skipped tail
          (by simpa using congrArg Prod.fst hend) (.inr (.inl rfl))
        simpa using h
      · rw [← hn, List.length_append, List.length_append, List.length_cons]
        omega

theorem take_length_takeWhile {α : Type} (p : α → Bool) (l : List α) :
    l.take (l.takeWhile p).length = l.takeWhile p :=
  (List.prefix_iff_eq_take.1 (List.takeWhile_prefix p)).symm

theorem drop_length_takeWhile {α : Type} (p : α → Bool) (l : List α) :
    l.drop (l.takeWhile p).length = l.dropWhile p := by
  induction l with
  | nil => rfl
  | cons a l ih => by_cases h : p a <;> simp [h, ih]

/-- A line comment takes its slashes and its text. -/
theorem take_lineComment (frames : List Frame) (m : Memory) (offset : Nat) (t : Text) :
    ('/' :: t).take (lineComment frames m offset t).extra = '/' :: t.takeWhile (· != '\n') := by
  simp only [lineComment]
  rw [Nat.add_comm, List.take_succ_cons, take_length_takeWhile]

theorem laid_lineComment (frames : List Frame) (m : Memory) (offset : Nat) (t after : Text) :
    Laid offset ('/' :: ('/' :: t).take (lineComment frames m offset t).extra) after
      (lineComment frames m offset t).nodes := by
  rw [take_lineComment]
  simp only [lineComment]
  have h := @laid_ifAny offset ['/', '/'] [] after ⟨.comment, t.takeWhile (· != '\n'), offset,
    offset + 2 + Text.byteLength (t.takeWhile (· != '\n')), offset + 2, false⟩ [] rfl rfl
    (by
      simp only [ReadsBack, if_neg (show ['/', '/'] ≠ ['/', '*'] by decide)]
      intro hmem
      simpa using List.all_eq_true.1 List.all_takeWhile _ hmem)
    trivial (Nat.le_refl _) (Nat.le_refl _)
  simpa using h

/-- A block comment takes its text and both delimiters, or all there is. -/
theorem take_blockComment (frames : List Frame) (m : Memory) (offset : Nat) (t : Text) :
    (∃ body rest, t = body ++ '*' :: '/' :: rest ∧ ¬ ['*', '/'] <:+: body ∧
        ('*' :: t).take (blockComment frames m offset t).extra = '*' :: body ++ ['*', '/'] ∧
        ('*' :: t).drop (blockComment frames m offset t).extra = rest ∧
        (blockComment frames m offset t).nodes = Node.ifAny
          ⟨.comment, body, offset, offset + 2 + Text.byteLength body + 2, offset + 2, false⟩) ∨
      (¬ ['*', '/'] <:+: t ∧ ('*' :: t).take (blockComment frames m offset t).extra = '*' :: t ∧
        ('*' :: t).drop (blockComment frames m offset t).extra = [] ∧
        (blockComment frames m offset t).nodes = Node.ifAny
          ⟨.comment, t, offset, offset + 2 + Text.byteLength t, offset + 2, false⟩) := by
  rw [blockComment]
  split
  case h_1 body after hsplit =>
    have ht := Text.splitFirst?_eq_some hsplit
    rw [List.append_assoc] at ht
    refine .inl ⟨body, after, ht, Text.not_infix_of_splitFirst? (by simp) hsplit, ?_, ?_, rfl⟩
    · simp only
      rw [show 1 + body.length + 2 = body.length + 2 + 1 by omega, List.take_succ_cons, ht,
        List.take_length_add_append]
      rfl
    · simp only
      rw [show 1 + body.length + 2 = body.length + 2 + 1 by omega, List.drop_succ_cons, ht,
        List.drop_append]
      simp
  case h_2 hsplit =>
    refine .inr ⟨(Text.splitFirst?_eq_none_iff _ _).1 hsplit, ?_, ?_, rfl⟩
    · simp only
      rw [Nat.add_comm, List.take_succ_cons, List.take_length]
    · simp only
      rw [Nat.add_comm, List.drop_succ_cons, List.drop_length]

/-- A block comment leaves the frames as they are, and nothing else depends on them. -/
theorem blockComment_frames (frames : List Frame) (m : Memory) (offset : Nat) (t : Text) :
    blockComment frames m offset t = { blockComment [] m offset t with frames := frames } := by
  rw [blockComment, blockComment]
  split <;> rfl

theorem laid_blockComment (frames : List Frame) (m : Memory) (offset : Nat) (t : Text)
    (after : Text) :
    Laid offset ('/' :: ('*' :: t).take (blockComment frames m offset t).extra) after
      (blockComment frames m offset t).nodes := by
  rcases take_blockComment frames m offset t with
    ⟨body, rest, -, hbody, htake, -, hnodes⟩ | ⟨hbody, htake, -, hnodes⟩
  · rw [htake, hnodes]
    have h := @laid_ifAny offset ['/', '*'] ['*', '/'] after ⟨.comment, body, offset,
      offset + 2 + Text.byteLength body + 2, offset + 2, false⟩ [] rfl rfl
      (by simpa [ReadsBack] using hbody) trivial (Nat.le_add_right _ _) (Nat.le_refl _)
    simpa using h
  · rw [htake, hnodes]
    have h := @laid_ifAny offset ['/', '*'] [] after ⟨.comment, t, offset,
      offset + 2 + Text.byteLength t, offset + 2, false⟩ [] rfl rfl
      (by simpa [ReadsBack] using hbody) trivial (Nat.le_refl _) (Nat.le_refl _)
    simpa using h

/-- A string takes its text and the character that closes it, or all there is. -/
theorem take_stringLiteral (frames : List Frame) (m : Memory) (offset : Nat) (quote : Char)
    (t : Text) :
    (∃ body close rest, t = body ++ close :: rest ∧ (close = quote ∨ close = '\n') ∧
        stringBody quote t = (body, true) ∧
        t.take (stringLiteral frames m offset quote t).extra = body ++ [close] ∧
        t.drop (stringLiteral frames m offset quote t).extra = rest) ∨
      (stringBody quote t = (t, false) ∧
        t.take (stringLiteral frames m offset quote t).extra = t ∧
        t.drop (stringLiteral frames m offset quote t).extra = []) := by
  rcases stringBody_cases quote t with ⟨body, close, rest, rfl, hclose, hr⟩ | hr
  · refine .inl ⟨body, close, rest, rfl, hclose, hr, ?_, ?_⟩
    · simp only [stringLiteral, hr, ↓reduceIte]
      rw [List.take_length_add_append]
      rfl
    · simp only [stringLiteral, hr, ↓reduceIte]
      rw [List.drop_length_add_append]
      rfl
  · refine .inr ⟨hr, ?_, ?_⟩
    · simp only [stringLiteral, hr]
      exact List.take_length
    · simp only [stringLiteral, hr]
      exact List.drop_length

theorem laid_stringLiteral (frames : List Frame) (m : Memory) (offset : Nat) {quote : Char}
    (hquote : quote = '"' ∨ quote = '\'') (t : Text) :
    Laid offset (quote :: t.take (stringLiteral frames m offset quote t).extra)
      (t.drop (stringLiteral frames m offset quote t).extra)
      (stringLiteral frames m offset quote t).nodes := by
  have hsize : quote.utf8Size = 1 := by rcases hquote with rfl | rfl <;> rfl
  have hopen : quoteOf? [quote] = some quote := by simp [quoteOf?, hquote]
  rcases take_stringLiteral frames m offset quote t with
    ⟨body, close, rest, rfl, hclose, hr, htake, hdrop⟩ | ⟨hr, htake, hdrop⟩
  · have hcloseSize : 1 ≤ Text.byteLength [close] := close.utf8Size_pos
    rw [htake, hdrop, stringLiteral, hr]
    have h := @laid_ifAny offset [quote] [close] rest ⟨.string, body, offset,
      offset + 1 + body.byteLength + 1, offset + 1, m.expectsModule⟩ [] rfl (by simp [hsize])
      (by simp only [ReadsBack, hopen]; exact congrArg Prod.fst hr)
      (by
        simp only [Closes, hopen]
        rintro _ ⟨⟩
        rcases hclose with rfl | rfl
        · exact .inl rfl
        · exact .inr (.inl rfl))
      (Nat.le_add_right _ _) (Nat.add_le_add_left hcloseSize _)
    simpa using h
  · rw [htake, hdrop, stringLiteral, hr]
    have h := @laid_ifAny offset [quote] [] [] ⟨.string, t, offset,
      offset + 1 + Text.byteLength t, offset + 1, m.expectsModule⟩ [] rfl (by simp [hsize])
      (by simp only [ReadsBack, hopen]; simp [hr])
      (by
        simp only [Closes, hopen]
        exact fun _ _ => .inr (.inr (by simp)))
      (Nat.le_refl _) (Nat.le_refl _)
    simpa using h

theorem laid_word (frames : List Frame) (offset : Nat) (c : Char) (t : Text) (after : Text) :
    Laid offset (c :: t.take (word frames offset c t).extra) after
      (word frames offset c t).nodes := by
  have htake : c :: t.take (t.takeWhile continuesWord).length = c :: t.takeWhile continuesWord := by
    rw [take_length_takeWhile]
  simp only [word, List.length_cons, Nat.add_sub_cancel, htake]
  split
  · trivial
  · exact ⟨[], [], [], [], by simp, rfl, rfl,
      ⟨by simp, rfl, trivial, Nat.le_refl _, Nat.le_refl _⟩, trivial⟩

/-- White space is no quote. -/
theorem quoteOf?_of_whitespace {t : Text} (h : ∀ c ∈ t, Unicode.isWhitespace c = true) :
    quoteOf? t = none := by
  match t with
  | [] => rfl
  | [c] =>
    have hc := h c List.mem_cons_self
    rw [quoteOf?, if_neg]
    rintro (rfl | rfl) <;> revert hc <;> decide
  | _ :: _ :: _ => rfl

/-- What is between tags up to the next tag or container is a piece of text. -/
theorem childStep_text {c : Char} (frames : List Frame) (m : Memory) (hc : endsChildText c = false)
    (offset : Nat) (t : Text) :
    let text := c :: t.takeWhile (!endsChildText ·)
    childStep frames m offset c t
      = ⟨Node.ifAny ⟨.string, Text.trim text, offset, offset + Text.byteLength text,
          offset + (Text.byteLength text - Text.byteLength (Text.trimStart text)), false⟩,
        frames, m, (t.takeWhile (!endsChildText ·)).length⟩ := by
  have hne : c ≠ '{' ∧ c ≠ '<' := by
    simpa [endsChildText, and_comm] using hc
  simp [childStep, hne]

theorem endsChildText_of_mem {c : Char} (hc : endsChildText c = false) (t : Text) :
    ∀ d ∈ c :: t.takeWhile (!endsChildText ·), endsChildText d = false := by
  intro d hd
  rcases List.mem_cons.1 hd with rfl | hd
  · exact hc
  · simpa using List.all_eq_true.1 List.all_takeWhile d hd

theorem laid_childText (frames : List Frame) (m : Memory) (offset : Nat) {c : Char}
    (hc : endsChildText c = false) (t : Text) (after : Text) :
    Laid offset (c :: t.take (childStep frames m offset c t).extra) after
      (childStep frames m offset c t).nodes := by
  have hstep := childStep_text frames m hc offset t
  have hinside := endsChildText_of_mem hc t
  obtain ⟨text, htext⟩ : ∃ text : Text, c :: t.takeWhile (!endsChildText ·) = text := ⟨_, rfl⟩
  rw [htext] at hstep hinside
  simp only at hstep
  obtain ⟨lead, trail, hsplit, hlead, hblank, -⟩ := Text.trim_split text
  have hbytes := congrArg Text.byteLength hsplit
  simp only [Text.byteLength_append] at hbytes
  rw [hstep]
  simp only
  rw [take_length_takeWhile, htext, ← hlead]
  have h := @laid_ifAny offset lead trail after ⟨.string, text.trim, offset,
    offset + text.byteLength, offset + lead.byteLength, false⟩ [] rfl rfl
    (by
      simp only [ReadsBack, quoteOf?_of_whitespace hblank]
      exact fun d hd => hinside d (by rw [hsplit]; simp [hd]))
    (by simp [Closes, quoteOf?_of_whitespace hblank])
    (by simp only [Node.contentStop]; omega) (by simp only [Node.contentStop]; omega)
  rwa [List.append_nil, ← hsplit] at h

theorem laid_codeStep (hasElements : Bool) (frames : List Frame) (m : Memory) (offset : Nat)
    (c : Char) (t : Text) :
    Laid offset (c :: t.take (codeStep hasElements frames m offset c t).extra)
      (t.drop (codeStep hasElements frames m offset c t).extra)
      (codeStep hasElements frames m offset c t).nodes := by
  unfold codeStep
  split
  case isTrue h =>
    obtain ⟨rfl, ht⟩ := h
    obtain ⟨t, rfl⟩ := List.head?_eq_some_iff.1 ht
    exact laid_lineComment frames m offset t _
  split
  case isTrue h =>
    obtain ⟨rfl, ht⟩ := h
    obtain ⟨t, rfl⟩ := List.head?_eq_some_iff.1 ht
    exact laid_blockComment frames m offset t _
  split
  case isTrue h => exact laid_stringLiteral frames m offset h t
  split
  case isTrue h =>
    subst h
    exact (laid_template (offset + 1) t).append_left ['`']
  split
  case isTrue => exact laid_word frames offset c t _
  split
  case isTrue => trivial
  split
  case isTrue => trivial
  split
  case isTrue => trivial
  case isFalse =>
    rw [codeChar]
    split <;> trivial

theorem laid_tagStep (frames : List Frame) (m : Memory) (offset : Nat) (c : Char) (t : Text) :
    Laid offset (c :: t.take (tagStep frames m offset c t).extra)
      (t.drop (tagStep frames m offset c t).extra) (tagStep frames m offset c t).nodes := by
  unfold tagStep
  split
  case isTrue h => exact laid_stringLiteral frames m offset h t
  split
  case isTrue => trivial
  split
  case isTrue => trivial
  split <;> trivial

theorem laid_childStep (frames : List Frame) (m : Memory) (offset : Nat) (c : Char) (t : Text)
    (after : Text) :
    Laid offset (c :: t.take (childStep frames m offset c t).extra) after
      (childStep frames m offset c t).nodes := by
  cases hc : endsChildText c with
  | false => exact laid_childText frames m offset hc t after
  | true =>
    have hnodes : (childStep frames m offset c t).nodes = [] := by
      rcases (show c = '<' ∨ c = '{' by simpa [endsChildText] using hc) with rfl | rfl
      · rw [childStep, if_neg (by decide), if_pos rfl]
        split <;> rfl
      · rfl
    rw [hnodes]
    trivial

/-- A step lays its nodes in the characters that it takes. -/
theorem laid_step (hasElements : Bool) (frames : List Frame) (m : Memory) (offset : Nat) (c : Char)
    (t : Text) :
    Laid offset (c :: t.take (step hasElements frames m offset c t).extra)
      (t.drop (step hasElements frames m offset c t).extra)
      (step hasElements frames m offset c t).nodes := by
  unfold step
  split
  · exact laid_tagStep frames m offset c t
  · exact laid_childStep frames m offset c t _
  · exact laid_codeStep hasElements frames m offset c t
  · exact laid_codeStep hasElements frames m offset c t

/-- **The nodes of a text are laid in it.** -/
theorem laid_nodesFrom (hasElements : Bool) (frames : List Frame) (m : Memory) (offset : Nat)
    (t : Text) : Laid offset t [] (nodesFrom hasElements frames m offset t) := by
  fun_induction nodesFrom hasElements frames m offset t with
  | case1 => trivial
  | case2 frames m offset c t s ih =>
    have hsplit : c :: t = (c :: t.take s.extra) ++ t.drop s.extra := by
      rw [List.cons_append, List.take_append_drop]
    have hbytes : offset + c.utf8Size + Text.byteLength (t.take s.extra)
        = offset + Text.byteLength (c :: t.take s.extra) := by
      rw [Text.byteLength_cons, Nat.add_assoc]
    rw [hsplit]
    refine Laid.append ?_ ?_
    · rw [List.append_nil]
      exact laid_step hasElements frames m offset c t
    · rw [← hbytes]
      exact ih

/-! ## Well-formed nodes -/

/-- A node as it may be found in a file: it holds text, which is what stands in the file between its
offsets, and its range holds the text and stays in the file. -/
structure WellFormed (content : Text) (n : Node) : Prop where
  value_ne_nil : n.value ≠ []
  slice : Text.slice? n.contentStart n.contentStop content = some n.value
  start_le : n.start ≤ n.contentStart
  contentStop_le : n.contentStop ≤ n.stop
  stop_le : n.stop ≤ content.byteLength

/-- **The nodes of a file are well formed, and each stops before the next one starts.**  So they come
in the order of the source and do not overlap, whatever is left open or closed too early. -/
theorem wellFormed_nodes (language : Language) (content : Text) :
    (∀ n ∈ nodes language content, WellFormed content n) ∧
      (nodes language content).Pairwise fun a b => a.stop ≤ b.start := by
  have hlaid : Laid 0 content [] (nodes language content) :=
    laid_nodesFrom language.hasElements [] {} 0 content
  refine ⟨fun n hn => ?_, hlaid.pairwise_stop_le⟩
  obtain ⟨hcontentStop, hstop⟩ := hlaid.stop_bounds n hn
  constructor
  case value_ne_nil => exact hlaid.value_ne_nil n hn
  case slice => exact @Laid.slice [] content [] _ hlaid n hn
  case start_le => exact (hlaid.bounds n hn).2.1
  case contentStop_le => exact hcontentStop
  case stop_le => rwa [Nat.zero_add] at hstop

example : (nodes .tsx "<b>x \x7b'y".toList).map (fun n => (n.start, n.contentStart, n.stop))
    = [(3, 3, 5), (6, 7, 8)] := by
  decide +kernel

/-- The nodes of a file are laid in the file. -/
theorem laid_nodesOfFile (path content : Text) :
    Laid 0 content [] ((nodesOfFile? path content).getD []) := by
  cases hnodes : nodesOfFile? path content with
  | none => trivial
  | some ns =>
    obtain ⟨language, -, rfl⟩ := Option.map_eq_some_iff.1 hnodes
    exact laid_nodesFrom language.hasElements [] {} 0 content

end CodeProse.Source

/-
# Writing source code and scanning it

A file that is written segment by segment is scanned to just the nodes that were written
(`nodes_render`). A segment is a comment, a string, a template or a word, and carries the proof that
its text does not end before it is meant to; after each segment comes a semicolon on a line of its
own.

The semicolon makes the scanner forget what it has passed, so between segments it is always in the
same state as far as strings and elements are concerned. The proof is by induction on the segments:
a segment is one step of the scanner, whatever follows, and the semicolon is three.
-/
import CodeProse.Proofs.Source.Respelling

namespace CodeProse.Source

open Text (takeWhile_append_of_head)
open Unicode

/-! ## Texts that may stand between delimiters -/

/-- A text that a string may hold: escapes, and characters that neither close the string nor end the
line. -/
inductive IsStringText (quote : Char) : Text → Prop
  | nil : IsStringText quote []
  | escape (d : Char) {t : Text} (ht : IsStringText quote t) : IsStringText quote ('\\' :: d :: t)
  | char {c : Char} {t : Text} (hquote : c ≠ quote) (hescape : c ≠ '\\') (hline : c ≠ '\n')
      (ht : IsStringText quote t) : IsStringText quote (c :: t)

/-- A text that a template may hold between substitutions: escapes, and characters that neither
close the template nor open a substitution. -/
inductive IsFragment : Text → Prop
  | nil : IsFragment []
  | escape (d : Char) {t : Text} (ht : IsFragment t) : IsFragment ('\\' :: d :: t)
  | char {c : Char} {t : Text} (hclose : c ≠ '`') (hescape : c ≠ '\\')
      (hopen : ¬ (c = '$' ∧ t.head? = some '{')) (ht : IsFragment t) : IsFragment (c :: t)

/-- Whether the braces of a text are balanced after `depth` of them were opened; none closes that
was not opened. -/
def IsBalanced (depth : Nat) : Text → Prop
  | [] => depth = 0
  | c :: t =>
    if c = '{' then IsBalanced (depth + 1) t
    else if c = '}' then 0 < depth ∧ IsBalanced (depth - 1) t
    else IsBalanced depth t

/-- Whether a character is numeric and not alphabetic: a digit of any script, a fraction or the like,
but no letter that stands for a number. -/
def isNumericOnly (c : Char) : Bool :=
  isNumeric c && !isAlphabetic c

/-- A word: characters that words consist of, the first of them not numeric, unless it is a letter. -/
structure IsWord (w : Text) : Prop where
  ne_nil : w ≠ []
  continues : ∀ c ∈ w, continuesWord c = true
  head : ∀ c, w.head? = some c → isNumericOnly c = false

/-! ## Segments -/

/-- A substitution in a template and the literal fragment behind it. -/
structure TemplatePart where
  code : Text
  balanced : IsBalanced 0 code
  fragment : Text
  isFragment : IsFragment fragment

/-- What a file is written of. -/
inductive Segment where
  | lineComment (body : Text) (hbody : '\n' ∉ body)
  | blockComment (body : Text) (hbody : ¬ ['*', '/'] <:+: body)
  | string (quote : Char) (body : Text) (hquote : quote = '"' ∨ quote = '\'')
      (hbody : IsStringText quote body)
  | template (fragment : Text) (hfragment : IsFragment fragment) (later : List TemplatePart)
  | word (w : Text) (hw : IsWord w)

/-- The inside of a template: a literal fragment, and other fragments with substitutions before
them. -/
def templateBody (fragment : Text) : List TemplatePart → Text
  | [] => fragment
  | p :: later => fragment ++ '$' :: '{' :: (p.code ++ ['}']) ++ templateBody p.fragment later

/-- The nodes of the fragments of a template whose inside starts at `offset`. -/
def templateNodes (offset : Nat) (fragment : Text) : List TemplatePart → List Node
  | [] => fragmentNode offset fragment
  | p :: later =>
    fragmentNode offset fragment
      ++ templateNodes (offset + fragment.byteLength + 2 + p.code.byteLength + 1) p.fragment later

namespace Segment

/-- A segment as it is written. -/
def source : Segment → Text
  | lineComment body _ => '/' :: '/' :: body
  | blockComment body _ => '/' :: '*' :: (body ++ ['*', '/'])
  | string quote body _ _ => quote :: (body ++ [quote])
  | template fragment _ later => '`' :: (templateBody fragment later ++ ['`'])
  | word w _ => w

/-- The nodes of a segment that is written at `offset`. -/
def nodesAt (offset : Nat) : Segment → List Node
  | lineComment body _ =>
    Node.ifAny ⟨.comment, body, offset, offset + 2 + body.byteLength, offset + 2, false⟩
  | blockComment body _ =>
    Node.ifAny ⟨.comment, body, offset, offset + 2 + body.byteLength + 2, offset + 2, false⟩
  | string _ body _ _ =>
    Node.ifAny ⟨.string, body, offset, offset + 1 + body.byteLength + 1, offset + 1, false⟩
  | template fragment _ later => templateNodes (offset + 1) fragment later
  | word w _ =>
    if keywords.contains w then []
    else [⟨.identifier, w, offset, offset + w.byteLength, offset, false⟩]

end Segment

/-- What comes after each segment. -/
def separator : Text := ['\n', ';', '\n']

/-- A file that is written of segments. -/
def render (segments : List Segment) : Text :=
  segments.flatMap fun s => s.source ++ separator

/-- The nodes of segments that are written one behind the other from `offset` on. -/
def renderedNodes (offset : Nat) : List Segment → List Node
  | [] => []
  | s :: rest =>
    s.nodesAt offset ++ renderedNodes (offset + s.source.byteLength + separator.byteLength) rest

/-! ## Readers -/

/-- A string is read up to its quote. -/
theorem stringBody_of_isStringText {quote : Char} {body : Text} (rest : Text)
    (hquote : quote ≠ '\\') (h : IsStringText quote body) :
    stringBody quote (body ++ quote :: rest) = (body, true) := by
  induction h with
  | nil => exact stringBody_stop rest hquote (.inl rfl)
  | escape d _ ih => rw [List.cons_append, List.cons_append, stringBody_escape, ih]
  | char hc hescape hline _ ih =>
    rw [List.cons_append, stringBody_char _ hescape (not_or.2 ⟨hc, hline⟩), ih]

/-- A literal fragment is read up to what closes it. -/
theorem fragmentBody_of_isFragment {fragment close : Text} (hclose : ClosesFragment close)
    (h : IsFragment fragment) : fragmentBody (fragment ++ close) = (fragment, close) := by
  induction h with
  | nil => exact hclose.fragmentBody_eq
  | escape d _ ih => rw [List.cons_append, List.cons_append, fragmentBody_escape, ih]
  | @char c t htick hescape hopen _ ih =>
    have hnext : ¬ (c = '$' ∧ (t ++ close).head? = some '{') := by
      rintro ⟨hc, hhead⟩
      cases t with
      | nil => exact hclose.head?_ne hhead
      | cons d t => exact hopen ⟨hc, hhead⟩
    rw [List.cons_append, fragmentBody_char ⟨htick, hescape⟩ hnext, ih]

/-- A substitution is skipped up to the brace that closes it. -/
theorem substitutionBody_of_isBalanced {depth : Nat} {code : Text} (rest : Text)
    (h : IsBalanced depth code) :
    substitutionBody depth (code ++ '}' :: rest) = (code ++ ['}'], rest) := by
  induction code generalizing depth with
  | nil =>
    have hdepth : depth = 0 := h
    simp [substitutionBody, hdepth]
  | cons c code ih =>
    rw [IsBalanced] at h
    have hstop : ¬ (c = '}' ∧ depth = 0) := by
      rintro ⟨rfl, rfl⟩
      exact absurd h.1 (Nat.lt_irrefl 0)
    have hcode : IsBalanced
        (if c = '{' then depth + 1 else if c = '}' then depth - 1 else depth) code := by
      by_cases hopen : c = '{'
      · rwa [if_pos hopen] at h ⊢
      · by_cases hclose : c = '}'
        · rw [if_neg hopen, if_pos hclose] at h ⊢
          exact h.2
        · rwa [if_neg hopen, if_neg hclose] at h ⊢
    rw [List.cons_append, substitutionBody, if_neg hstop]
    simp only [ih hcode, List.cons_append]

/-- A word starts where the scanner looks for one. -/
theorem IsWord.startsWord {c : Char} {w : Text} (h : IsWord (c :: w)) : startsWord c = true := by
  have hc := h.continues c List.mem_cons_self
  have hdigit := h.head c rfl
  unfold Source.startsWord continuesWord isAlphanumeric isNumericOnly at *
  cases halpha : isAlphabetic c with
  | true => rfl
  | false => simp_all

/-- A template is read up to its closing backtick. -/
theorem templateScan_of_isFragment {fragment : Text} (h : IsFragment fragment)
    (later : List TemplatePart) (start : Nat) (rest : Text) :
    let scan := templateScan start (templateBody fragment later ++ '`' :: rest)
    scan.taken = (templateBody fragment later ++ ['`']).length ∧ scan.closed = true ∧
      fragmentNodes scan.fragments = templateNodes start fragment later := by
  intro scan
  induction later generalizing start fragment with
  | nil =>
    have hbody : fragmentBody (fragment ++ ['`'] ++ rest) = (fragment, '`' :: rest) := by
      rw [List.append_assoc]
      exact fragmentBody_of_isFragment (.inl ⟨rest, rfl⟩) h
    have hscan := templateScan_of_backtick start hbody
    rwa [List.append_assoc] at hscan
  | cons p later ih =>
    let tail := templateBody p.fragment later ++ '`' :: rest
    have hbody : fragmentBody (fragment ++ '$' :: '{' :: (p.code ++ ['}']) ++ tail)
        = (fragment, '$' :: '{' :: (p.code ++ ['}'] ++ tail)) := by
      rw [List.append_assoc]
      exact fragmentBody_of_isFragment (.inr ⟨_, rfl⟩) h
    have hskip : substitutionBody 0 (p.code ++ ['}'] ++ tail) = (p.code ++ ['}'], tail) := by
      rw [List.append_assoc]
      exact substitutionBody_of_isBalanced tail p.balanced
    obtain ⟨htaken, hclosed, hnodes⟩ := templateScan_of_substitution start hbody hskip
    obtain ⟨htaken', hclosed', hnodes'⟩ := ih p.isFragment (start
      + (fragment ++ '$' :: '{' :: (p.code ++ ['}'])).byteLength)
    have hscan : scan = templateScan start
        (fragment ++ '$' :: '{' :: (p.code ++ ['}']) ++ tail) := by
      show templateScan start (_ ++ _) = _
      rw [templateBody, List.append_assoc]
    have hoffset : start + (fragment ++ '$' :: '{' :: (p.code ++ ['}'])).byteLength
        = start + fragment.byteLength + 2 + p.code.byteLength + 1 := by
      have hopen : '$'.utf8Size + '{'.utf8Size = 2 := rfl
      have hclose : '}'.utf8Size = 1 := rfl
      simp only [Text.byteLength_append, Text.byteLength_cons, Text.byteLength_nil]
      omega
    rw [hscan]
    refine ⟨?_, ?_, ?_⟩
    · rw [htaken, htaken', templateBody, List.append_assoc, ← List.length_append]
    · rw [hclosed, hclosed']
    · rw [hnodes, hnodes', hoffset, templateNodes]

/-! ## Steps -/

variable {hasElements : Bool} {frames : List Frame} {m : Memory}

/-- A step of the scanner that takes `body` after its first character. -/
theorem nodesFrom_of_step {offset : Nat} {c : Char} {s : Step} (body rest : Text)
    (hstep : step hasElements frames m offset c (body ++ rest) = s)
    (hextra : s.extra = body.length) :
    nodesFrom hasElements frames m offset (c :: (body ++ rest)) = s.nodes ++
      nodesFrom hasElements s.frames s.memory (offset + Text.byteLength (c :: body)) rest := by
  rw [nodesFrom]
  simp only [hstep, hextra, List.take_left, List.drop_left, Text.byteLength_cons]
  rw [Nat.add_assoc]

/-- The scanner forgets what it has passed. -/
theorem nodesFrom_separator (offset : Nat) (rest : Text) :
    nodesFrom hasElements [] m offset (separator ++ rest)
      = nodesFrom hasElements [] ⟨none, false, some ';'⟩ (offset + separator.byteLength) rest := by
  have hplain : ∀ c, c = '\n' ∨ c = ';' → ∀ (m : Memory) (o : Nat) (t : Text),
      step hasElements [] m o c t = codeChar [] m c := by
    rintro c (rfl | rfl) m o t
    all_goals
      show codeStep hasElements [] m o _ t = _
      rw [codeStep_plain (by simp) (by decide) (by decide), if_neg (by decide),
        if_neg (by decide), if_neg (by simp), if_neg (by simp)]
  have hline : ∀ (m : Memory) (o : Nat) (t : Text),
      step hasElements [] m o '\n' t = ⟨[], [], m, 0⟩ := hplain '\n' (.inl rfl)
  have hsemicolon : ∀ (m : Memory) (o : Nat) (t : Text),
      step hasElements [] m o ';' t = ⟨[], [], ⟨none, false, some ';'⟩, 0⟩ :=
    hplain ';' (.inr rfl)
  have hfirst := nodesFrom_of_step [] (';' :: '\n' :: rest) (hline m offset _) rfl
  have hsecond := nodesFrom_of_step [] ('\n' :: rest)
    (hsemicolon m (offset + Text.byteLength ['\n']) _) rfl
  have hthird := nodesFrom_of_step [] rest (hline ⟨none, false, some ';'⟩
    (offset + Text.byteLength ['\n'] + Text.byteLength [';']) _) rfl
  show nodesFrom hasElements [] m offset ('\n' :: ([] ++ ';' :: '\n' :: rest)) = _
  rw [hfirst, List.nil_append]
  show nodesFrom hasElements [] m _ (';' :: ([] ++ '\n' :: rest)) = _
  rw [hsecond, List.nil_append]
  show nodesFrom hasElements [] ⟨none, false, some ';'⟩ _ ('\n' :: ([] ++ rest)) = _
  rw [hthird, List.nil_append]
  rfl

/-! ## Segments are read back -/

theorem nodesFrom_lineComment {body : Text} (hbody : '\n' ∉ body) (offset : Nat) (rest : Text) :
    nodesFrom hasElements [] m offset ((Segment.lineComment body hbody).source ++ '\n' :: rest)
      = (Segment.lineComment body hbody).nodesAt offset ++ nodesFrom hasElements [] m
        (offset + (Segment.lineComment body hbody).source.byteLength) ('\n' :: rest) := by
  have hread : (body ++ '\n' :: rest).takeWhile (· != '\n') = body := by
    refine takeWhile_append_of_head (fun d hd => ?_) fun d hd => ?_
    · have hne : d ≠ '\n' := fun h => hbody (h ▸ hd)
      simpa using hne
    · obtain rfl : '\n' = d := Option.some.inj hd
      rfl
  have hstep : step hasElements [] m offset '/' ('/' :: body ++ '\n' :: rest)
      = ⟨(Segment.lineComment body hbody).nodesAt offset, [], m, 1 + body.length⟩ := by
    show codeStep hasElements [] m offset '/' ('/' :: (body ++ '\n' :: rest)) = _
    rw [codeStep_lineComment, lineComment, hread]
    rfl
  exact nodesFrom_of_step _ ('\n' :: rest) hstep (Nat.add_comm _ _)

theorem nodesFrom_blockComment {body : Text} (hbody : ¬ ['*', '/'] <:+: body) (offset : Nat)
    (rest : Text) :
    nodesFrom hasElements [] m offset ((Segment.blockComment body hbody).source ++ rest)
      = (Segment.blockComment body hbody).nodesAt offset ++ nodesFrom hasElements [] m
        (offset + (Segment.blockComment body hbody).source.byteLength) rest := by
  have hstep : step hasElements [] m offset '/' ('*' :: (body ++ ['*', '/']) ++ rest)
      = ⟨(Segment.blockComment body hbody).nodesAt offset, [], m, 1 + body.length + 2⟩ := by
    show codeStep hasElements [] m offset '/' ('*' :: (body ++ ['*', '/'] ++ rest)) = _
    rw [codeStep_blockComment, List.append_assoc]
    exact blockComment_of_closed offset rest hbody
  refine nodesFrom_of_step _ rest hstep ?_
  simp only [List.length_cons, List.length_append, List.length_nil]
  omega

theorem nodesFrom_string {quote : Char} {body : Text} (hquote : quote = '"' ∨ quote = '\'')
    (hbody : IsStringText quote body) (hm : m.expectsModule = false) (offset : Nat) (rest : Text) :
    nodesFrom hasElements [] m offset ((Segment.string quote body hquote hbody).source ++ rest)
      = (Segment.string quote body hquote hbody).nodesAt offset
        ++ nodesFrom hasElements [] ⟨none, false, some '"'⟩
          (offset + (Segment.string quote body hquote hbody).source.byteLength) rest := by
  have hescape : quote ≠ '\\' := ne_backslash_of_closes hquote (.inl rfl)
  have hstep : step hasElements [] m offset quote (body ++ [quote] ++ rest)
      = ⟨(Segment.string quote body hquote hbody).nodesAt offset, [],
        ⟨none, false, some '"'⟩, body.length + 1⟩ := by
    show codeStep hasElements [] m offset quote (body ++ [quote] ++ rest) = _
    rw [codeStep_quote hquote, stringLiteral, List.append_assoc, List.singleton_append,
      stringBody_of_isStringText rest hescape hbody, hm]
    rfl
  exact nodesFrom_of_step _ rest hstep (by simp)

theorem nodesFrom_template {fragment : Text} (hfragment : IsFragment fragment)
    (later : List TemplatePart) (offset : Nat) (rest : Text) :
    nodesFrom hasElements [] m offset
        ((Segment.template fragment hfragment later).source ++ rest)
      = (Segment.template fragment hfragment later).nodesAt offset
        ++ nodesFrom hasElements [] ⟨none, m.moduleCall, some '`'⟩
          (offset + (Segment.template fragment hfragment later).source.byteLength) rest := by
  obtain ⟨htaken, hclosed, hnodes⟩ :=
    templateScan_of_isFragment hfragment later (offset + 1) rest
  have hstep : step hasElements [] m offset '`' (templateBody fragment later ++ ['`'] ++ rest)
      = ⟨(Segment.template fragment hfragment later).nodesAt offset, [],
        ⟨none, m.moduleCall, some '`'⟩, (templateBody fragment later ++ ['`']).length⟩ := by
    show codeStep hasElements [] m offset '`' _ = _
    rw [codeStep_backtick, template, List.append_assoc, List.singleton_append, htaken, hclosed]
    exact congrArg (Step.mk · _ _ _) hnodes
  exact nodesFrom_of_step _ rest hstep rfl

theorem nodesFrom_word {w : Text} (hw : IsWord w) (offset : Nat) (rest : Text) :
    nodesFrom hasElements [] m offset ((Segment.word w hw).source ++ '\n' :: rest)
      = (Segment.word w hw).nodesAt offset ++ nodesFrom hasElements [] ⟨some w, false, some 'a'⟩
        (offset + (Segment.word w hw).source.byteLength) ('\n' :: rest) := by
  obtain ⟨c, t, rfl⟩ := List.exists_cons_of_ne_nil hw.ne_nil
  have hread : (t ++ '\n' :: rest).takeWhile continuesWord = t := by
    refine takeWhile_append_of_head (fun d hd => ?_) fun d hd => ?_
    · exact hw.continues d (List.mem_cons_of_mem c hd)
    · obtain rfl : '\n' = d := Option.some.inj hd
      rfl
  have hstep : step hasElements [] m offset c (t ++ '\n' :: rest)
      = ⟨(Segment.word (c :: t) hw).nodesAt offset, [], ⟨some (c :: t), false, some 'a'⟩,
        t.length⟩ := by
    show codeStep hasElements [] m offset c (t ++ '\n' :: rest) = _
    have hstart := hw.startsWord
    have hother : ∀ d, startsWord d = false → c ≠ d := by
      rintro d hd rfl
      rw [hstart] at hd
      cases hd
    rw [codeStep_plain (fun h => absurd h (hother '/' (by decide)))
      (not_or.2 ⟨hother '"' (by decide), hother '\'' (by decide)⟩) (hother '`' (by decide)),
      if_pos hstart, word, hread]
    rfl
  exact nodesFrom_of_step _ ('\n' :: rest) hstep rfl

/-- A segment that a new line follows is read back, whatever comes then, if the scanner does not
expect the name of a module. -/
theorem nodesFrom_segment (s : Segment) (hm : m.expectsModule = false) (offset : Nat)
    (rest : Text) :
    ∃ m', nodesFrom hasElements [] m offset (s.source ++ '\n' :: rest)
      = s.nodesAt offset
        ++ nodesFrom hasElements [] m' (offset + s.source.byteLength) ('\n' :: rest) := by
  cases s with
  | lineComment body hbody => exact ⟨_, nodesFrom_lineComment hbody offset rest⟩
  | blockComment body hbody => exact ⟨_, nodesFrom_blockComment hbody offset _⟩
  | string quote body hquote hbody => exact ⟨_, nodesFrom_string hquote hbody hm offset _⟩
  | template fragment hfragment later => exact ⟨_, nodesFrom_template hfragment later offset _⟩
  | word w hw => exact ⟨_, nodesFrom_word hw offset rest⟩

/-- Segments are read back one after the other. -/
theorem nodesFrom_render (segments : List Segment) (hm : m.expectsModule = false) (offset : Nat) :
    nodesFrom hasElements [] m offset (render segments) = renderedNodes offset segments := by
  induction segments generalizing m offset with
  | nil => rw [render, List.flatMap_nil, nodesFrom, renderedNodes]
  | cons s segments ih =>
    obtain ⟨m', hsegment⟩ := @nodesFrom_segment hasElements m s hm offset
      (';' :: '\n' :: render segments)
    have hsource : render (s :: segments)
        = s.source ++ '\n' :: ';' :: '\n' :: render segments := by
      rw [render, List.flatMap_cons, List.append_assoc]
      rfl
    have hseparator := @nodesFrom_separator hasElements m' (offset + s.source.byteLength)
      (render segments)
    rw [hsource, hsegment, renderedNodes]
    exact congrArg (s.nodesAt offset ++ ·) (hseparator.trans (ih rfl _))

/-- **Scanning finds just what was written.** -/
theorem nodes_render (language : Language) (segments : List Segment) :
    nodes language (render segments) = renderedNodes 0 segments :=
  nodesFrom_render segments rfl 0

example : nodes .jsx (render [.lineComment " é".toList (by decide),
      .string '"' "\\\"".toList (.inl rfl) (.escape '"' .nil),
      .template [] .nil [⟨"\x7b\x7d".toList, ⟨Nat.one_pos, rfl⟩, "x".toList,
        .char (by decide) (by decide) (by decide) .nil⟩]])
    = [⟨.comment, " é".toList, 0, 5, 2, false⟩, ⟨.string, "\\\"".toList, 8, 12, 9, false⟩,
      ⟨.template, "x".toList, 21, 22, 21, false⟩] := by
  decide +kernel

end CodeProse.Source

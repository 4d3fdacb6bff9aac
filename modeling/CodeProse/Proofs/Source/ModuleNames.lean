/-
# Names of modules

A string names a module if the code in front of it, white space and comments aside, is `from` or
`import`, or is the parenthesis that opens a call of `require` or `import`. The scanner tells this
from a few facts that it remembers (`Memory`). Here the code in front of a string is read back as a
row of lexemes instead, the nearest first, and what the scanner remembers is a property of that row
(`Remembers`, by induction over the scan).

So the scanner's answer is known for every string (`isModuleSpecifier_eq`). It is right just if
nothing in front of the string is overlooked (`recognisesModules_iff`): numbers are, and parentheses
behind `from` and `import`, and templates behind the parenthesis of a call. The argument of any
function or method with the name `from` is therefore taken for the name of a module
(`not_recognisesModules_of_from_call`).
-/
import CodeProse.Proofs.Source.Respelling

namespace CodeProse.Source

open Unicode

/-! ## Lexemes -/

/-- What a piece of code is. -/
inductive LexemeKind where
  | space
  | comment
  | string
  | template
  | word
  | number
  | sign
  deriving DecidableEq, Repr, Inhabited

/-- A piece of code as it is written. -/
structure Lexeme where
  kind : LexemeKind
  text : Text
  deriving DecidableEq, Repr, Inhabited

namespace Lexeme

/-- An open parenthesis. -/
def paren : Lexeme := ⟨.sign, ['(']⟩

/-- A word. -/
def ofWord (w : String) : Lexeme := ⟨.word, w.toList⟩

/-- White space and comments are no code. -/
def isCode (x : Lexeme) : Bool :=
  x.kind != .space && x.kind != .comment

end Lexeme

/-- What starts with the character `c`, if `t` follows it. -/
def lexemeKind (c : Char) (t : Text) : LexemeKind :=
  if c = '/' ∧ (t.head? = some '/' ∨ t.head? = some '*') then .comment
  else if c = '"' ∨ c = '\'' then .string
  else if c = '`' then .template
  else if startsWord c then .word
  else if c.isDigit then .number
  else if isWhitespace c then .space
  else .sign

/-- How many characters belong to what starts with `c`, after that one. -/
def lexemeExtra (c : Char) (t : Text) : Nat :=
  (codeStep false [] {} 0 c t).extra

/-- The lexemes of a file without elements. -/
def lexemes : Text → List Lexeme
  | [] => []
  | c :: t =>
    ⟨lexemeKind c t, c :: t.take (lexemeExtra c t)⟩ :: lexemes (t.drop (lexemeExtra c t))
termination_by t => t.length
decreasing_by simp only [List.length_drop, List.length_cons]; omega

/-- Lexemes that stop at or before an offset. -/
def lexemesBefore (offset : Nat) : List Lexeme → List Lexeme
  | [] => []
  | x :: rest =>
    if x.text.byteLength ≤ offset then x :: lexemesBefore (offset - x.text.byteLength) rest else []

/-- The code in front of an offset of a file, the nearest first, without white space and comments. -/
def codeBefore (offset : Nat) (content : Text) : List Lexeme :=
  ((lexemesBefore offset (lexemes content)).filter Lexeme.isCode).reverse

/-! ## What names a module -/

/-- Whether a string that comes next names a module: after `from` or `import`, or after the
parenthesis that opens a call of `require` or `import`. -/
def introducesModule : List Lexeme → Bool
  | [] => false
  | x :: row =>
    x == .ofWord "from" || x == .ofWord "import"
      || x == .paren && row.head?.any fun y => y == .ofWord "require" || y == .ofWord "import"

/-- The strings of a file that name modules, and only they, are recognised as such; all others are
checked. -/
def RecognisesModules (content : Text) : Prop :=
  ∀ language : Language, language.hasElements = false → ∀ n ∈ nodes language content,
    n.kind = .string →
      n.isModuleSpecifier = introducesModule (codeBefore n.start content) ∧
        n.isCheckable = !introducesModule (codeBefore n.start content)

/-- Behind a word come numbers and open parentheses only. -/
def Trails (w : String) (row : List Lexeme) : Prop :=
  ∃ skipped rest, row = skipped ++ .ofWord w :: rest ∧
    ∀ x ∈ skipped, x.kind = .number ∨ x = .paren

/-- Behind an open parenthesis come numbers and templates only, and the parenthesis trails a word
that opens the call of a module. -/
def TrailsCall (row : List Lexeme) : Prop :=
  ∃ skipped rest, row = skipped ++ .paren :: rest ∧
    (∀ x ∈ skipped, x.kind = .number ∨ x.kind = .template) ∧
      (Trails "require" rest ∨ Trails "import" rest)

/-- A string that comes next does not name a module but trails a word that could introduce one, over
numbers, parentheses or templates. -/
def IsMisread (row : List Lexeme) : Prop :=
  introducesModule row = false ∧ (Trails "from" row ∨ Trails "import" row ∨ TrailsCall row)

/-! ## What the scanner remembers -/

/-- The word that the scanner remembers of the code in front, the nearest first. -/
def lastWord : List Lexeme → Option Text
  | [] => none
  | x :: row =>
    match x.kind with
    | .space | .comment | .number => lastWord row
    | .sign => if x = .paren then lastWord row else none
    | .word => some x.text
    | .string | .template => none

/-- Whether a word may open the call of a module. -/
def opensModule (w : Option Text) : Bool :=
  w == some "require".toList || w == some "import".toList

/-- Whether the scanner remembers the parenthesis of a call that names a module. -/
def followsCall : List Lexeme → Bool
  | [] => false
  | x :: row =>
    match x.kind with
    | .space | .comment | .number | .template => followsCall row
    | .sign => x == .paren && opensModule (lastWord row)
    | .word | .string => false

/-- The memory of the scanner behind a row of lexemes, as far as strings are concerned. -/
structure Remembers (m : Memory) (row : List Lexeme) : Prop where
  word : m.word = lastWord row
  moduleCall : m.moduleCall = followsCall row

/-- Whether the scanner takes a string that comes next for the name of a module. -/
def readsModule (row : List Lexeme) : Bool :=
  followsCall row || lastWord row == some "from".toList || lastWord row == some "import".toList

theorem Remembers.expectsModule {m : Memory} {row : List Lexeme} (h : Remembers m row) :
    m.expectsModule = readsModule row := by
  rw [Memory.expectsModule, readsModule, h.word, h.moduleCall]

/-! ## One step -/

/-- How far a template reaches does not depend on where it stands. -/
theorem taken_templateFrom (depth start offset start' offset' : Nat) (reversed reversed' t : Text) :
    (templateFrom depth start offset reversed t).taken
      = (templateFrom depth start' offset' reversed' t).taken := by
  fun_induction templateFrom depth start offset reversed t generalizing start' offset' reversed' with
  | case1 => simp [templateFrom]
  | case2 start offset reversed c t next d depth ih =>
    rw [templateFrom]
    exact congrArg (· + 1) (ih _ _ _)
  | case3 => simp [templateFrom.eq_def]
  | case4 start offset reversed c hc => simp [templateFrom.eq_def, hc]
  | case5 start offset reversed d t next _ ih =>
    rw [templateFrom, if_neg (by decide), if_pos rfl]
    exact congrArg (· + 2) (ih _ _ _)
  | case6 start offset reversed c next hc d t hescape hopen ih =>
    rw [templateFrom, if_neg hc, if_neg hescape, if_pos hopen]
    exact congrArg (· + 2) (ih _ _ _)
  | case7 start offset reversed c next hc d t hescape hopen ih =>
    rw [templateFrom, if_neg hc, if_neg hescape, if_neg hopen]
    exact congrArg (· + 1) (ih _ _ _)

/-- A template that nothing closes takes all there is. -/
theorem taken_of_not_closed {depth start offset : Nat} {reversed t : Text}
    (h : (templateFrom depth start offset reversed t).closed = false) :
    (templateFrom depth start offset reversed t).taken = t.length := by
  fun_induction templateFrom depth start offset reversed t with
  | case1 => rfl
  | case2 start offset reversed c t next d depth ih => exact congrArg (· + 1) (ih h)
  | case3 => cases h
  | case4 => rfl
  | case5 start offset reversed d t next _ ih => exact congrArg (· + 2) (ih h)
  | case6 start offset reversed c next hc d t hescape hopen ih => exact congrArg (· + 2) (ih h)
  | case7 start offset reversed c next hc d t hescape hopen ih => exact congrArg (· + 1) (ih h)

/-- How far a lexeme reaches does not depend on what the scanner remembers, or on where it is. -/
theorem extra_codeStep (m : Memory) (offset : Nat) (c : Char) (t : Text) :
    (codeStep false [] m offset c t).extra = lexemeExtra c t := by
  have htemplate : (templateScan (offset + 1) t).taken = (templateScan (0 + 1) t).taken :=
    taken_templateFrom _ _ _ _ _ _ _ _
  have hblock : (blockComment [] m offset (t.drop 1)).extra
      = (blockComment [] {} 0 (t.drop 1)).extra := by
    rw [blockComment, blockComment]
    split <;> rfl
  have hchar : (codeChar [] m c).extra = (codeChar [] {} c).extra := by
    rw [codeChar, codeChar]
    split <;> rfl
  have hopen : ∀ m : Memory, ¬ (c = '<' ∧ opensTag false m t = true) := by simp [opensTag]
  have hclose : ¬ (c = '}' ∧ ([] : List Frame).head? = some (.container 0)) := by simp
  rw [lexemeExtra, codeStep, codeStep]
  simp only [hopen, hclose, if_false]
  repeat' split
  · rfl
  · exact hblock
  · rfl
  · exact htemplate
  · rfl
  · rfl
  · exact hchar

/-- What a step that reads the lexeme `x` comes to in code without elements: the lexeme is
remembered if there is more to come, and a string in it is taken for the name of a module by what was
remembered before. -/
structure Passes (row : List Lexeme) (offset : Nat) (x : Lexeme) (rest : Text) (s : Step) :
    Prop where
  frames : s.frames = []
  remembers : rest = [] ∨ Remembers s.memory (x :: row)
  strings : ∀ n ∈ s.nodes, n.kind = .string →
    n.start = offset ∧ n.isModuleSpecifier = readsModule row

theorem mem_ifAny {n n' : Node} (h : n' ∈ n.ifAny) : n' = n := by
  rw [Node.ifAny] at h
  split at h
  · cases h
  · exact List.mem_singleton.1 h

variable {m : Memory} {row : List Lexeme}

/-- White space and comments are not remembered. -/
theorem Remembers.skip (h : Remembers m row) {x : Lexeme} (hx : x.isCode = false) :
    Remembers m (x :: row) := by
  obtain ⟨kind, text⟩ := x
  cases kind <;> first | exact ⟨h.word, h.moduleCall⟩ | cases hx

theorem passes_lineComment (h : Remembers m row) (offset : Nat) (t text rest : Text) :
    Passes row offset ⟨.comment, text⟩ rest (lineComment [] m offset t) where
  frames := rfl
  remembers := .inr (h.skip rfl)
  strings n hn hstring := by
    rw [mem_ifAny hn] at hstring
    cases hstring

theorem passes_blockComment (h : Remembers m row) (offset : Nat) (t text rest : Text) :
    Passes row offset ⟨.comment, text⟩ rest (blockComment [] m offset t) := by
  rw [blockComment]
  split
  all_goals
    constructor
    case frames => rfl
    case remembers => exact .inr (h.skip rfl)
    case strings =>
      intro n hn hstring
      rw [mem_ifAny hn] at hstring
      cases hstring

/-- A string is taken for the name of a module by what was remembered, and all that is forgotten. -/
theorem passes_stringLiteral (h : Remembers m row) (offset : Nat) (quote : Char)
    (t text rest : Text) :
    Passes row offset ⟨.string, text⟩ rest (stringLiteral [] m offset quote t) where
  frames := rfl
  remembers := .inr ⟨rfl, rfl⟩
  strings n hn _ := by
    rw [mem_ifAny hn]
    exact ⟨rfl, h.expectsModule⟩

/-- A template does not make the scanner forget that a call was opened. -/
theorem passes_template (h : Remembers m row) (offset : Nat) (t text : Text) :
    Passes row offset ⟨.template, text⟩ (t.drop (templateScan (offset + 1) t).taken)
      (template [] m offset t) where
  frames := rfl
  remembers := by
    cases hclosed : (templateScan (offset + 1) t).closed with
    | false =>
      refine .inl ?_
      rw [templateScan, taken_of_not_closed hclosed, List.drop_length]
    | true =>
      refine .inr ⟨?_, ?_⟩
      · simp [template, hclosed, lastWord]
      · simp [template, hclosed, followsCall, h.moduleCall]
  strings n hn hstring := by
    obtain ⟨f, -, hn⟩ := List.mem_flatMap.1 hn
    rw [mem_ifAny hn] at hstring
    cases hstring

theorem passes_word (offset : Nat) (c : Char) (t rest : Text) :
    Passes row offset ⟨.word, c :: t.takeWhile continuesWord⟩ rest (word [] offset c t) where
  frames := rfl
  remembers := .inr ⟨rfl, rfl⟩
  strings n hn hstring := by
    simp only [word] at hn
    split at hn
    · cases hn
    · rw [List.mem_singleton.1 hn] at hstring
      cases hstring

/-- Numbers are overlooked. -/
theorem passes_number (h : Remembers m row) (offset extra : Nat) (text rest : Text) :
    Passes row offset ⟨.number, text⟩ rest ⟨[], [], { m with last := some '0' }, extra⟩ where
  frames := rfl
  remembers := .inr ⟨h.word, h.moduleCall⟩
  strings := by simp

theorem passes_space (h : Remembers m row) (offset : Nat) {c : Char} (text rest : Text)
    (hc : isWhitespace c = true) : Passes row offset ⟨.space, text⟩ rest (codeChar [] m c) := by
  rw [codeChar, if_pos hc]
  exact ⟨rfl, .inr (h.skip rfl), by simp⟩

/-- A sign is forgotten with all that comes before it, unless it is an open parenthesis. -/
theorem passes_sign (h : Remembers m row) (offset : Nat) {c : Char} (rest : Text)
    (hc : isWhitespace c = false) : Passes row offset ⟨.sign, [c]⟩ rest (codeChar [] m c) := by
  rw [codeChar, if_neg (by simp [hc])]
  refine ⟨rfl, .inr ⟨?_, ?_⟩, by simp⟩
  · simp [lastWord, Lexeme.paren, h.word]
  · simp [followsCall, opensModule, Lexeme.paren, h.word, Bool.beq_eq_decide_eq]

/-- **What one step does to what is remembered.** -/
theorem passes_codeStep (h : Remembers m row) (offset : Nat) (c : Char) (t : Text) :
    Passes row offset ⟨lexemeKind c t, c :: t.take (lexemeExtra c t)⟩ (t.drop (lexemeExtra c t))
      (codeStep false [] m offset c t) := by
  have hextra := extra_codeStep m offset c t
  rw [codeStep] at hextra ⊢
  split at hextra
  case isTrue hline =>
    rw [if_pos hline, lexemeKind, if_pos ⟨hline.1, .inl hline.2⟩]
    exact passes_lineComment h offset _ _ _
  case isFalse hline =>
  rw [if_neg hline]
  split at hextra
  case isTrue hblock =>
    rw [if_pos hblock, lexemeKind, if_pos ⟨hblock.1, .inr hblock.2⟩]
    exact passes_blockComment h offset _ _ _
  case isFalse hblock =>
  have hcomment : ¬ (c = '/' ∧ (t.head? = some '/' ∨ t.head? = some '*')) :=
    fun hc => hc.2.elim (fun hslash => hline ⟨hc.1, hslash⟩) fun hstar => hblock ⟨hc.1, hstar⟩
  rw [if_neg hblock, lexemeKind, if_neg hcomment]
  split at hextra
  case isTrue hquote =>
    rw [if_pos hquote, if_pos hquote]
    exact passes_stringLiteral h offset c _ _ _
  case isFalse hquote =>
  rw [if_neg hquote, if_neg hquote]
  split at hextra
  case isTrue htick =>
    rw [if_pos htick, if_pos htick, ← hextra]
    exact passes_template h offset t _
  case isFalse htick =>
  rw [if_neg htick, if_neg htick]
  split at hextra
  case isTrue hword =>
    rw [if_pos hword, if_pos hword, ← hextra]
    simp only [word, List.length_cons, Nat.add_sub_cancel, take_length_takeWhile]
    exact passes_word offset c t _
  case isFalse hword =>
  rw [if_neg hword, if_neg hword]
  split at hextra
  case isTrue hdigit =>
    rw [if_pos hdigit, if_pos hdigit]
    exact passes_number h offset _ _ _
  case isFalse hdigit =>
  have hopen : ¬ (c = '<' ∧ opensTag false m t = true) := by simp [opensTag]
  have hclose : ¬ (c = '}' ∧ ([] : List Frame).head? = some (.container 0)) := by simp
  rw [if_neg hopen, if_neg hclose] at hextra ⊢
  rw [if_neg hdigit, if_neg hdigit, ← hextra]
  cases hspace : isWhitespace c with
  | true =>
    rw [if_pos rfl]
    exact passes_space h offset _ _ hspace
  | false =>
    have hzero : (codeChar [] m c).extra = 0 := by rw [codeChar]; split <;> rfl
    rw [if_neg Bool.false_ne_true, hzero, List.take_zero]
    exact passes_sign h offset _ hspace

/-! ## The scan -/

/-- **Each string that the scan finds is a lexeme**, and what is remembered of the lexemes in front
of it tells whether it is taken for the name of a module. -/
theorem exists_lexemes_of_mem_nodesFrom (h : Remembers m row) (offset : Nat) (t : Text) {n : Node}
    (hn : n ∈ nodesFrom false [] m offset t) (hstring : n.kind = .string) :
    ∃ before x after, lexemes t = before ++ x :: after ∧
      n.start = offset + Text.byteLength (before.flatMap (·.text)) ∧
      n.isModuleSpecifier = readsModule (before.reverse ++ row) := by
  -- by induction on the length: a step takes one lexeme
  induction hlength : t.length using Nat.strongRecOn generalizing m row offset t with
  | ind k ih =>
    cases t with
    | nil =>
      rw [nodesFrom] at hn
      cases hn
    | cons c t =>
      rw [nodesFrom] at hn
      simp only [List.mem_append] at hn
      have hpasses := passes_codeStep h offset c t
      have hextra := extra_codeStep m offset c t
      have hstep : step false [] m offset c t = codeStep false [] m offset c t := rfl
      rw [hstep, hpasses.frames, hextra] at hn
      rw [lexemes]
      rcases hn with hn | hn
      · obtain ⟨hstart, hmodule⟩ := hpasses.strings n hn hstring
        exact ⟨[], _, _, rfl, hstart, hmodule⟩
      · rcases hpasses.remembers with hrest | hremembers
        · rw [hrest, nodesFrom] at hn
          cases hn
        · have hless : (t.drop (lexemeExtra c t)).length < k := by
            rw [← hlength, List.length_drop, List.length_cons]
            omega
          obtain ⟨before, x, after, hlexemes, hstart, hmodule⟩ :=
            ih _ hless hremembers _ _ hn rfl
          refine ⟨_ :: before, x, after, by rw [hlexemes]; rfl, ?_, ?_⟩
          · rw [hstart, List.flatMap_cons, Text.byteLength_append, Text.byteLength_cons]
            omega
          · rw [hmodule, List.reverse_cons, List.append_assoc]
            rfl

/-! ## The code in front of a string -/

/-- The lexemes of a file make it up. -/
theorem flatMap_lexemes (t : Text) : (lexemes t).flatMap (·.text) = t := by
  fun_induction lexemes t with
  | case1 => rfl
  | case2 c t ih =>
    rw [List.flatMap_cons, ih, List.cons_append, List.take_append_drop]

theorem text_ne_nil_of_mem_lexemes {t : Text} {x : Lexeme} (h : x ∈ lexemes t) : x.text ≠ [] := by
  fun_induction lexemes t with
  | case1 => cases h
  | case2 c t ih =>
    rcases List.mem_cons.1 h with rfl | h
    · simp
    · exact ih h

/-- What stops before the offset where a lexeme starts are the lexemes in front of it. -/
theorem lexemesBefore_append {before after : List Lexeme} {x : Lexeme} (hx : x.text ≠ []) :
    lexemesBefore (Text.byteLength (before.flatMap (·.text))) (before ++ x :: after) = before := by
  induction before with
  | nil =>
    have hpos : x.text.byteLength ≠ 0 := by rwa [ne_eq, Text.byteLength_eq_zero_iff]
    simp [lexemesBefore, hpos]
  | cons y before ih =>
    rw [List.flatMap_cons, Text.byteLength_append, List.cons_append, lexemesBefore,
      if_pos (Nat.le_add_right _ _), Nat.add_sub_cancel_left, ih]

/-- What is no code does not matter to what is remembered. -/
theorem readsModule_filter (row : List Lexeme) :
    readsModule (row.filter Lexeme.isCode) = readsModule row := by
  have hsame : lastWord (row.filter Lexeme.isCode) = lastWord row ∧
      followsCall (row.filter Lexeme.isCode) = followsCall row := by
    induction row with
    | nil => exact ⟨rfl, rfl⟩
    | cons x row ih =>
      obtain ⟨kind, text⟩ := x
      cases kind <;>
        simp [List.filter_cons, Lexeme.isCode, lastWord, followsCall, ih.1, ih.2]
  rw [readsModule, readsModule, hsame.1, hsame.2]

/-- **A string is taken for the name of a module by the code in front of it alone.** -/
theorem isModuleSpecifier_eq {language : Language} (hlanguage : language.hasElements = false)
    {content : Text} {n : Node} (hn : n ∈ nodes language content) (hstring : n.kind = .string) :
    n.isModuleSpecifier = readsModule (codeBefore n.start content) := by
  have hinitial : Remembers {} [] := ⟨rfl, rfl⟩
  rw [nodes, hlanguage] at hn
  obtain ⟨before, x, after, hlexemes, hstart, hmodule⟩ :=
    exists_lexemes_of_mem_nodesFrom hinitial 0 content hn hstring
  have hx : x.text ≠ [] := text_ne_nil_of_mem_lexemes (t := content) (by rw [hlexemes]; simp)
  rw [codeBefore, hlexemes, hstart, Nat.zero_add, lexemesBefore_append hx, hmodule,
    List.append_nil, ← List.filter_reverse, readsModule_filter]

/-! ## What the scanner overlooks -/

theorem isCode_of_mem_codeBefore {offset : Nat} {content : Text} :
    ∀ x ∈ codeBefore offset content, x.isCode = true := by
  intro x hx
  rw [codeBefore, List.mem_reverse, List.mem_filter] at hx
  exact hx.2

/-- What comes behind skipped lexemes is the first one, or comes behind more of them. -/
theorem exists_skipped_cons {skips : Lexeme → Prop} {p : List Lexeme → Prop} {x y : Lexeme} :
    (∃ skipped rest, x :: row = skipped ++ y :: rest ∧ (∀ z ∈ skipped, skips z) ∧ p rest) ↔
      x = y ∧ p row ∨
        skips x ∧ ∃ skipped rest, row = skipped ++ y :: rest ∧ (∀ z ∈ skipped, skips z) ∧ p rest := by
  constructor
  · rintro ⟨skipped, rest, hrow, hskipped, hrest⟩
    cases skipped with
    | nil =>
      obtain ⟨rfl, rfl⟩ := List.cons.inj hrow
      exact .inl ⟨rfl, hrest⟩
    | cons z skipped =>
      obtain ⟨rfl, rfl⟩ := List.cons.inj hrow
      exact .inr ⟨hskipped x List.mem_cons_self, skipped, rest, rfl,
        fun z hz => hskipped z (List.mem_cons_of_mem x hz), hrest⟩
  · rintro (⟨rfl, hrest⟩ | ⟨hx, skipped, rest, rfl, hskipped, hrest⟩)
    · exact ⟨[], row, rfl, by simp, hrest⟩
    · refine ⟨x :: skipped, rest, rfl, fun z hz => ?_, hrest⟩
      rcases List.mem_cons.1 hz with rfl | hz
      · exact hx
      · exact hskipped z hz

theorem trails_cons_iff {w : String} {x : Lexeme} :
    Trails w (x :: row) ↔ x = .ofWord w ∨ (x.kind = .number ∨ x = .paren) ∧ Trails w row := by
  have hcons := @exists_skipped_cons row (fun z => z.kind = .number ∨ z = .paren) (fun _ => True) x
    (.ofWord w)
  simpa only [Trails, and_true] using hcons

theorem trailsCall_cons_iff {x : Lexeme} :
    TrailsCall (x :: row) ↔
      x = .paren ∧ (Trails "require" row ∨ Trails "import" row) ∨
        (x.kind = .number ∨ x.kind = .template) ∧ TrailsCall row :=
  exists_skipped_cons

/-- The scanner remembers a word until something else than numbers and open parentheses comes. -/
theorem lastWord_eq_some_iff (hcode : ∀ x ∈ row, x.isCode = true) (w : String) :
    lastWord row = some w.toList ↔ Trails w row := by
  induction row with
  | nil => simp [lastWord, Trails]
  | cons x row ih =>
    have ih := ih fun y hy => hcode y (List.mem_cons_of_mem x hy)
    have hx := hcode x List.mem_cons_self
    rw [trails_cons_iff, ← ih]
    obtain ⟨kind, text⟩ := x
    cases kind <;> simp [lastWord, Lexeme.ofWord, Lexeme.paren, Lexeme.isCode] at hx ⊢

/-- The scanner remembers the parenthesis of a call until something else than numbers and templates
comes. -/
theorem followsCall_eq_true_iff (hcode : ∀ x ∈ row, x.isCode = true) :
    followsCall row = true ↔ TrailsCall row := by
  induction row with
  | nil => simp [followsCall, TrailsCall]
  | cons x row ih =>
    have hrow : ∀ y ∈ row, y.isCode = true := fun y hy => hcode y (List.mem_cons_of_mem x hy)
    have ih := ih hrow
    have hx := hcode x List.mem_cons_self
    have hopens : opensModule (lastWord row) = true ↔ Trails "require" row ∨ Trails "import" row := by
      rw [opensModule, Bool.or_eq_true, beq_iff_eq, beq_iff_eq, lastWord_eq_some_iff hrow,
        lastWord_eq_some_iff hrow]
    rw [trailsCall_cons_iff, ← ih, ← hopens]
    obtain ⟨kind, text⟩ := x
    cases kind <;> simp [followsCall, Lexeme.paren, Lexeme.isCode] at hx ⊢

theorem readsModule_eq_true_iff (hcode : ∀ x ∈ row, x.isCode = true) :
    readsModule row = true ↔ Trails "from" row ∨ Trails "import" row ∨ TrailsCall row := by
  rw [readsModule, Bool.or_eq_true, Bool.or_eq_true, beq_iff_eq, beq_iff_eq,
    followsCall_eq_true_iff hcode, lastWord_eq_some_iff hcode, lastWord_eq_some_iff hcode,
    or_assoc, or_comm, or_assoc]

/-- A word that comes directly before trails over nothing. -/
theorem Trails.of_head {w : String} {x : Lexeme} (h : x = .ofWord w) : Trails w (x :: row) :=
  trails_cons_iff.2 (.inl h)

/-- What introduces the name of a module is never overlooked. -/
theorem trails_of_introducesModule (h : introducesModule row = true) :
    Trails "from" row ∨ Trails "import" row ∨ TrailsCall row := by
  cases row with
  | nil => cases h
  | cons x row =>
    simp only [introducesModule, Bool.or_eq_true, Bool.and_eq_true, beq_iff_eq] at h
    rcases h with (hfrom | himport) | ⟨rfl, hcall⟩
    · exact .inl (Trails.of_head hfrom)
    · exact .inr (.inl (Trails.of_head himport))
    · cases row with
      | nil => cases hcall
      | cons y row =>
        simp only [List.head?_cons, Option.any_some, Bool.or_eq_true, beq_iff_eq] at hcall
        exact .inr (.inr (trailsCall_cons_iff.2
          (.inl ⟨rfl, hcall.imp (Trails.of_head ·) (Trails.of_head ·)⟩)))

/-- So the scanner errs on one side only: it may take a string for the name of a module that is
not one. -/
theorem readsModule_eq_iff (hcode : ∀ x ∈ row, x.isCode = true) :
    readsModule row = introducesModule row ↔ ¬ IsMisread row := by
  have htrails := readsModule_eq_true_iff hcode
  have hintroduces : introducesModule row = true → readsModule row = true :=
    fun h => htrails.2 (trails_of_introducesModule h)
  rw [IsMisread, ← htrails]
  cases hreads : readsModule row <;> cases hmodule : introducesModule row
  · simp
  · exact absurd (hintroduces hmodule) (by simp [hreads])
  · simp
  · simp

/-- **Where the names of modules are recognised**: just if no string of the file trails a word that
could introduce one. -/
theorem recognisesModules_iff (content : Text) :
    RecognisesModules content ↔ ∀ n ∈ nodes .javaScript content, n.kind = .string →
      ¬ IsMisread (codeBefore n.start content) := by
  have hright : ∀ language : Language, language.hasElements = false →
      ∀ n ∈ nodes language content, n.kind = .string →
        ((n.isModuleSpecifier = introducesModule (codeBefore n.start content) ∧
            n.isCheckable = !introducesModule (codeBefore n.start content)) ↔
          ¬ IsMisread (codeBefore n.start content)) := by
    intro language hlanguage n hn hstring
    have hcheckable : n.isCheckable = !n.isModuleSpecifier := by simp [Node.isCheckable, hstring]
    rw [← readsModule_eq_iff isCode_of_mem_codeBefore, hcheckable,
      isModuleSpecifier_eq hlanguage hn hstring]
    exact ⟨And.left, fun h => ⟨h, congrArg _ h⟩⟩
  constructor
  · exact fun h n hn hstring => (hright .javaScript rfl n hn hstring).1 (h _ rfl n hn hstring)
  · intro h language hlanguage n hn hstring
    have hsame : nodes language content = nodes .javaScript content := by
      rw [nodes, nodes, hlanguage]
      rfl
    exact (hright language hlanguage n hn hstring).2 (h n (hsame ▸ hn) hstring)

/-- The argument of a method `from` is taken for the name of a module. -/
theorem not_recognisesModules_of_from_call : ¬ RecognisesModules "Array.from('login')".toList := by
  intro h
  have hscan : ∃ n ∈ nodes .javaScript "Array.from('login')".toList,
      n.kind = .string ∧ n.isModuleSpecifier = true ∧
        introducesModule (codeBefore n.start "Array.from('login')".toList) = false := by
    decide +kernel
  obtain ⟨n, hn, hstring, hmodule, hintroduces⟩ := hscan
  have hright := (h .javaScript rfl n hn hstring).1
  rw [hmodule, hintroduces] at hright
  cases hright

end CodeProse.Source

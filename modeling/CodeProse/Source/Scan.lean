/-
# Scanning source code

One pass over a file finds its nodes. The scanner reads code, the inside of tags and the text between
tags; a stack says what it is inside of, and a few facts about the code just passed decide what a
`<` and a string mean. Every step takes at least one character, so the scan ends.

Regular expression literals are not recognised: a slash is special only where it starts a comment.
-/
import CodeProse.Source.Language
import CodeProse.Source.Lexeme
import CodeProse.Source.Node
import CodeProse.Text.Blank

namespace CodeProse.Source

open Unicode

/-! ## State -/

/-- What the scanner is inside of. -/
inductive Frame where
  /-- Code between braces in a tag or between tags, with `depth` braces of its own open. -/
  | container (depth : Nat)
  /-- A tag, after its `<`. -/
  | tag
  /-- The text between an opening and a closing tag. -/
  | children
  deriving DecidableEq, Repr, Inhabited

/-- What the scanner remembers of the code it has passed. -/
structure Memory where
  /-- The last word, as long as nothing but numbers and opening parentheses came after it. -/
  word : Option Text := none
  /-- Whether the last thing was the parenthesis that opens a call of `require` or `import`. -/
  moduleCall : Bool := false
  /-- The last significant character; a word counts as a letter. -/
  last : Option Char := none
  deriving DecidableEq, Repr, Inhabited

/-- What one step of the scanner does. -/
structure Step where
  /-- The nodes found. -/
  nodes : List Node
  frames : List Frame
  memory : Memory
  /-- How many characters the step takes after its first one. -/
  extra : Nat
  deriving Repr, Inhabited

/-! ## Steps in code -/

/-- A line comment, after its two slashes. -/
def lineComment (frames : List Frame) (m : Memory) (offset : Nat) (t : Text) : Step :=
  let body := t.takeWhile (· != '\n')
  ⟨Node.ifAny ⟨.comment, body, offset, offset + 2 + Text.byteLength body, offset + 2, false⟩,
    frames, m, 1 + body.length⟩

/-- A block comment, after its slash and star. -/
def blockComment (frames : List Frame) (m : Memory) (offset : Nat) (t : Text) : Step :=
  match Text.splitFirst? ['*', '/'] t with
  | some (body, _) =>
    ⟨Node.ifAny ⟨.comment, body, offset, offset + 2 + Text.byteLength body + 2, offset + 2, false⟩,
      frames, m, 1 + body.length + 2⟩
  | none =>
    ⟨Node.ifAny ⟨.comment, t, offset, offset + 2 + Text.byteLength t, offset + 2, false⟩,
      frames, m, 1 + t.length⟩

/-- Whether a string that comes next names a module. -/
def Memory.expectsModule (m : Memory) : Bool :=
  m.moduleCall || m.word == some "from".toList || m.word == some "import".toList

/-- A string, after its opening quote. -/
def stringLiteral (frames : List Frame) (m : Memory) (offset : Nat) (quote : Char) (t : Text) :
    Step :=
  let r := stringBody quote t
  let closing := if r.2 then 1 else 0
  ⟨Node.ifAny ⟨.string, r.1, offset, offset + 1 + Text.byteLength r.1 + closing, offset + 1,
      m.expectsModule⟩,
    frames, ⟨none, false, some '"'⟩, r.1.length + closing⟩

/-- A template, after its opening backtick. Each literal fragment is a node of its own. -/
def template (frames : List Frame) (m : Memory) (offset : Nat) (t : Text) : Step :=
  let r := templateScan (offset + 1) t
  ⟨r.fragments.flatMap fun f =>
      Node.ifAny ⟨.template, f.2, f.1, f.1 + Text.byteLength f.2, f.1, false⟩,
    frames, if r.closed then ⟨none, m.moduleCall, some '`'⟩ else m, r.taken⟩

/-- A word that starts with `c`. -/
def word (frames : List Frame) (offset : Nat) (c : Char) (t : Text) : Step :=
  let w := c :: t.takeWhile continuesWord
  ⟨if keywords.contains w then []
    else [⟨.identifier, w, offset, offset + Text.byteLength w, offset, false⟩],
    frames, ⟨some w, false, some 'a'⟩, w.length - 1⟩

/-- The characters after which an expression may start. -/
def beforeExpression : List Char :=
  ['(', ',', '=', '?', ':', '{', '[', '&', '|', '!', ';', '>']

/-- Whether a `<` that is followed by `t` opens a tag. It does so only where an expression may start,
so that comparisons and type arguments stay code. -/
def opensTag (hasElements : Bool) (m : Memory) (t : Text) : Bool :=
  hasElements && (t.head?.any fun c => isAlphabetic c || c == '>')
    && (m.word == some "return".toList || m.last.all beforeExpression.contains)

/-- A tag opens. -/
def openTag (frames : List Frame) (m : Memory) : Step :=
  ⟨[], .tag :: frames, ⟨none, false, m.last⟩, 0⟩

/-- An element ends after `extra` more characters. -/
def closeElement (frames : List Frame) (m : Memory) (extra : Nat) : Step :=
  ⟨[], frames.drop 1, ⟨none, m.moduleCall, some 'a'⟩, extra⟩

/-- Counts a brace of the code in a container. -/
def countBrace (c : Char) : List Frame → List Frame
  | .container depth :: rest =>
    (if c = '{' then .container (depth + 1)
      else if c = '}' then .container (depth - 1)
      else .container depth) :: rest
  | frames => frames

/-- Any other character of code. -/
def codeChar (frames : List Frame) (m : Memory) (c : Char) : Step :=
  if isWhitespace c then ⟨[], frames, m, 0⟩
  else
    ⟨[], countBrace c frames,
      { word := if c = '(' then m.word else none
        moduleCall :=
          c == '(' && (m.word == some "require".toList || m.word == some "import".toList)
        last := some c }, 0⟩

/-- A step in code. -/
def codeStep (hasElements : Bool) (frames : List Frame) (m : Memory) (offset : Nat) (c : Char)
    (t : Text) : Step :=
  if c = '/' ∧ t.head? = some '/' then lineComment frames m offset (t.drop 1)
  else if c = '/' ∧ t.head? = some '*' then blockComment frames m offset (t.drop 1)
  else if c = '"' ∨ c = '\'' then stringLiteral frames m offset c t
  else if c = '`' then template frames m offset t
  else if startsWord c then word frames offset c t
  else if c.isDigit then
    ⟨[], frames, { m with last := some '0' }, (t.takeWhile continuesNumber).length⟩
  else if c = '<' ∧ opensTag hasElements m t then openTag frames m
  else if c = '}' ∧ frames.head? = some (.container 0) then
    ⟨[], frames.drop 1, { m with last := some '}' }, 0⟩
  else codeChar frames m c

/-! ## Steps in elements -/

/-- A step in a tag. -/
def tagStep (frames : List Frame) (m : Memory) (offset : Nat) (c : Char) (t : Text) : Step :=
  if c = '"' ∨ c = '\'' then stringLiteral frames m offset c t
  else if c = '{' then ⟨[], .container 0 :: frames, m, 0⟩
  else if c = '/' ∧ t.head? = some '>' then closeElement frames m 1
  else if c = '>' then ⟨[], .children :: frames.drop 1, m, 0⟩
  else ⟨[], frames, m, 0⟩

/-- Whether `c` ends a stretch of text between tags. -/
def endsChildText (c : Char) : Bool :=
  c == '<' || c == '{'

/-- A step between tags. Text is trimmed; a closing tag reaches to its `>`. -/
def childStep (frames : List Frame) (m : Memory) (offset : Nat) (c : Char) (t : Text) : Step :=
  if c = '{' then ⟨[], .container 0 :: frames, m, 0⟩
  else if c = '<' then
    if t.head? = some '/' then
      closeElement frames m ((t.takeWhile (· != '>')).length + 1)
    else openTag frames m
  else
    let text := c :: t.takeWhile (!endsChildText ·)
    let lead := Text.byteLength text - Text.byteLength (Text.trimStart text)
    ⟨Node.ifAny ⟨.string, Text.trim text, offset, offset + Text.byteLength text, offset + lead,
        false⟩,
      frames, m, text.length - 1⟩

/-- A step of the scanner. -/
def step (hasElements : Bool) (frames : List Frame) (m : Memory) (offset : Nat) (c : Char)
    (t : Text) : Step :=
  match frames.head? with
  | some .tag => tagStep frames m offset c t
  | some .children => childStep frames m offset c t
  | some (.container _) | none => codeStep hasElements frames m offset c t

/-! ## The scan -/

/-- The nodes of the rest of a file, which starts at `offset`. -/
def nodesFrom (hasElements : Bool) (frames : List Frame) (m : Memory) (offset : Nat) :
    Text → List Node
  | [] => []
  | c :: t =>
    let s := step hasElements frames m offset c t
    s.nodes ++ nodesFrom hasElements s.frames s.memory
      (offset + c.utf8Size + (Text.byteLength (t.take s.extra))) (t.drop s.extra)
termination_by t => t.length
decreasing_by simp only [List.length_drop, List.length_cons]; omega

/-- The nodes of a file, in the order of the source. -/
def nodes (language : Language) (content : Text) : List Node :=
  nodesFrom language.hasElements [] {} 0 content

/-- The nodes of the file at a path; `none` if its language is not one that is read. -/
def nodesOfFile? (path content : Text) : Option (List Node) :=
  (Language.ofPath? path).map fun language => nodes language content

end CodeProse.Source

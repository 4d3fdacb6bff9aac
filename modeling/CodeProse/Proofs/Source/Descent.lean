/-
# Scanning by descent

The scanner can be written without a stack: as functions for code, elements, tags and the text
between tags that call one another and share a cursor, a byte offset. Written so, much can go wrong.
A slice may begin or end past the file or inside of a character, a depth of braces may fall below
zero, and a function may turn forever or call itself without taking anything (`Fault`).

The functions that call one another are `code`, `element`, `tagRest` and `children`. Each of them
gives up as soon as a turn does not lead further within the file; what is left of the file bounds
their recursion.
-/
import CodeProse.Source.Scan
import CodeProse.Proofs.Fault

namespace CodeProse.Source.Descent

open Unicode

/-- What can go wrong. -/
inductive Fault where
  /-- A slice that is reversed, or that begins or ends past the file or inside of a character. -/
  | slice
  /-- A brace that closes where none is open. -/
  | depth
  /-- A turn that does not lead further within the file. -/
  | stuck
  deriving DecidableEq, Repr, Inhabited

/-- The cursor, the nodes found so far and what is remembered of the code passed. -/
structure State where
  pos : Nat := 0
  nodes : List Node := []
  memory : Memory := {}
  deriving DecidableEq, Repr, Inhabited

/-- Moves the cursor past `n` more bytes. -/
def State.skip (s : State) (n : Nat) : State :=
  { s with pos := s.pos + n }

/-- Moves the cursor past the `<` of a tag. -/
def State.enterTag (s : State) : State :=
  { s.skip 1 with memory := { s.memory with word := none, moduleCall := false } }

/-- Whether the cursor of one state is past that of another, and not past the file. -/
def Advances (content : Text) (s next : State) : Prop :=
  s.pos < next.pos ∧ next.pos ≤ content.byteLength

instance (content : Text) (s next : State) : Decidable (Advances content s next) :=
  inferInstanceAs (Decidable (_ ∧ _))

/-- What is left of the file shrinks. -/
theorem Advances.remaining_lt {content : Text} {s next : State} (h : Advances content s next) :
    content.byteLength - next.pos < content.byteLength - s.pos := by
  have hlt := h.1
  have hle := h.2
  omega

/-! ## Slices -/

/-- The file between two offsets. -/
def slice (content : Text) (start stop : Nat) : Except Fault Text :=
  match Text.slice? start stop content with
  | some t => .ok t
  | none => .error .slice

/-- The file from the cursor on. -/
def rest (content : Text) (s : State) : Except Fault Text :=
  slice content s.pos content.byteLength

/-- Adds a node, unless it holds no text. -/
def push (content : Text) (kind : UnitKind) (start stop contentStart contentStop : Nat)
    (isModuleSpecifier : Bool) (s : State) : Except Fault State := do
  let contentStop := min contentStop content.byteLength
  let contentStart := min contentStart contentStop
  if contentStart = contentStop then return s
  let value ← slice content contentStart contentStop
  return { s with
    nodes := s.nodes ++
      [⟨kind, value, start, min stop content.byteLength, contentStart, isModuleSpecifier⟩] }

/-- Where the first character stands for which `p` holds. -/
def find? (p : Char → Bool) (t : Text) : Option Nat :=
  if t.any p then some (Text.byteLength (t.takeWhile (!p ·))) else none

/-- The offset of something that was found from the cursor on; the end of the file if it was not. -/
def offsetOf (content : Text) (s : State) (found : Option Nat) : Nat :=
  (found.map (s.pos + ·)).getD content.byteLength

/-- Moves the cursor past the characters for which `keep` holds. -/
def skipWhile (content : Text) (keep : Char → Bool) (s : State) : Except Fault State := do
  let t ← rest content s
  return s.skip (Text.byteLength (t.takeWhile keep))

/-! ## Comments, strings and words -/

/-- A line comment. -/
def lineComment (content : Text) (s : State) : Except Fault State := do
  let t ← rest content s
  let stop := offsetOf content s (find? (· == '\n') t)
  let s ← push content .comment s.pos stop (s.pos + 2) stop false s
  return { s with pos := stop }

/-- A block comment. -/
def blockComment (content : Text) (s : State) : Except Fault State := do
  let t ← slice content (s.pos + 2) content.byteLength
  let close := (Text.splitFirst? ['*', '/'] t).map fun p => s.pos + 2 + Text.byteLength p.1
  let contentStop := close.getD content.byteLength
  let stop := (close.map (· + 2)).getD contentStop
  let s ← push content .comment s.pos stop (s.pos + 2) contentStop false s
  return { s with pos := stop }

/-- Where the character stands that closes a string, the quote or the end of the line. After a
backslash the next character is `escaped`. -/
def closingQuote? (quote : Char) (escaped : Bool) : Text → Option Nat
  | [] => none
  | c :: t =>
    if escaped then (closingQuote? quote false t).map (c.utf8Size + ·)
    else if c = '\\' then (closingQuote? quote true t).map (c.utf8Size + ·)
    else if c = quote ∨ c = '\n' then some 0
    else (closingQuote? quote false t).map (c.utf8Size + ·)

/-- A string. -/
def string (content : Text) (quote : Char) (s : State) : Except Fault State := do
  let t ← slice content (s.pos + 1) content.byteLength
  let close := (closingQuote? quote false t).map (s.pos + 1 + ·)
  let contentStop := close.getD content.byteLength
  let stop := (close.map (· + 1)).getD contentStop
  let s ← push content .string s.pos stop (s.pos + 1) contentStop s.memory.expectsModule s
  return { s with pos := stop, memory := ⟨none, false, some '"'⟩ }

/-- A word. -/
def word (content : Text) (s : State) : Except Fault State := do
  let next ← skipWhile content continuesWord s
  let w ← slice content s.pos next.pos
  let next ←
    if keywords.contains w then pure next
    else push content .identifier s.pos next.pos s.pos next.pos false next
  return { next with memory := ⟨some w, false, some 'a'⟩ }

/-- A number. -/
def number (content : Text) (s : State) : Except Fault State := do
  let next ← skipWhile content continuesNumber s
  return { next with memory := { s.memory with last := some '0' } }

/-! ## Templates

Templates are read byte by byte. A backslash takes two bytes with it, and so may lead inside of a
character or past the file. -/

/-- The bytes of a text. -/
def bytes (t : Text) : List UInt8 :=
  t.flatMap String.utf8EncodeChar

/-- Where the brace stands that closes a substitution, from a byte on before which `depth` braces are
open; the end of the file if nothing closes it. -/
def substitutionEnd (content : Text) (depth i : Nat) : Except Fault Nat :=
  if h : i < (bytes content).length then
    if (bytes content)[i] = '{'.toUInt8 then substitutionEnd content (depth + 1) (i + 1)
    else if (bytes content)[i] = '}'.toUInt8 then
      if depth = 0 then .error .depth
      else if depth = 1 then .ok i
      else substitutionEnd content (depth - 1) (i + 1)
    else substitutionEnd content depth (i + 1)
  else .ok i
termination_by (bytes content).length - i

/-- A template from a byte on, in a literal fragment that starts at `fragmentStart`. -/
def templateFrom (content : Text) (fragmentStart i : Nat) (s : State) : Except Fault State :=
  if h : i < (bytes content).length then
    if (bytes content)[i] = '\\'.toUInt8 then templateFrom content fragmentStart (i + 2) s
    else if (bytes content)[i] = '`'.toUInt8 then do
      let s ← push content .template fragmentStart i fragmentStart i false s
      return { s with pos := i + 1, memory := ⟨none, s.memory.moduleCall, some '`'⟩ }
    else if (bytes content)[i] = '$'.toUInt8 ∧ (bytes content)[i + 1]? = some '{'.toUInt8 then do
      let s ← push content .template fragmentStart i fragmentStart i false s
      let stop ← substitutionEnd content 0 i
      if i ≤ stop then
        templateFrom content (min (stop + 1) (bytes content).length) (stop + 1) s
      else throw .stuck
    else templateFrom content fragmentStart (i + 1) s
  else do
    let s ← push content .template fragmentStart content.byteLength fragmentStart
      content.byteLength false s
    return { s with pos := content.byteLength }
termination_by (bytes content).length - i

/-- A template. -/
def template (content : Text) (s : State) : Except Fault State :=
  templateFrom content (s.pos + 1) (s.pos + 1) s

/-! ## Code and elements -/

/-- What a turn in code comes to. -/
inductive Turn where
  /-- The code goes on, with `depth` braces open. -/
  | goesOn (depth : Nat) (s : State)
  /-- The code has ended with its closing brace. -/
  | ends (s : State)

/-- Whether the cursor is at a tag. -/
def opensElement (content : Text) (hasElements : Bool) (s : State) (c : Char) :
    Except Fault Bool := do
  if c = '<' then
    if !hasElements then return false
    let t ← slice content (s.pos + 1) content.byteLength
    if !(t.head?.any fun c => isAlphabetic c || c == '>') then return false
    return s.memory.word == some "return".toList || s.memory.last.all beforeExpression.contains
  else return false

/-- A turn in code at a character that starts nothing: it may close the code or be a brace of it. -/
def charTurn (nested : Bool) (depth : Nat) (s : State) (c : Char) : Turn :=
  if nested ∧ c = '}' ∧ depth = 0 then
    .ends { s.skip 1 with memory := { s.memory with last := some '}' } }
  else if isWhitespace c then .goesOn depth (s.skip c.utf8Size)
  else
    .goesOn (if c = '{' then depth + 1 else if c = '}' then depth - 1 else depth)
      { s.skip c.utf8Size with
        memory :=
          { word := if c = '(' then s.memory.word else none
            moduleCall := c == '(' &&
              (s.memory.word == some "require".toList || s.memory.word == some "import".toList)
            last := some c } }

/-- A turn in code, at a character that opens no element. -/
def codeTurn (content : Text) (nested : Bool) (depth : Nat) (s : State) (c : Char) (t : Text) :
    Except Fault Turn :=
  if c = '/' ∧ t.head? = some '/' then .goesOn depth <$> lineComment content s
  else if c = '/' ∧ t.head? = some '*' then .goesOn depth <$> blockComment content s
  else if c = '"' ∨ c = '\'' then .goesOn depth <$> string content c s
  else if c = '`' then .goesOn depth <$> template content s
  else if startsWord c then .goesOn depth <$> word content s
  else if c.isDigit then .goesOn depth <$> number content s
  else .ok (charTurn nested depth s c)

/-- The text between tags up to the next tag or container. -/
def childText (content : Text) (s : State) : Except Fault State := do
  let t ← rest content s
  let stop := offsetOf content s (find? endsChildText t)
  let text ← slice content s.pos stop
  let lead := Text.byteLength text - Text.byteLength (Text.trimStart text)
  let trimmed := Text.trim text
  let next ←
    if trimmed.isEmpty then pure s
    else
      push content .string s.pos stop (s.pos + lead) (s.pos + lead + Text.byteLength trimmed) false s
  return { next with pos := stop }

mutual

/-- Code; if it is `nested`, up to the brace that closes it. -/
def code (content : Text) (hasElements nested : Bool) (depth : Nat) (s : State) :
    Except Fault State := do
  match ← rest content s with
  | [] => return s
  | c :: t =>
    let opens ← opensElement content hasElements s c
    let turn ←
      (if opens then Turn.goesOn depth <$> element content hasElements s
      else codeTurn content nested depth s c t)
    match turn with
    | .ends next => return next
    | .goesOn depth next =>
      if _ : Advances content s next then code content hasElements nested depth next
      else throw .stuck
termination_by 3 * (content.byteLength - s.pos) + 1
decreasing_by
  all_goals first
    | omega
    | (have hlt := Advances.remaining_lt (by assumption); omega)

/-- An element, from its `<` on. -/
def element (content : Text) (hasElements : Bool) (s : State) : Except Fault State := do
  if _ : Advances content s s.enterTag then
    let (ended, next) ← tagRest content hasElements s.enterTag
    let next ←
      (if ended then pure next
      else if _ : Advances content s next then children content hasElements next
      else throw .stuck)
    return { next with memory := { next.memory with word := none, last := some 'a' } }
  else throw .stuck
termination_by 3 * (content.byteLength - s.pos)
decreasing_by
  all_goals first
    | omega
    | (have hlt := Advances.remaining_lt (by assumption); omega)

/-- The rest of a tag, and whether its element ends with it. -/
def tagRest (content : Text) (hasElements : Bool) (s : State) : Except Fault (Bool × State) := do
  match ← rest content s with
  | [] => return (true, s)
  | c :: t =>
    if c = '/' ∧ t.head? = some '>' then return (true, s.skip 2)
    else if c = '>' then return (false, s.skip 1)
    else
      let next ←
        (if c = '"' ∨ c = '\'' then string content c s
        else if c = '{' then
          if _ : Advances content s (s.skip 1) then code content hasElements true 0 (s.skip 1)
          else throw .stuck
        else pure (s.skip c.utf8Size))
      if _ : Advances content s next then tagRest content hasElements next
      else throw .stuck
termination_by 3 * (content.byteLength - s.pos) + 2
decreasing_by
  all_goals first
    | omega
    | (have hlt := Advances.remaining_lt (by assumption); omega)

/-- What is between an opening and a closing tag, the closing tag included. -/
def children (content : Text) (hasElements : Bool) (s : State) : Except Fault State := do
  let behind ← childText content s
  match ← rest content behind with
  | [] => return behind
  | c :: t =>
    if c = '<' ∧ t.head? = some '/' then
      return { behind with
        pos := offsetOf content behind ((find? (· == '>') (c :: t)).map (· + 1)) }
    else
      let next ←
        (if c = '{' then
          if _ : Advances content s (behind.skip 1) then
            code content hasElements true 0 (behind.skip 1)
          else throw .stuck
        else if _ : s.pos ≤ behind.pos then element content hasElements behind
        else throw .stuck)
      if _ : Advances content s next then children content hasElements next
      else throw .stuck
termination_by 3 * (content.byteLength - s.pos) + 2
decreasing_by
  all_goals first
    | omega
    | (have hlt := Advances.remaining_lt (by assumption); omega)

end

/-- A scan of a whole file. -/
def scan (language : Language) (content : Text) : Except Fault State :=
  code content language.hasElements false 0 {}

end CodeProse.Source.Descent

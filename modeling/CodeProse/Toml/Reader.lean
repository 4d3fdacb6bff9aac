/-
# Reading TOML

A reader for the grammar of TOML 1.0. Arrays and tables in braces nest less than 80 levels deep, and
a key has fewer than 80 names.
-/
import CodeProse.Toml.Number

namespace CodeProse.Toml

/-! ## White space and comments -/

/-- Whether `c` is a blank within a line. -/
def isBlank (c : Char) : Bool :=
  c == ' ' || c == '\t'

/-- Drops the blanks at the start of a text. -/
def skipBlanks (t : Text) : Text :=
  t.dropWhile isBlank

/-- Whether `c` may stand in comments and strings as it is. -/
def isPlain (c : Char) : Bool :=
  c == '\t' || (0x20 ≤ c.toNat && c.toNat != 0x7F)

/-- What follows the end of a line. -/
def afterNewline? : Text → Option Text
  | '\n' :: t => some t
  | '\r' :: '\n' :: t => some t
  | _ => none

/-- Drops blanks and ends of lines. -/
def skipLines : Text → Text
  | '\n' :: t => skipLines t
  | '\r' :: '\n' :: t => skipLines t
  | c :: t => if isBlank c then skipLines t else c :: t
  | [] => []

/-- Drops a comment. -/
def skipComment : Text → Text
  | '#' :: t => t.dropWhile isPlain
  | t => t

/-- What follows the rest of a line that holds no more than a comment. -/
def afterLine? (t : Text) : Option Text :=
  match skipComment (skipBlanks t) with
  | [] => some []
  | t => afterNewline? t

/-- Drops blanks, comments and ends of lines. A comment must end with its line. The fuel bounds the
number of comments. -/
def skipSpace? : Nat → Text → Option Text
  | 0, _ => none
  | fuel + 1, t =>
    match skipLines t with
    | '#' :: t => (afterNewline? (t.dropWhile isPlain)).bind (skipSpace? fuel)
    | t => some t

/-! ## Strings -/

/-- The character with the code that exactly `count` hexadecimal digits spell. -/
def codePoint? (count : Nat) (t : Text) : Option (Char × Text) :=
  if (t.take count).length = count then do
    let n ← Text.numeral? 16 (t.take count)
    if n < 0xD800 || (0xDFFF < n && n < 0x110000) then some (Char.ofNat n, t.drop count) else none
  else none

/-- The character of an escape, after its backslash. -/
def escape? : Text → Option (Char × Text)
  | 'b' :: t => some ('\x08', t)
  | 't' :: t => some ('\t', t)
  | 'n' :: t => some ('\n', t)
  | 'f' :: t => some ('\x0c', t)
  | 'r' :: t => some ('\r', t)
  | '"' :: t => some ('"', t)
  | '\\' :: t => some ('\\', t)
  | 'u' :: t => codePoint? 4 t
  | 'U' :: t => codePoint? 8 t
  | _ => none

/-- The rest of a string on one line after its opening quote, and the text after its closing quote.
The fuel bounds the number of characters. -/
def stringRest? : Nat → Text → Option (Text × Text)
  | 0, _ => none
  | fuel + 1, t =>
    match t with
    | [] => none
    | '"' :: t => some ([], t)
    | '\\' :: t => do
      let (c, t) ← escape? t
      let (s, t) ← stringRest? fuel t
      return (c :: s, t)
    | c :: t =>
      if isPlain c then (stringRest? fuel t).map fun r => (c :: r.1, r.2) else none

/-- The rest of a string on one line without escapes. -/
def literalRest? (t : Text) : Option (Text × Text) :=
  let isInside := fun c => isPlain c && c != '\''
  match t.dropWhile isInside with
  | '\'' :: rest => some (t.takeWhile isInside, rest)
  | _ => none

/-- What a run of quotes in a string of several lines means: with up to two quotes the string goes
on; with more it ends, and up to two quotes before the last three belong to it. -/
def closing? (quote : Char) (t : Text) : Option (Text × Text) :=
  let run := (t.takeWhile (· == quote)).length
  if run < 3 then none
  else some (List.replicate (min (run - 3) 2) quote, t.drop (min run 5))

/-- What follows a backslash that hides the end of its line, and the blanks after it. -/
def afterHiddenLine? (t : Text) : Option Text :=
  (afterNewline? (skipBlanks t)).map skipLines

/-- The rest of a string of several lines. The fuel bounds the number of characters. -/
def linesRest? : Nat → Text → Option (Text × Text)
  | 0, _ => none
  | fuel + 1, t =>
    match closing? '"' t with
    | some r => some r
    | none =>
      match afterNewline? t, t with
      | some t, _ => (linesRest? fuel t).map fun r => ('\n' :: r.1, r.2)
      | none, '\\' :: t =>
        match afterHiddenLine? t with
        | some t => linesRest? fuel t
        | none => do
          let (c, t) ← escape? t
          let (s, t) ← linesRest? fuel t
          return (c :: s, t)
      | none, c :: t =>
        if isPlain c then (linesRest? fuel t).map fun r => (c :: r.1, r.2) else none
      | none, [] => none

/-- The rest of a string of several lines without escapes. The fuel bounds the number of
characters. -/
def literalLinesRest? : Nat → Text → Option (Text × Text)
  | 0, _ => none
  | fuel + 1, t =>
    match closing? '\'' t with
    | some r => some r
    | none =>
      match afterNewline? t, t with
      | some t, _ => (literalLinesRest? fuel t).map fun r => ('\n' :: r.1, r.2)
      | none, c :: t =>
        if isPlain c then (literalLinesRest? fuel t).map fun r => (c :: r.1, r.2) else none
      | none, [] => none

/-- Drops the end of the line that a string of several lines starts with. -/
def skipFirstNewline (t : Text) : Text :=
  (afterNewline? t).getD t

/-- A string at the start of a text. -/
def string? : Text → Option (Text × Text)
  | '"' :: '"' :: '"' :: t => linesRest? (t.length + 1) (skipFirstNewline t)
  | '"' :: t => stringRest? (t.length + 1) t
  | '\'' :: '\'' :: '\'' :: t => literalLinesRest? (t.length + 1) (skipFirstNewline t)
  | '\'' :: t => literalRest? t
  | _ => none

/-! ## Keys -/

/-- Whether `c` may stand in a key without quotes. -/
def isBare (c : Char) : Bool :=
  c.isAlphanum || c == '_' || c == '-'

/-- One name of a key. -/
def name? : Text → Option (Text × Text)
  | '"' :: t => stringRest? (t.length + 1) t
  | '\'' :: t => literalRest? t
  | t => if t.head?.any isBare then some (t.takeWhile isBare, t.dropWhile isBare) else none

/-- The names of a key between dots, and what follows the blanks after it. The fuel bounds their
number. -/
def names? : Nat → Text → Option (List Text × Text)
  | 0, _ => none
  | fuel + 1, t => do
    let (name, t) ← name? (skipBlanks t)
    match skipBlanks t with
    | '.' :: t => (names? fuel t).map fun r => (name :: r.1, r.2)
    | t => return ([name], t)

/-- A key: the names before its last dot, the name after it, and the text after the key. -/
def key? (t : Text) : Option ((List Text × Text) × Text) := do
  let (names, t) ← names? 79 t
  return ((names.dropLast, ← names.getLast?), t)

/-! ## Values -/

mutual

/-- A value at the start of a text, with at most `depth` levels of nesting. -/
def value? (fuel depth : Nat) (t : Text) : Option (Toml × Text) :=
  match fuel with
  | 0 => none
  | fuel + 1 =>
    match t with
    | 't' :: 'r' :: 'u' :: 'e' :: t => some (.boolean true, t)
    | 'f' :: 'a' :: 'l' :: 's' :: 'e' :: t => some (.boolean false, t)
    | '[' :: t =>
      if depth = 0 then none else (items? fuel (depth - 1) t).map fun r => (.array r.1, r.2)
    | '{' :: t =>
      if depth = 0 then none
      else
        match skipBlanks t with
        | '}' :: t => some (.table .braced [], t)
        | t => do
          let (items, t) ← members? fuel (depth - 1) t
          return (← braced? items, t)
    | t =>
      match string? t with
      | some r => some (.string r.1, r.2)
      | none =>
        match moment? t with
        | some r => some r
        | none => number? t

/-- The items of an array, up to its closing bracket. -/
def items? (fuel depth : Nat) (t : Text) : Option (List Toml × Text) :=
  match fuel with
  | 0 => none
  | fuel + 1 => do
    match ← skipSpace? (t.length + 1) t with
    | ']' :: t => return ([], t)
    | t =>
      let (item, t) ← value? fuel depth t
      match ← skipSpace? (t.length + 1) t with
      | ',' :: t =>
        let (items, t) ← items? fuel depth t
        return (item :: items, t)
      | ']' :: t => return ([item], t)
      | _ => none

/-- The entries of a table in braces, up to its closing brace. -/
def members? (fuel depth : Nat) (t : Text) : Option (List (List Text × Text × Toml) × Text) :=
  match fuel with
  | 0 => none
  | fuel + 1 => do
    let (key, t) ← key? t
    match t with
    | '=' :: t =>
      let (item, t) ← value? fuel depth (skipBlanks t)
      match skipBlanks t with
      | ',' :: t =>
        let (members, t) ← members? fuel depth t
        return ((key.1, key.2, item) :: members, t)
      | '}' :: t => return ([(key.1, key.2, item)], t)
      | _ => none
    | _ => none

end

/-! ## Documents -/

/-- An entry on a line of its own, and what follows the line. -/
def entry? (t : Text) : Option (Statement × Text) := do
  let (key, t) ← key? t
  match t with
  | '=' :: t =>
    let (value, t) ← value? (2 * t.length + 2) 79 (skipBlanks t)
    return (.entry key.1 key.2 value, ← afterLine? t)
  | _ => none

/-- A header on a line of its own after its opening bracket, and what follows the line. -/
def header? (t : Text) : Option (Statement × Text) :=
  match t with
  | '[' :: t => do
    let (key, t) ← key? t
    return (.itemHeader key.1 key.2, ← afterLine? (← Text.dropStart? [']', ']'] t))
  | t => do
    let (key, t) ← key? t
    return (.header key.1 key.2, ← afterLine? (← Text.dropStart? [']'] t))

/-- The statements of a document. The fuel bounds the number of lines. -/
def statements? : Nat → Text → Option (List Statement)
  | 0, _ => none
  | fuel + 1, t =>
    match skipLines t with
    | [] => some []
    | '#' :: t => (afterLine? ('#' :: t)).bind (statements? fuel)
    | '[' :: t => do
      let (statement, t) ← header? t
      return statement :: (← statements? fuel t)
    | t => do
      let (statement, t) ← entry? t
      return statement :: (← statements? fuel t)

/-- Drops a byte order mark. -/
def skipMark : Text → Text
  | '\uFEFF' :: t => t
  | t => t

/-- Reads a document. -/
def read? (t : Text) : Option Entries :=
  (statements? (t.length + 1) (skipMark t)).bind table?

end CodeProse.Toml

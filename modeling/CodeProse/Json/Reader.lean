/-
# Reading JSON

A reader for the grammar of the JSON standard. Nesting is limited to 128 levels.
-/
import CodeProse.Json.Basic
import CodeProse.Text.Digit

namespace CodeProse.Json

/-! ## Tokens -/

/-- Drops the white space between tokens. -/
def skipBlanks (t : Text) : Text :=
  t.dropWhile fun c => c == ' ' || c == '\t' || c == '\n' || c == '\r'

/-- The value of four hexadecimal digits, and the text after them. -/
def fourHex? (t : Text) : Option (Nat × Text) :=
  if t.length < 4 then none
  else (Text.numeral? 16 (t.take 4)).map fun n => (n, t.drop 4)

/-- The character that an escape of one letter stands for. -/
def shortEscape? : Char → Option Char
  | '"' => some '"'
  | '\\' => some '\\'
  | '/' => some '/'
  | 'b' => some '\x08'
  | 'f' => some '\x0c'
  | 'n' => some '\n'
  | 'r' => some '\r'
  | 't' => some '\t'
  | _ => none

/-- The character of an escape `\uXXXX`, after its `u`. Two surrogates make one character; a single
one makes none. -/
def unicodeEscape? (t : Text) : Option (Char × Text) := do
  let (high, t) ← fourHex? t
  if high < 0xD800 || 0xDFFF < high then some (Char.ofNat high, t)
  else if 0xDC00 ≤ high then none
  else
    match t with
    | '\\' :: 'u' :: t =>
      let (low, t) ← fourHex? t
      if 0xDC00 ≤ low && low ≤ 0xDFFF then
        some (Char.ofNat (0x10000 + (high - 0xD800) * 0x400 + (low - 0xDC00)), t)
      else none
    | _ => none

/-- The rest of a string after its opening quote, and the text after its closing quote. The fuel
bounds the number of characters. -/
def stringRest? : Nat → Text → Option (Text × Text)
  | 0, _ => none
  | fuel + 1, t =>
    match t with
    | [] => none
    | '"' :: t => some ([], t)
    | '\\' :: 'u' :: t => do
      let (c, t) ← unicodeEscape? t
      let (s, t) ← stringRest? fuel t
      some (c :: s, t)
    | '\\' :: e :: t => do
      let c ← shortEscape? e
      let (s, t) ← stringRest? fuel t
      some (c :: s, t)
    | c :: t =>
      if c.toNat < 0x20 || c == '\\' then none
      else do
        let (s, t) ← stringRest? fuel t
        some (c :: s, t)

/-- The sign and digits of an exponent, after its letter. -/
def exponent? (t : Text) : Option (Int × Text) :=
  let (negative, t) :=
    match t with
    | '-' :: t => (true, t)
    | '+' :: t => (false, t)
    | t => (false, t)
  let digits := t.takeWhile Char.isDigit
  if digits.isEmpty then none
  else
    let n : Int := Text.decimalValue digits
    some (if negative then -n else n, t.dropWhile Char.isDigit)

/-- A number at the start of a text. -/
def number? (t : Text) : Option (JsonNumber × Text) := do
  let (negative, t) :=
    match t with
    | '-' :: t => (true, t)
    | t => (false, t)
  let whole := t.takeWhile Char.isDigit
  let t := t.dropWhile Char.isDigit
  if whole.isEmpty || (whole.head? == some '0' && whole.length != 1) then none
  else
    let (fraction, t) ← (match t with
      | '.' :: t =>
        let digits := t.takeWhile Char.isDigit
        if digits.isEmpty then none else some (some digits, t.dropWhile Char.isDigit)
      | t => some (none, t) : Option (Option Text × Text))
    let (power, t) ← (match t with
      | c :: t => if c == 'e' || c == 'E' then (exponent? t).map fun r => (some r.1, r.2)
        else some (none, c :: t)
      | [] => some (none, []) : Option (Option Int × Text))
    let digits := whole ++ fraction.getD []
    some (⟨negative, Text.decimalValue digits, power.getD 0 - (fraction.getD []).length,
      fraction.isNone && power.isNone⟩, t)

/-! ## Values -/

mutual

/-- A value at the start of a text, with at most `depth` levels of nesting. -/
def value? (fuel depth : Nat) (t : Text) : Option (Json × Text) :=
  match fuel with
  | 0 => none
  | fuel + 1 =>
    match skipBlanks t with
    | 'n' :: 'u' :: 'l' :: 'l' :: t => some (.null, t)
    | 't' :: 'r' :: 'u' :: 'e' :: t => some (.bool true, t)
    | 'f' :: 'a' :: 'l' :: 's' :: 'e' :: t => some (.bool false, t)
    | '"' :: t => (stringRest? (t.length + 1) t).map fun r => (.string r.1, r.2)
    | '[' :: t =>
      if depth = 0 then none
      else
        match skipBlanks t with
        | ']' :: t => some (.array [], t)
        | t => (items? fuel (depth - 1) t).map fun r => (.array r.1, r.2)
    | '{' :: t =>
      if depth = 0 then none
      else
        match skipBlanks t with
        | '}' :: t => some (.object [], t)
        | t => (members? fuel (depth - 1) t).map fun r => (.object r.1, r.2)
    | t => (number? t).map fun r => (.number r.1, r.2)

/-- The items of an array, up to its closing bracket. -/
def items? (fuel depth : Nat) (t : Text) : Option (List Json × Text) :=
  match fuel with
  | 0 => none
  | fuel + 1 => do
    let (item, t) ← value? fuel depth t
    match skipBlanks t with
    | ',' :: t =>
      let (items, t) ← items? fuel depth t
      some (item :: items, t)
    | ']' :: t => some ([item], t)
    | _ => none

/-- The members of an object, up to its closing brace. -/
def members? (fuel depth : Nat) (t : Text) : Option (List (Text × Json) × Text) :=
  match fuel with
  | 0 => none
  | fuel + 1 =>
    match skipBlanks t with
    | '"' :: t => do
      let (name, t) ← stringRest? (t.length + 1) t
      match skipBlanks t with
      | ':' :: t =>
        let (item, t) ← value? fuel depth t
        match skipBlanks t with
        | ',' :: t =>
          let (members, t) ← members? fuel depth t
          some ((name, item) :: members, t)
        | '}' :: t => some ([(name, item)], t)
        | _ => none
      | _ => none
    | _ => none

end

/-- Reads a text that is one JSON value and nothing else. -/
def read? (t : Text) : Option Json :=
  match value? (2 * t.length + 2) 128 t with
  | some (json, rest) => if (skipBlanks rest).isEmpty then some json else none
  | none => none

end CodeProse.Json

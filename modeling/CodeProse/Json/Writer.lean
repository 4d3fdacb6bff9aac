/-
# Writing JSON

Values are written on one line, or with a line for every item and two blanks for every level. Only
quotes, backslashes and control characters are escaped.
-/
import CodeProse.Json.Basic

namespace CodeProse.Json

/-- A hexadecimal digit. -/
def hexChar (n : Nat) : Char :=
  if n < 10 then Char.ofNat ('0'.toNat + n) else Char.ofNat ('a'.toNat + (n - 10))

/-- A character as it stands in a string. -/
def writeChar (c : Char) : Text :=
  match c with
  | '"' => ['\\', '"']
  | '\\' => ['\\', '\\']
  | '\n' => ['\\', 'n']
  | '\r' => ['\\', 'r']
  | '\t' => ['\\', 't']
  | '\x08' => ['\\', 'b']
  | '\x0c' => ['\\', 'f']
  | c =>
    if c.toNat < 0x20 then ['\\', 'u', '0', '0', hexChar (c.toNat / 16), hexChar (c.toNat % 16)]
    else [c]

/-- A string in quotes. -/
def writeString (s : Text) : Text :=
  '"' :: s.flatMap writeChar ++ ['"']

/-- A number. -/
def writeNumber (n : JsonNumber) : Text :=
  let power := if n.exponent = 0 then [] else 'e' :: (toString n.exponent).toList
  (if n.negative then ['-'] else []) ++ Text.ofNat n.digits ++ power

mutual

/-- A value on one line. -/
def write : Json → Text
  | .null => "null".toList
  | .bool true => "true".toList
  | .bool false => "false".toList
  | .number n => writeNumber n
  | .string s => writeString s
  | .array items => '[' :: writeItems items ++ [']']
  | .object members => '{' :: writeMembers members ++ ['}']

/-- Items with commas between them. -/
def writeItems : List Json → Text
  | [] => []
  | [item] => write item
  | item :: rest => write item ++ ',' :: writeItems rest

/-- Members with commas between them. -/
def writeMembers : List (Text × Json) → Text
  | [] => []
  | [(name, item)] => writeString name ++ ':' :: write item
  | (name, item) :: rest => writeString name ++ ':' :: write item ++ ',' :: writeMembers rest

end

/-- A new line, indented to the given level. -/
def newLine (level : Nat) : Text :=
  '\n' :: List.replicate (2 * level) ' '

mutual

/-- A value at the given level, an item a line. -/
def writePretty (level : Nat) : Json → Text
  | .array [] => ['[', ']']
  | .array (item :: rest) =>
    '[' :: newLine (level + 1) ++ writePretty (level + 1) item ++ prettyItems (level + 1) rest
      ++ newLine level ++ [']']
  | .object [] => ['{', '}']
  | .object ((name, item) :: rest) =>
    '{' :: newLine (level + 1) ++ writeString name ++ [':', ' '] ++ writePretty (level + 1) item
      ++ prettyMembers (level + 1) rest ++ newLine level ++ ['}']
  | .null => "null".toList
  | .bool true => "true".toList
  | .bool false => "false".toList
  | .number n => writeNumber n
  | .string s => writeString s

/-- The items after the first. -/
def prettyItems (level : Nat) : List Json → Text
  | [] => []
  | item :: rest => ',' :: newLine level ++ writePretty level item ++ prettyItems level rest

/-- The members after the first. -/
def prettyMembers (level : Nat) : List (Text × Json) → Text
  | [] => []
  | (name, item) :: rest =>
    ',' :: newLine level ++ writeString name ++ [':', ' '] ++ writePretty level item
      ++ prettyMembers level rest

end

/-- A value in the indented form. -/
def pretty (json : Json) : Text :=
  writePretty 0 json

end CodeProse.Json

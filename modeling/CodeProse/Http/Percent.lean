/-
# Percent encoding
-/
import CodeProse.Text.Offset

namespace CodeProse.Http

/-- A hexadecimal digit in capitals. -/
def hexDigit (n : Nat) : Char :=
  if n < 10 then Char.ofNat ('0'.toNat + n) else Char.ofNat ('A'.toNat + (n - 10))

/-- A byte as a percent sign and two hexadecimal digits. -/
def percentByte (b : UInt8) : Text :=
  ['%', hexDigit (b.toNat / 16), hexDigit (b.toNat % 16)]

/-- A character with every byte of its UTF-8 form encoded. -/
def percentChar (c : Char) : Text :=
  (String.utf8EncodeChar c).flatMap percentByte

/-- Encodes the characters of a text that satisfy `p`. -/
def percentEncode (p : Char → Bool) (t : Text) : Text :=
  t.flatMap fun c => if p c then percentChar c else [c]

/-! ## Forms -/

/-- Whether a character of a form stands for itself. -/
def isPlainInForm (c : Char) : Bool :=
  c.isAlphanum || c == '*' || c == '-' || c == '.' || c == '_'

/-- A name or value of a form: a blank becomes a plus sign, and all but letters, digits and a few
marks is encoded. -/
def formEncode (t : Text) : Text :=
  t.flatMap fun c => if c = ' ' then ['+'] else if isPlainInForm c then [c] else percentChar c

/-- The body of a form: names and values joined by equals signs, and those by ampersands. -/
def formBody : List (Text × Text) → Text
  | [] => []
  | [(name, value)] => formEncode name ++ '=' :: formEncode value
  | (name, value) :: rest => formEncode name ++ '=' :: formEncode value ++ '&' :: formBody rest

end CodeProse.Http

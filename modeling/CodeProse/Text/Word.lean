/-
# Words

The words of a text are found in three steps: what is no word is blanked out, byte by byte, so that
offsets stay valid; the rest is cut before every capital; and blanks part what is left. A word that
no dictionary knows is split once more, at digits and apostrophes.

* `Text.blankNonWords` blanks escape sequences and punctuation.
* `Text.wordTokens` are the words with their offsets.
* `Text.subWords` are the parts of a word, in lower case.
-/
import CodeProse.Text.Blank
import CodeProse.Text.Digit
import CodeProse.Unicode.CaseMap

namespace CodeProse

/-- A word and where it stands in its text. -/
structure Token where
  text : Text
  start : Nat
  stop : Nat
  deriving DecidableEq, Repr, Inhabited

namespace Text

open Unicode

/-! ## Blanking -/

/-- Whether `c` names an escape of one letter: `\n`, `\d` and their like. -/
def isEscapeLetter (c : Char) : Bool :=
  "sSwdDbB0nfrtv".toList.contains c

/-- The two apostrophes: straight and typographic. -/
def isApostrophe (c : Char) : Bool :=
  c == '\'' || c == '’'

/-- Whether `c` may stand in a word or between words as it is. -/
def keepsInWords (c : Char) : Bool :=
  isWordLetter c || c == ' ' || isApostrophe c

/-- The length of the escape sequence whose characters after the backslash are given, `0` if there
is none. -/
def escapeTail : Text → Nat
  | [] => 0
  | c :: t =>
    if isEscapeLetter c then 1
    else if isOctalDigit c && (t.take 2).length == 2 && (t.take 2).all isOctalDigit then 3
    else if c == 'x' && (t.take 2).length == 2 && (t.take 2).all isHexDigit then 3
    else if c == 'u' && (t.take 4).length == 4 && (t.take 4).all isHexDigit then 5
    else 0

/-- How many characters at the start of a text are no part of a word: an escape sequence, or one
character that no word contains. -/
def nonWordLength : Text → Nat
  | [] => 0
  | c :: t => if c = '\\' then escapeTail t + 1 else if keepsInWords c then 0 else 1

/-- Blanks the next `pending` characters and then all that is no part of a word. A character of
several bytes leaves as many blanks. -/
def blankFrom (pending : Nat) : Text → Text
  | [] => []
  | c :: t =>
    match pending, nonWordLength (c :: t) with
    | n + 1, _ => List.replicate c.utf8Size ' ' ++ blankFrom n t
    | 0, n + 1 => List.replicate c.utf8Size ' ' ++ blankFrom n t
    | 0, 0 => c :: blankFrom 0 t

/-- The text with everything blanked that is no part of a word. -/
def blankNonWords (t : Text) : Text :=
  blankFrom 0 t

/-! ## Tokens -/

/-- The token that starts at `start` with the given characters, last one first. -/
def closeToken (start : Nat) (reversed : Text) : List Token :=
  if reversed.isEmpty then []
  else [⟨reversed.reverse, start, start + byteLength reversed⟩]

/-- The tokens of blanked text that starts at `offset`, after an open token that starts at `start`
and whose characters are given last one first. -/
def tokensFrom (offset start : Nat) (reversed : Text) : Text → List Token
  | [] => closeToken start reversed
  | c :: t =>
    let next := offset + c.utf8Size
    if c = ' ' then closeToken start reversed ++ tokensFrom next next [] t
    else if isUppercase c then closeToken start reversed ++ tokensFrom next offset [c] t
    else if reversed.isEmpty then tokensFrom next offset [c] t
    else tokensFrom next start (c :: reversed) t

/-- The words of a text, in order. A capital starts a new word. -/
def wordTokens (t : Text) : List Token :=
  tokensFrom 0 0 [] (blankNonWords t)

/-! ## Parts of a word -/

/-- Puts a blank before every capital. -/
def spaceCapitals (t : Text) : Text :=
  t.flatMap fun c => if isUppercase c then [' ', c] else [c]

/-- Whether `c` separates the parts of a word. -/
def separatesParts (c : Char) : Bool :=
  ('0' ≤ c && c ≤ '9') || isApostrophe c

/-- The parts of a word: capitals start new parts, digits and apostrophes separate them, and all are
in lower case. -/
def subWords (t : Text) : List Text :=
  words (lowercase ((spaceCapitals t).map fun c => if separatesParts c then ' ' else c))

end Text

end CodeProse

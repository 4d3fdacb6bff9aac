/-
# Word lists in files

A dictionary of a language is a pair of files: one with affix rules, one with words. The word file
starts with a count and has one word a line. How a word may be capitalised follows from how it is
listed: a word in small letters also with a capital, or in capitals; any other as listed, or in
capitals.
-/
import CodeProse.Dictionary.Basic
import CodeProse.Text.Blank
import CodeProse.Text.Search

namespace CodeProse

open Unicode

/-! ## Capitals -/

/-- How a word is capitalised. -/
inductive Casing where
  /-- No capital. -/
  | small
  /-- One capital, at the start. -/
  | title
  /-- Capitals only. -/
  | capitals
  /-- Several capitals, but not only capitals. -/
  | mixed
  deriving DecidableEq, Repr, Inhabited

/-- How a word is capitalised. -/
def Casing.of (word : Text) : Casing :=
  let upper := word.countP isUppercase
  if upper = 0 then .small
  else if upper = 1 && word.head?.any isUppercase then .title
  else if !word.any isLowercase then .capitals
  else .mixed

/-- The word with a capital first and small letters after it. -/
def titleCase (word : Text) : Text :=
  match word with
  | [] => []
  | c :: rest => upperChar c ++ lowercase rest

/-! ## Entries -/

/-- The words of a dictionary. -/
structure WordList where
  /-- The words as listed. -/
  words : List Text
  /-- The words with inner capitals in title case: their forms in capitals lead to them. -/
  hidden : List Text
  deriving Repr, Inhabited

/-- What stands before flags and remarks in the line of a word: a slash after a backslash is part of
the word. -/
def entryWord : Text → Text
  | [] => []
  | '\\' :: '/' :: t => '/' :: entryWord t
  | c :: t => if c = '/' || c = '\t' then [] else c :: entryWord t

/-- The words of the lines of a file. -/
def entryWords (lines : List Text) : List Text :=
  (lines.map fun line => (entryWord line).trim).filter (!·.isEmpty)

/-- Drops a byte order mark. -/
def dropByteOrderMark (t : Text) : Text :=
  match t with
  | c :: rest => if c.toNat = 0xFEFF then rest else t
  | [] => []

/-- Whether a line is a count. -/
def isCount (line : Text) : Bool :=
  let digits := match line with
    | '+' :: t => t
    | t => t
  !digits.isEmpty && digits.all Char.isDigit && Text.byteLength digits ≤ 20

/-- Reads a word file; its first line must be a count. -/
def WordList.read? (words : Text) : Option WordList :=
  match Text.splitOn '\n' (dropByteOrderMark words) with
  | count :: lines =>
    if isCount count.trim then
      let words := entryWords lines
      some ⟨words, (words.filter fun w => Casing.of w == .mixed).map titleCase⟩
    else none
  | [] => none

/-! ## Looking words up -/

namespace WordList

/-- Whether a word is listed. -/
def lists (l : WordList) (word : Text) : Bool :=
  l.words.contains word

/-- Whether a word in title case is listed, or stands for a word with inner capitals. -/
def listsTitle (l : WordList) (word : Text) : Bool :=
  l.words.contains word || l.hidden.contains word

/-- The forms that a word in capitals with an inner apostrophe may have: each part in small letters
or with a capital. -/
def apostropheForms (word : Text) : List Text :=
  match Text.splitFirst? ['\''] word with
  | some (first, second) =>
    if second.isEmpty then []
    else
      let first := first ++ ['\'']
      [lowercase first ++ titleCase second, titleCase first ++ titleCase second]
  | none => []

/-- Whether a word is listed in a form that its capitals allow. -/
def acceptsCased (l : WordList) (word : Text) : Bool :=
  match Casing.of word with
  | .small | .mixed => l.lists word
  | .title => l.lists word || l.lists (lowercase word)
  | .capitals =>
    l.lists word || (apostropheForms word).any l.listsTitle || l.listsTitle (titleCase word)
      || l.lists (lowercase word)

/-- Whether a word, or the words that hyphens part it into, are listed. The fuel bounds the number of
hyphens. -/
def acceptsParts (l : WordList) : Nat → Text → Bool
  | 0, word => l.acceptsCased word
  | fuel + 1, word =>
    l.acceptsCased word
      || (word.head? == some '-' && l.acceptsParts fuel (word.drop 1))
      || (word.getLast? == some '-' && l.acceptsParts fuel word.dropLast)
      || (match Text.splitFirst? ['-'] word with
          | some (first, second) =>
            !first.isEmpty && !second.isEmpty && l.acceptsParts fuel first
              && l.acceptsParts fuel second
          | none => false)

/-- Whether a word is a number: digits with single points, commas or hyphens between them, perhaps
after a sign. -/
def isNumeral (digitBefore : Bool) : Text → Bool
  | [] => digitBefore
  | c :: t =>
    if c.isDigit then isNumeral true t
    else digitBefore && (c == '.' || c == ',' || c == '-') && isNumeral false t

/-- Whether a word is known. The empty word and numbers always are; full stops at the end do not
count, unless the word is listed with one. -/
def accepts (l : WordList) (word : Text) : Bool :=
  let bare := (word.reverse.dropWhile (· == '.')).reverse
  let unsigned := match bare with
    | '-' :: t => t
    | t => t
  bare.isEmpty || isNumeral false unsigned || l.acceptsParts 10 bare
    || (bare.length != word.length && l.acceptsParts 10 (bare ++ ['.']))

/-- The dictionary of a word list. It has no suggestions. -/
def dictionary (l : WordList) : Dictionary :=
  { accepts := l.accepts }

end WordList

end CodeProse

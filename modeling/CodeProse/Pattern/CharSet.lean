/-
# Sets of characters

The classes that a pattern can name, and what can be made of them: ranges, properties, unions and
differences, complements, and closing a set under change of case.
-/
import CodeProse.Text.Offset
import CodeProse.Unicode.CaseMap
import CodeProse.Unicode.Script
import CodeProse.Unicode.Grapheme

namespace CodeProse.Pattern

open Unicode

/-- Properties of characters that a pattern can ask for by name. -/
inductive CharProperty where
  | any
  | category (k : Category)
  | letter
  | casedLetter
  | mark
  | number
  | punctuation
  | symbol
  | separator
  | other
  | assigned
  | script (name : Text)
  | alphabetic
  | uppercase
  | lowercase
  | cased
  | caseIgnorable
  | whitespace
  | wordChar
  | decimalDigit
  | pictographic
  deriving DecidableEq, Repr, Inhabited

/-- Whether a character has a property. -/
def CharProperty.holds (c : Char) : CharProperty → Bool
  | any => true
  | category k => Unicode.category c == k
  | letter => (Unicode.category c).isLetter
  | casedLetter => (Unicode.category c).isCasedLetter
  | mark => (Unicode.category c).isMark
  | number => (Unicode.category c).isNumber
  | punctuation => (Unicode.category c).isPunctuation
  | symbol => (Unicode.category c).isSymbol
  | separator => (Unicode.category c).isSeparator
  | other => (Unicode.category c).isOther
  | assigned => Unicode.category c != .unassigned
  | script name => (script? name).any (·.contains c.toNat)
  | alphabetic => isAlphabetic c
  | uppercase => isUppercase c
  | lowercase => isLowercase c
  | cased => isCased c
  | caseIgnorable => isCaseIgnorable c
  | whitespace => isWhitespace c
  | wordChar => isWordChar c
  | decimalDigit => isDecimalDigit c
  | pictographic => pictographs.contains c.toNat

/-- A set of characters. -/
inductive CharSet where
  /-- No character. -/
  | none
  /-- The characters with code points from `first` to `last`. -/
  | range (first last : Nat)
  /-- The characters with a property. -/
  | property (p : CharProperty)
  | union (a b : CharSet)
  | inter (a b : CharSet)
  | diff (a b : CharSet)
  | symmDiff (a b : CharSet)
  /-- All characters that are not in the set. -/
  | compl (a : CharSet)
  /-- All characters that differ from one in the set at most by case. -/
  | folded (a : CharSet)
  /-- The same for the letters of ASCII alone. -/
  | asciiFolded (a : CharSet)
  deriving DecidableEq, Repr, Inhabited

/-- All characters that are equal to `c` up to simple case folding. -/
def caseVariants (c : Char) : List Char :=
  let fold := foldChar c
  let exceptions := (foldExceptions.filter fun e => e.2 == fold.toNat).map fun e => Char.ofNat e.1
  let shifted := lowerTable.starts.toList.filterMap fun e =>
    let source := fold.toNat + e.2.first - e.2.target
    if e.2.target ≤ fold.toNat + e.2.first && e.2.image? source == some fold.toNat then
      some (Char.ofNat source)
    else Option.none
  c :: fold :: exceptions ++ shifted

namespace CharSet

/-- The set of one character. -/
def single (c : Char) : CharSet :=
  range c.toNat c.toNat

/-- Whether a character is in a set. -/
def contains (set : CharSet) (c : Char) : Bool :=
  match set with
  | none => false
  | range first last => first ≤ c.toNat && c.toNat ≤ last
  | property p => p.holds c
  | union a b => a.contains c || b.contains c
  | inter a b => a.contains c && b.contains c
  | diff a b => a.contains c && !b.contains c
  | symmDiff a b => a.contains c != b.contains c
  | compl a => !a.contains c
  | folded a => (caseVariants c).any a.contains
  | asciiFolded a => a.contains c || a.contains c.toLower || a.contains c.toUpper

end CharSet

end CodeProse.Pattern

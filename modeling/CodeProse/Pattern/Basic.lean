/-
# Patterns

Regular expressions with assertions about the place they stand at. Whether a text holds a match is
decided by following, character by character, all ways in which a match can go on; so the time is
bounded by the lengths of the text and the pattern, whatever the pattern is.
-/
import CodeProse.Pattern.CharSet

namespace CodeProse

/-- Assertions about a place in a text. -/
inductive Anchor where
  | textStart
  | textEnd
  | lineStart
  | lineEnd
  /-- As `lineStart`, where a carriage return may end a line as well. -/
  | lineStartCrlf
  | lineEndCrlf
  | wordBoundary (ascii : Bool)
  | notWordBoundary (ascii : Bool)
  | wordStart (ascii : Bool)
  | wordEnd (ascii : Bool)
  /-- No word character stands before. -/
  | wordStartHalf (ascii : Bool)
  /-- No word character stands after. -/
  | wordEndHalf (ascii : Bool)
  deriving DecidableEq, Repr, Inhabited

/-- A regular expression. -/
inductive Pattern where
  | empty
  | chars (set : Pattern.CharSet)
  | anchor (a : Anchor)
  | seq (a b : Pattern)
  | alt (a b : Pattern)
  /-- At least `min` and at most `max` repetitions. -/
  | repeated (a : Pattern) (min : Nat) (max : Option Nat)
  deriving DecidableEq, Repr, Inhabited

/-- Whether an assertion holds between two neighbours. -/
def Anchor.holds (before after : Option Char) : Anchor → Bool
  | textStart => before.isNone
  | textEnd => after.isNone
  | lineStart => before.all (· == '\n')
  | lineEnd => after.all (· == '\n')
  | lineStartCrlf => before.all fun c => c == '\n' || (c == '\r' && after != some '\n')
  | lineEndCrlf => after.all fun c => c == '\r' || (c == '\n' && before != some '\r')
  | wordBoundary ascii => before.any (isWord ascii) != after.any (isWord ascii)
  | notWordBoundary ascii => before.any (isWord ascii) == after.any (isWord ascii)
  | wordStart ascii => !before.any (isWord ascii) && after.any (isWord ascii)
  | wordEnd ascii => before.any (isWord ascii) && !after.any (isWord ascii)
  | wordStartHalf ascii => !before.any (isWord ascii)
  | wordEndHalf ascii => !after.any (isWord ascii)
where
  /-- Word characters, of ASCII or of all of Unicode. -/
  isWord (ascii : Bool) (c : Char) : Bool :=
    if ascii then Unicode.isAsciiWordChar c else Unicode.isWordChar c

namespace Pattern

/-- Whether a pattern matches no characters at all between two neighbours. -/
def isNullable (before after : Option Char) : Pattern → Bool
  | empty => true
  | chars _ => false
  | anchor a => a.holds before after
  | seq a b => a.isNullable before after && b.isNullable before after
  | alt a b => a.isNullable before after || b.isNullable before after
  | repeated a min _ => min == 0 || a.isNullable before after

/-- A sequence, without the empty pattern in front. -/
def followedBy (a b : Pattern) : Pattern :=
  if a = empty then b else seq a b

/-- The patterns one of which must match what follows the character `c`, if the pattern is to match
`c` and what follows it, after the character `before`. -/
def afterChar (before : Option Char) (c : Char) : Pattern → List Pattern
  | empty | anchor _ => []
  | chars set => if set.contains c then [empty] else []
  | seq a b =>
    (a.afterChar before c).map (followedBy · b)
      ++ (if a.isNullable before (some c) then b.afterChar before c else [])
  | alt a b => a.afterChar before c ++ b.afterChar before c
  | repeated a min max =>
    if max = some 0 then []
    else
      let min := if a.isNullable before (some c) then 0 else min - 1
      (a.afterChar before c).map (followedBy · (repeated a min (max.map (· - 1))))

/-- Leaves one of several equal patterns. -/
def distinct : List Pattern → List Pattern
  | [] => []
  | p :: rest =>
    let rest := distinct rest
    if rest.contains p then rest else p :: rest

/-- Whether a match of one of `pending`, or one of `p` that starts here or later, ends in the text. -/
def searchFrom (p : Pattern) (pending : List Pattern) (before : Option Char) : Text → Bool
  | [] => (p :: pending).any (·.isNullable before none)
  | c :: t =>
    let here := distinct (p :: pending)
    here.any (·.isNullable before (some c))
      || searchFrom p (here.flatMap (·.afterChar before c)) (some c) t

/-- Whether some part of a text matches. -/
def matchesIn (p : Pattern) (t : Text) : Bool :=
  searchFrom p [] none t

end Pattern

end CodeProse

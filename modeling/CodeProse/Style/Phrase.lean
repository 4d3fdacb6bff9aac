/-
# Phrases in a text

Whole-word occurrences of the phrases of a catalog, without regard to the case of ASCII letters. A
word ends where one neighbour is an ASCII letter, digit or underscore and the other is not.
Occurrences of different phrases may overlap.
-/
import CodeProse.Text.Offset
import CodeProse.Unicode.CaseMap

namespace CodeProse.Style

open Unicode

/-- Where the phrase with the number `phrase` of a catalog stands in a text. -/
structure Occurrence where
  phrase : Nat
  start : Nat
  stop : Nat
  /-- The words as they stand in the text. -/
  matched : Text
  deriving DecidableEq, Repr, Inhabited

/-- Whether a word begins or ends between two neighbours. -/
def isEdge (before after : Option Char) : Bool :=
  before.any isAsciiWordChar != after.any isAsciiWordChar

/-- Takes a phrase off the start of a text, whatever the case of its ASCII letters: the text of the
phrase as written, and what follows it. -/
def takePhrase? : (phrase : Text) → Text → Option (Text × Text)
  | [], t => some ([], t)
  | _ :: _, [] => none
  | c :: p, d :: t =>
    if c.toLower = d.toLower then (takePhrase? p t).map fun r => (d :: r.1, r.2) else none

/-- The phrase at the very start of a text, if it stands between word edges there. -/
def phraseAt? (phrase : Text) (before : Option Char) (t : Text) : Option Text :=
  (takePhrase? phrase t).bind fun r =>
    let last := if r.1.isEmpty then before else r.1.getLast?
    if isEdge before t.head? && isEdge last r.2.head? then some r.1 else none

/-- The occurrences of a phrase in a text that starts at `offset`, after the character `before`. -/
def occurrencesFrom (index : Nat) (phrase : Text) (offset : Nat) (before : Option Char) :
    Text → List Occurrence
  | [] =>
    match phraseAt? phrase before [] with
    | some m => [⟨index, offset, offset, m⟩]
    | none => []
  | c :: t =>
    let later := occurrencesFrom index phrase (offset + c.utf8Size) (some c) t
    match phraseAt? phrase before (c :: t) with
    | some m => ⟨index, offset, offset + Text.byteLength m, m⟩ :: later
    | none => later

/-- The occurrences of the phrases of a catalog whose first phrase has the number `index`. -/
def findFrom (index : Nat) (t : Text) : List Text → List Occurrence
  | [] => []
  | phrase :: rest => occurrencesFrom index phrase 0 none t ++ findFrom (index + 1) t rest

/-- All occurrences of the phrases of a catalog, by phrase and then by position. -/
def findAll (phrases : List Text) (t : Text) : List Occurrence :=
  findFrom 0 t phrases

/-- Gives a replacement the capital that the text it replaces starts with. -/
def matchCase (matched replacement : Text) : Text :=
  if matched.head?.any isUppercase then
    match replacement with
    | [] => []
    | c :: rest => upperChar c ++ rest
  else replacement

end CodeProse.Style

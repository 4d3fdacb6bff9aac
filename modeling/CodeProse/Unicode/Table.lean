/-
# Tables over code points

Properties of characters are given by the Unicode standard as ranges of code points. A table is
written as text, one range a word, and read once into a sorted array that is searched by halving.

* `CodePointSet` is a set of code points, written `41-5A AA B5`.
* `CodePointMap` gives every code point the value of the last range that starts at or below it.
-/

namespace CodeProse.Unicode

/-! ## Reading a table -/

/-- The value of a hexadecimal digit, `0` for any other character. -/
def hexDigit (c : Char) : Nat :=
  if '0' ≤ c ∧ c ≤ '9' then c.toNat - '0'.toNat
  else if 'A' ≤ c ∧ c ≤ 'F' then c.toNat - 'A'.toNat + 10
  else 0

/-- The number that a word of hexadecimal digits spells. -/
def hexValue (digits : List Char) : Nat :=
  digits.foldl (fun n c => 16 * n + hexDigit c) 0

/-- The pieces of a list between the elements that satisfy `sep`; neighbouring separators leave
empty pieces. -/
def pieces (sep : Char → Bool) : List Char → List (List Char)
  | [] => [[]]
  | c :: rest =>
    if sep c then [] :: pieces sep rest
    else
      match pieces sep rest with
      | [] => [[c]]
      | p :: ps => (c :: p) :: ps

/-- The words of a table: its pieces between blanks and line breaks, empty ones left out. -/
def tableWords (s : String) : List (List Char) :=
  (pieces (fun c => c == ' ' || c == '\n') s.toList).filter (!·.isEmpty)

/-! ## Search by halving -/

/-- The number of leading indices below `hi` at which `below` holds, given that it holds at all
indices below `lo` and that it never starts to hold again once it has failed. -/
def countBelow (below : Nat → Bool) (lo hi : Nat) : Nat :=
  if lo < hi then
    let mid := (lo + hi) / 2
    if below mid then countBelow below (mid + 1) hi else countBelow below lo mid
  else lo
termination_by hi - lo

/-! ## Sets of code points -/

/-- A set of code points as sorted, disjoint ranges with both ends included. -/
structure CodePointSet where
  ranges : Array (Nat × Nat)
  deriving Inhabited

namespace CodePointSet

/-- Reads one range: `41-5A`, or `AA` for a single code point. -/
def readRange (word : List Char) : Nat × Nat :=
  match pieces (· == '-') word with
  | [first, last] => (hexValue first, hexValue last)
  | _ => (hexValue word, hexValue word)

/-- Reads a set from the text of its table. -/
def ofTable (s : String) : CodePointSet :=
  ⟨((tableWords s).map readRange).toArray⟩

/-- Whether a code point lies in one of the ranges. -/
def contains (set : CodePointSet) (n : Nat) : Bool :=
  let count := countBelow (fun i => (set.ranges[i]?.any fun r => r.1 ≤ n)) 0 set.ranges.size
  match set.ranges[count - 1]? with
  | some (first, last) => first ≤ n && n ≤ last
  | none => false

end CodePointSet

/-! ## Maps on code points -/

/-- Values of ranges of code points: each entry holds from its start up to the next start. -/
structure CodePointMap (α : Type) where
  starts : Array (Nat × α)

namespace CodePointMap

/-- The value of the last entry that starts at or below `n`. -/
def find? {α : Type} (map : CodePointMap α) (n : Nat) : Option α :=
  let count := countBelow (fun i => (map.starts[i]?.any fun e => e.1 ≤ n)) 0 map.starts.size
  if count = 0 then none else (map.starts[count - 1]?).map (·.2)

end CodePointMap

end CodeProse.Unicode

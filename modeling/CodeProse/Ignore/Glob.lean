/-
# Globs

A glob is a pattern for paths. A star stands for characters of one name, a question mark for one, two
stars between slashes for any number of directories, brackets for one character of a set, and braces
for one of several globs. Paths are matched byte by byte: a question mark stands for one byte.
-/
import CodeProse.Pattern.Basic

namespace CodeProse

/-- The bytes of the UTF-8 form of a text, each as the character with its number. -/
def Text.bytes (t : Text) : Text :=
  t.flatMap fun c => (String.utf8EncodeChar c).map fun b => Char.ofNat b.toNat

namespace Glob

open Pattern

/-! ## Pieces -/

/-- Any byte. -/
def anyByte : Pattern := .chars (.property .any)

/-- Any row of bytes. -/
def anything : Pattern := .repeated anyByte 0 none

/-- The slash. -/
def slash : Pattern := .chars (.single '/')

/-- Any byte but the slash. -/
def nameByte : Pattern := .chars (.compl (.single '/'))

/-- The pattern that matches exactly the bytes of a text. -/
def exactly (t : Text) : Pattern :=
  t.bytes.foldr (fun b p => if p = .empty then .chars (.single b) else .seq (.chars (.single b)) p)
    .empty

/-- One of several patterns. -/
def oneOf : List Pattern → Pattern
  | [] => .empty
  | [p] => p
  | p :: rest => .alt p (oneOf rest)

/-- A part of a glob. -/
inductive Part where
  /-- Two stars at the start: any number of directories, up to a slash. -/
  | leading
  /-- Two stars at the end: anything below a directory. -/
  | trailing
  | piece (p : Pattern)
  deriving Repr, Inhabited

/-- The pattern of a part. -/
def Part.pattern : Part → Pattern
  | leading => .alt (.repeated slash 0 (some 1)) (.seq anything slash)
  | trailing => .seq slash anything
  | piece p => p

/-- The pattern of a row of parts. Two stars alone match everything. -/
def rowPattern : List Part → Pattern
  | [] => .empty
  | [p] => p.pattern
  | p :: rest => followedBy p.pattern (rowPattern rest)

/-! ## Sets in brackets -/

/-- The set of the characters from `first` to `last`, by their bytes. -/
def byteRange (first last : Char) : CharSet :=
  let singles (t : Text) : CharSet := t.foldr (fun b set => .union (.single b) set) .none
  let low := Text.bytes [first]
  let high := Text.bytes [last]
  if first = last then singles low
  else
    .union (singles (low.dropLast ++ high.tail))
      (.range ((low.getLast?.getD first).toNat) ((high.head?.getD last).toNat))

/-- What stands in brackets. -/
inductive SetRest where
  /-- The ranges, and what follows the closing bracket. -/
  | closed (ranges : List (Char × Char)) (rest : Text)
  | unclosed
  /-- A range is reversed. -/
  | reversed
  deriving Repr, Inhabited

/-- Reads the ranges of a set, the last one first. A bracket or a hyphen that comes first stands for
itself, and so does a hyphen that comes last. -/
def setRest (isFirst inRange : Bool) (ranges : List (Char × Char)) : Text → SetRest
  | [] => .unclosed
  | c :: t =>
    if c = ']' && !isFirst then .closed (if inRange then ('-', '-') :: ranges else ranges) t
    else if c = '-' && !isFirst && !inRange then setRest false true ranges t
    else
      match inRange, ranges with
      | true, (first, _) :: earlier =>
        if c < first then .reversed else setRest false false ((first, c) :: earlier) t
      | _, _ => setRest false false ((c, c) :: ranges) t

/-- The set of ranges, or its complement. -/
def setPattern (negated : Bool) (ranges : List (Char × Char)) : Pattern :=
  let set : CharSet := ranges.foldr (fun r set => .union (byteRange r.1 r.2) set) .none
  .chars (if negated then .compl set else set)

/-! ## Reading -/

/-- An open brace: the parts before it, and the globs between it and the last comma. Both have the
last one first. -/
structure Group where
  before : List Part
  done : List Pattern
  deriving Repr, Inhabited

/-- The parts after two stars, last one first, and what follows them. The stars mean directories only
next to slashes, commas and braces, or at the ends; elsewhere they are two single stars. -/
def afterStars (before : Option Char) (inGroup : Bool) (parts : List Part) (t : Text) :
    List Part × Text :=
  let plain := (.piece (.repeated nameByte 0 none) :: .piece (.repeated nameByte 0 none) :: parts, t)
  match parts with
  | [] =>
    match t with
    | [] => ([.leading], [])
    | '/' :: t => ([.leading], t)
    | _ => plain
  | last :: earlier =>
    if before = some '/' ∨ (inGroup ∧ (before = some ',' ∨ before = some '{')) then
      let put (p : Part) : List Part :=
        match last with
        | .piece _ => p :: earlier
        | other => other :: earlier
      let between := .piece (.alt slash (.seq slash (.seq anything slash)))
      match t with
      | [] => (put .trailing, [])
      | '/' :: t => (put between, t)
      | c :: t => if inGroup ∧ (c = ',' ∨ c = '}') then (put .trailing, c :: t) else plain
    else plain

/-- Reads a glob: `before` is the last character read, `sets` says whether brackets still make sets,
`groups` are the open braces, and `parts` come since the last brace or comma, the last one first. The
fuel bounds the number of characters. -/
def partsFrom? (before : Option Char) (sets : Bool) (groups : List Group) (parts : List Part) :
    Nat → Text → Option (List Part)
  | 0, _ => none
  | _ + 1, [] => if groups.isEmpty then some parts.reverse else none
  | fuel + 1, c :: t =>
    let next (p : Pattern) := partsFrom? (some c) sets groups (.piece p :: parts) fuel
    match c, groups, t with
    | '?', _, t => next nameByte t
    | '*', _, '*' :: t =>
      let (parts, rest) := afterStars before (!groups.isEmpty) parts t
      let last := if rest.length < t.length then '/' else '*'
      partsFrom? (some last) sets groups parts fuel rest
    | '*', _, t => next (.repeated nameByte 0 none) t
    | '{', _, t => partsFrom? (some c) sets (⟨parts, []⟩ :: groups) [] fuel t
    | '}', [], _ => none
    | '}', group :: groups, t =>
      let globs := (rowPattern parts.reverse :: group.done).reverse.filter (· ≠ .empty)
      partsFrom? (some c) sets groups (.piece (oneOf globs) :: group.before) fuel t
    | ',', group :: groups, t =>
      let group := { group with done := rowPattern parts.reverse :: group.done }
      partsFrom? (some c) sets (group :: groups) [] fuel t
    | '\\', _, [] => none
    | '\\', _, d :: t => partsFrom? (some d) sets groups (.piece (exactly [d]) :: parts) fuel t
    | '[', _, t =>
      let negated := t.head?.any fun d => d == '!' || d == '^'
      match sets, setRest true false [] (if negated then t.drop 1 else t) with
      | true, .closed ranges t =>
        partsFrom? (some ']') sets groups (.piece (setPattern negated ranges) :: parts) fuel t
      | true, .reversed => none
      | _, _ => partsFrom? (some c) false groups (.piece (exactly [c]) :: parts) fuel t
    | _, _, t => next (exactly [c]) t

/-- The pattern of a glob, which must match the bytes of a whole path. -/
def read? (t : Text) : Option Pattern :=
  (partsFrom? none true [] [] (t.length + 1) t).map fun parts =>
    match parts with
    | [.leading] => anything
    | parts => .seq (.anchor .textStart) (followedBy (rowPattern parts) (.anchor .textEnd))

end Glob

end CodeProse

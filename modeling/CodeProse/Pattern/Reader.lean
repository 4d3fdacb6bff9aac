/-
# Reading patterns

The notation of patterns: literals, classes, groups, repetitions, assertions and flags. There is
neither look-around nor a reference back to a group. A text that is no pattern is refused.
-/
import CodeProse.Pattern.Basic
import CodeProse.Pattern.Property
import CodeProse.Text.Digit

namespace CodeProse.Pattern

open Unicode

/-! ## Flags -/

/-- How the rest of a group is to be read. -/
structure Flags where
  ignoreCase : Bool := false
  multiLine : Bool := false
  dotAll : Bool := false
  unicode : Bool := true
  verbose : Bool := false
  crlf : Bool := false
  deriving DecidableEq, Repr, Inhabited

/-- Sets or clears the flag with the given letter. -/
def Flags.set? (f : Flags) (on : Bool) : Char → Option Flags
  | 'i' => some { f with ignoreCase := on }
  | 'm' => some { f with multiLine := on }
  | 's' => some { f with dotAll := on }
  | 'u' => some { f with unicode := on }
  | 'x' => some { f with verbose := on }
  | 'R' => some { f with crlf := on }
  | 'U' => some f
  | _ => none

/-- Reads the letters of a group of flags, up to its colon or closing parenthesis. The letters that
were read before are given, and whether they are being cleared. No letter may stand twice, and
something must follow a hyphen. -/
def flags? (f : Flags) (on : Bool) (seen : Text) : Text → Option (Flags × Text × Text)
  | [] => none
  | c :: t =>
    if c = ':' ∨ c = ')' then
      if seen.getLast? = some '-' then none else some (f, seen, c :: t)
    else if seen.contains c then none
    else if c = '-' then flags? f false (seen ++ [c]) t
    else (f.set? on c).bind fun f => flags? f on (seen ++ [c]) t

/-- In verbose notation, drops white space and comments. -/
def skipVerbose (f : Flags) (inComment : Bool) : Text → Text
  | [] => []
  | c :: t =>
    if !f.verbose then c :: t
    else if inComment then skipVerbose f (c != '\n') t
    else if isWhitespace c then skipVerbose f false t
    else if c == '#' then skipVerbose f true t
    else c :: t

/-- Drops what does not count before the next token. -/
def skip (f : Flags) (t : Text) : Text :=
  skipVerbose f false t

/-! ## Numbers and characters -/

/-- A decimal number that fits in 32 bits, with white space around it. -/
def decimal? (t : Text) : Option (Nat × Text) :=
  let t := t.dropWhile isWhitespace
  let digits := t.takeWhile Char.isDigit
  let value := Text.decimalValue digits
  if digits.isEmpty || 0x100000000 ≤ value then none
  else some (value, (t.dropWhile Char.isDigit).dropWhile isWhitespace)

/-- The character with the given code point. -/
def scalar? (n : Nat) : Option Char :=
  if h : n.isValidChar then some (Char.ofNatAux n h) else none

/-- The character of an escape in hexadecimal, after its letter: so many digits, or any number of
them in braces. Two digits without Unicode spell a byte, which must be a character of ASCII. -/
def hexEscape? (f : Flags) (count : Nat) (t : Text) : Option (Char × Text) :=
  match skip f t with
  | '{' :: t => do
    let (digits, t) ← Text.splitFirst? ['}'] t
    let n ← Text.numeral? 16 (digits.filter fun c => !(f.verbose && isWhitespace c))
    some ((← scalar? n), t)
  | t => do
    if t.length < count then none
    else
      let n ← Text.numeral? 16 (t.take count)
      if !f.unicode && count = 2 && 0x80 ≤ n then none
      else some ((← scalar? n), t.drop count)

/-! ## Escapes -/

/-- What an escape stands for. -/
inductive Escape where
  | char (c : Char)
  | set (s : CharSet)
  | anchor (a : Anchor)
  deriving Repr, Inhabited

/-- The class of an escape letter: digits, white space or word characters. -/
def perlClass (unicode : Bool) (c : Char) : CharSet :=
  let (property, name) :=
    match c with
    | 'd' => (CharProperty.decimalDigit, "digit")
    | 's' => (.whitespace, "space")
    | _ => (.wordChar, "word")
  if unicode then .property property else (asciiClass? name.toList).getD .none

/-- A class that is the complement of another; without Unicode it would have to hold bytes that are
no characters, so it is refused. -/
def compl? (f : Flags) (set : CharSet) : Option CharSet :=
  if f.unicode then some (.compl set) else none

/-- Closes a set under change of case, if case is to be ignored. -/
def foldSet (f : Flags) (set : CharSet) : CharSet :=
  if !f.ignoreCase then set else if f.unicode then .folded set else .asciiFolded set

/-- A class that is named by a letter or in braces. -/
def unicodeClass? (f : Flags) (negated : Bool) (t : Text) : Option (CharSet × Text) := do
  if !f.unicode then none
  else
    let (set, t) ← (match skip f t with
      | '{' :: t => do
        let (body, t) ← Text.splitFirst? ['}'] t
        some ((← classByText? body), t)
      | c :: t => if c == '\\' then none else do some ((← namedSet? [c]), t)
      | [] => none : Option (CharSet × Text))
    let set := foldSet f set
    some (if negated then .compl set else set, t)

/-- The names of the special word boundaries. -/
def boundaryNames : List (String × (Bool → Anchor)) :=
  [("start", .wordStart), ("end", .wordEnd), ("start-half", .wordStartHalf),
    ("end-half", .wordEndHalf)]

/-- A word boundary, after its letter; a name in braces may follow. -/
def boundary? (f : Flags) (t : Text) : Option (Anchor × Text) :=
  let plain := some (Anchor.wordBoundary (!f.unicode), t)
  match t with
  | '{' :: rest =>
    let rest := skip f rest
    if rest.head?.any fun c => c.isAlpha || c == '-' then
      match Text.splitFirst? ['}'] rest with
      | some (name, t) =>
        (boundaryNames.find? fun e => e.1.toList == name).map fun e => (e.2 (!f.unicode), t)
      | none => none
    else if rest.isEmpty then none
    else plain
  | _ => plain

/-- Punctuation and other characters of ASCII that stand for themselves after a backslash. -/
def isPlainEscape (c : Char) : Bool :=
  c.toNat < 0x80 && !c.isAlphanum && c != '<' && c != '>'

/-- An escape, after its backslash. -/
def escape? (f : Flags) : Text → Option (Escape × Text)
  | [] => none
  | c :: t =>
    match c with
    | 'x' => (hexEscape? f 2 t).map fun r => (.char r.1, r.2)
    | 'u' => (hexEscape? f 4 t).map fun r => (.char r.1, r.2)
    | 'U' => (hexEscape? f 8 t).map fun r => (.char r.1, r.2)
    | 'p' => (unicodeClass? f false t).map fun r => (.set r.1, r.2)
    | 'P' => (unicodeClass? f true t).map fun r => (.set r.1, r.2)
    | 'd' | 's' | 'w' => some (.set (perlClass f.unicode c), t)
    | 'D' | 'S' | 'W' => (compl? f (perlClass f.unicode c.toLower)).map fun s => (.set s, t)
    | 'a' => some (.char '\x07', t)
    | 'f' => some (.char '\x0C', t)
    | 't' => some (.char '\t', t)
    | 'n' => some (.char '\n', t)
    | 'r' => some (.char '\r', t)
    | 'v' => some (.char '\x0B', t)
    | 'A' => some (.anchor .textStart, t)
    | 'z' => some (.anchor .textEnd, t)
    | 'b' => (boundary? f t).map fun r => (.anchor r.1, r.2)
    | 'B' => some (.anchor (.notWordBoundary (!f.unicode)), t)
    | '<' => some (.anchor (.wordStart (!f.unicode)), t)
    | '>' => some (.anchor (.wordEnd (!f.unicode)), t)
    | _ => if isPlainEscape c then some (.char c, t) else none

/-! ## Classes in brackets -/

/-- The ways to combine two classes. -/
inductive SetOperation where
  | inter
  | diff
  | symmDiff
  deriving DecidableEq, Repr, Inhabited

/-- Combines the class to the left of an operator with the one to its right. -/
def combine (f : Flags) (left : Option (CharSet × SetOperation)) (right : CharSet) : CharSet :=
  match left with
  | none => right
  | some (left, op) =>
    let left := foldSet f left
    let right := foldSet f right
    match op with
    | .inter => .inter left right
    | .diff => .diff left right
    | .symmDiff => .symmDiff left right

/-- The operator that two equal characters stand for. -/
def setOperation? (c d : Char) : Option SetOperation :=
  if c != d then none
  else if c = '&' then some .inter
  else if c = '-' then some .diff
  else if c = '~' then some .symmDiff
  else none

/-- The characters of the hyphens and of a closing bracket at the start of a class, which stand for
themselves. -/
def leadingLiterals (f : Flags) (set : CharSet) : Nat → Text → CharSet × Text
  | 0, t => (set, t)
  | n + 1, t =>
    match skip f t with
    | '-' :: t => leadingLiterals f (.union set (.single '-')) n t
    | t => (set, t)

/-- A single character or a class inside brackets. -/
def classItem? (f : Flags) : Text → Option (Escape × Text)
  | [] => none
  | '\\' :: t => do
    let (e, t) ← escape? f t
    match e with
    | .anchor _ => none
    | .char c => char? c t
    | .set s => some (.set s, t)
  | c :: t => char? c t
where
  /-- Without Unicode, a class holds characters of ASCII alone. -/
  char? (c : Char) (t : Text) : Option (Escape × Text) :=
    if !f.unicode && 0x80 ≤ c.toNat then none else some (.char c, t)

/-- An item inside brackets, or a range of characters. -/
def classRange? (f : Flags) (t : Text) : Option (CharSet × Text) := do
  let (first, t) ← classItem? f t
  let t := skip f t
  let single : CharSet :=
    match first with
    | .char c => .single c
    | .set s => s
    | .anchor _ => .none
  match t with
  | [] => none
  | '-' :: rest =>
    let next := skip f rest
    if next.head? = some ']' || next.head? = some '-' then some (single, t)
    else
      let (last, t) ← classItem? f next
      match first, last with
      | .char a, .char b => if a.toNat ≤ b.toNat then some (.range a.toNat b.toNat, t) else none
      | _, _ => none
  | _ => some (single, t)

/-- A named class of ASCII characters, after its opening bracket and colon. -/
def namedAsciiClass? (f : Flags) (t : Text) : Option (CharSet × Text) := do
  let (negated, t) := match t with
    | '^' :: t => (true, t)
    | t => (false, t)
  let (name, t) ← Text.splitFirst? [':', ']'] t
  let set ← asciiClass? name
  if negated then some ((← compl? f set), t) else some (set, t)

mutual

/-- A class, after its opening bracket. -/
def classBody? (fuel : Nat) (f : Flags) (t : Text) : Option (CharSet × Text) :=
  match fuel with
  | 0 => none
  | fuel + 1 => do
    let t := skip f t
    let (negated, t) := match t with
      | '^' :: t => (true, skip f t)
      | t => (false, t)
    let (literals, t) := leadingLiterals f .none t.length t
    let (literals, t) := match literals, skip f t with
      | .none, ']' :: t => (CharSet.single ']', t)
      | literals, t => (literals, t)
    let (set, t) ← classRest? fuel f none literals t
    let set := foldSet f set
    if negated then some ((← compl? f set), t) else some (set, t)

/-- The rest of a class up to its closing bracket: `left` is what stands before the last operator,
and `set` the items since then. -/
def classRest? (fuel : Nat) (f : Flags) (left : Option (CharSet × SetOperation)) (set : CharSet)
    (t : Text) : Option (CharSet × Text) :=
  match fuel with
  | 0 => none
  | fuel + 1 =>
    match skip f t with
    | [] => none
    | ']' :: t => some (combine f left set, t)
    | '[' :: t => do
      let named := match t with
        | ':' :: rest => namedAsciiClass? f rest
        | _ => none
      let (item, t) ← match named with
        | some r => some r
        | none => classBody? fuel f t
      classRest? fuel f left (.union set item) t
    | c :: t => do
      match t.head?.bind (setOperation? c) with
      | some op => classRest? fuel f (some (combine f left set, op)) .none (t.drop 1)
      | none =>
        let (item, t) ← classRange? f (c :: t)
        classRest? fuel f left (.union set item) t

end

/-! ## Repetition -/

/-- The largest number of characters that a pattern may come to when its repetitions are written
out. -/
def maxSize : Nat := 300000

/-- The number of characters of a pattern with its repetitions written out. -/
def size : Pattern → Nat
  | empty | anchor _ => 0
  | chars _ => 1
  | seq a b | alt a b => size a + size b
  | repeated a min max => size a * Nat.max 1 (max.getD min)

/-- The bounds of a counted repetition, after its opening brace. -/
def bounds? (t : Text) : Option ((Nat × Option Nat) × Text) := do
  let (min, t) ← decimal? t
  match t with
  | '}' :: t => some ((min, some min), t)
  | ',' :: '}' :: t => some ((min, none), t)
  | ',' :: t =>
    let (max, t) ← decimal? t
    match t with
    | '}' :: t => if min ≤ max then some ((min, some max), t) else none
    | _ => none
  | _ => none

/-- The repetition operators after a pattern. Each may be marked as reluctant, which makes no
difference for what is found. -/
def repeated? (fuel : Nat) (f : Flags) (p : Pattern) (t : Text) : Option (Pattern × Text) :=
  match fuel with
  | 0 => none
  | fuel + 1 =>
    let operator : Option (Option ((Nat × Option Nat) × Text)) :=
      match skip f t with
      | '*' :: t => some (some ((0, none), t))
      | '+' :: t => some (some ((1, none), t))
      | '?' :: t => some (some ((0, some 1), t))
      | '{' :: t => some (bounds? t)
      | _ => none
    match operator with
    | none => some (p, t)
    | some none => none
    | some (some ((min, max), t)) =>
      let t := match t with
        | '?' :: t => t
        | t => t
      repeated? fuel f (repeated p min max) t

/-! ## Groups -/

/-- Whether `c` may start the name of a group. -/
def startsGroupName (c : Char) : Bool :=
  c == '_' || isAlphabetic c

/-- Whether `c` may go on with the name of a group. -/
def continuesGroupName (c : Char) : Bool :=
  c == '_' || c == '.' || c == '[' || c == ']' || isAlphanumeric c

/-- The name of a group, after its opening angle bracket. -/
def groupName? (t : Text) : Option (Text × Text) := do
  let (name, t) ← Text.splitFirst? ['>'] t
  match name with
  | [] => none
  | c :: rest => if startsGroupName c && rest.all continuesGroupName then some (name, t) else none

/-- The pattern of a single character. -/
def literal (f : Flags) (c : Char) : Pattern :=
  chars (foldSet f (.single c))

/-- The pattern of an assertion about the start or the end. -/
def lineAnchor (f : Flags) (atStart : Bool) : Pattern :=
  anchor <|
    match f.multiLine, f.crlf, atStart with
    | false, _, true => .textStart
    | false, _, false => .textEnd
    | true, false, true => .lineStart
    | true, false, false => .lineEnd
    | true, true, true => .lineStartCrlf
    | true, true, false => .lineEndCrlf

/-- The pattern of the dot. -/
def dot? (f : Flags) : Option Pattern :=
  let set : CharSet :=
    if f.dotAll then .none
    else if f.crlf then .union (.single '\r') (.single '\n')
    else .single '\n'
  (compl? f set).map chars

/-- The pattern of an escape. -/
def Escape.pattern (f : Flags) : Escape → Pattern
  | char c => literal f c
  | set s => chars s
  | anchor a => .anchor a

/-- The start of a group, after its opening parenthesis. -/
inductive GroupStart where
  /-- Flags for the rest of the group around it. -/
  | flags (f : Flags)
  /-- A group with flags of its own, perhaps with a name. -/
  | body (f : Flags) (name : Option Text)
  deriving Repr, Inhabited

/-- Reads the start of a group. -/
def groupStart? (f : Flags) (t : Text) : Option (GroupStart × Text) := do
  match skip f t with
  | '?' :: '=' :: _ | '?' :: '!' :: _ | '?' :: '<' :: '=' :: _ | '?' :: '<' :: '!' :: _ => none
  | '?' :: 'P' :: '<' :: t | '?' :: '<' :: t =>
    let (name, t) ← groupName? t
    some (.body f (some name), t)
  | '?' :: t =>
    let (inner, letters, t) ← flags? f true [] t
    match t with
    | ')' :: t => if letters.isEmpty then none else some (.flags inner, t)
    | _ :: t => some (.body inner none, t)
    | [] => none
  | t => some (.body f none, t)

mutual

/-- Alternatives up to a closing parenthesis or the end, given the names that groups already have. -/
def alternatives? (fuel : Nat) (f : Flags) (names : List Text) (t : Text) :
    Option (Pattern × List Text × Text) :=
  match fuel with
  | 0 => none
  | fuel + 1 => do
    let (p, f, names, t) ← sequence? fuel f names empty t
    match t with
    | '|' :: t =>
      let (q, names, t) ← alternatives? fuel f names t
      some (alt p q, names, t)
    | t => some (p, names, t)

/-- A sequence after what has been read of it, up to the next alternative. Flags that it sets hold
on after it. -/
def sequence? (fuel : Nat) (f : Flags) (names : List Text) (done : Pattern) (t : Text) :
    Option (Pattern × Flags × List Text × Text) :=
  match fuel with
  | 0 => none
  | fuel + 1 => do
    let add (p : Pattern) : Pattern := if done = empty then p else seq done p
    match skip f t with
    | [] => some (done, f, names, [])
    | '|' :: t => some (done, f, names, '|' :: t)
    | ')' :: t => some (done, f, names, ')' :: t)
    | '(' :: t =>
      let (start, t) ← groupStart? f t
      match start with
      | .flags f => sequence? fuel f names done t
      | .body inner name =>
        let names ← (match name with
          | some n => if names.contains n then none else some (n :: names)
          | none => some names : Option (List Text))
        let (p, names, t) ← alternatives? fuel inner names t
        match t with
        | ')' :: t =>
          let (p, t) ← repeated? (t.length + 1) f p t
          sequence? fuel f names (add p) t
        | _ => none
    | c :: t =>
      let (p, t) ← (match c with
        | '*' | '+' | '?' | '{' => none
        | '[' => (classBody? (2 * t.length + 2) f t).map fun r => (chars r.1, r.2)
        | '\\' => (escape? f t).map fun r => (r.1.pattern f, r.2)
        | '.' => (dot? f).map fun p => (p, t)
        | '^' => some (lineAnchor f true, t)
        | '$' => some (lineAnchor f false, t)
        | c => some (literal f c, t) : Option (Pattern × Text))
      let (p, t) ← repeated? (t.length + 1) f p t
      sequence? fuel f names (add p) t

end

/-- Reads a pattern; `none` if the text is not one, or comes to too much when written out. -/
def read? (t : Text) : Option Pattern := do
  let (p, _, rest) ← alternatives? (2 * t.length + 2) {} [] t
  if rest.isEmpty && size p ≤ maxSize then some p else none

end CodeProse.Pattern

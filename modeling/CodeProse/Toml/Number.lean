/-
# Numbers and moments in TOML

Integers are written in decimal, or in base 16, 8 or 2 after a mark, and must fit into 64 bits.
Numbers with a fraction or an exponent are rounded to double precision. Dates and times are checked
and kept as written.
-/
import CodeProse.Decimal.Single
import CodeProse.Text.Digit
import CodeProse.Toml.Basic

namespace CodeProse.Toml

/-! ## Digits -/

/-- The digits at the start of a text, without the single underscores between them, and what follows
them. -/
def moreDigits (isDigit : Char → Bool) : Text → Text × Text
  | [] => ([], [])
  | '_' :: d :: t =>
    if isDigit d then
      let r := moreDigits isDigit t
      (d :: r.1, r.2)
    else ([], '_' :: d :: t)
  | c :: t =>
    if isDigit c then
      let r := moreDigits isDigit t
      (c :: r.1, r.2)
    else ([], c :: t)

/-- A row of digits, of which there must be one. -/
def digits? (isDigit : Char → Bool) (t : Text) : Option (Text × Text) :=
  if t.head?.any isDigit then some (moreDigits isDigit t) else none

/-- A row of decimal digits that does not start with zero, unless it is zero. -/
def whole? : Text → Option (Text × Text)
  | '0' :: t => some (['0'], t)
  | t => digits? Char.isDigit t

/-- A sign, perhaps: whether it is a minus, and what follows. -/
def sign : Text → Bool × Text
  | '-' :: t => (true, t)
  | '+' :: t => (false, t)
  | t => (false, t)

/-! ## Numbers -/

/-- An integer, if it fits into 64 bits. -/
def integer? (n : Int) : Option Toml :=
  if -0x8000000000000000 ≤ n ∧ n < 0x8000000000000000 then some (.integer n) else none

/-- A number in a base other than ten, after its mark. -/
def based? (base : Nat) (t : Text) : Option (Toml × Text) := do
  let (row, t) ← digits? (fun c => (Text.digitValue? base c).isSome) t
  let n ← Text.numeral? base row
  return (← integer? n, t)

/-- The digits of a fraction, none if there is no point. -/
def fraction? : Text → Option (Option Text × Text)
  | '.' :: t => (digits? Char.isDigit t).map fun r => (some r.1, r.2)
  | t => some (none, t)

/-- The value of an exponent, if there is one. -/
def exponent? : Text → Option (Option Int × Text)
  | [] => some (none, [])
  | c :: t =>
    if c = 'e' ∨ c = 'E' then do
      let (row, rest) ← digits? Char.isDigit (sign t).2
      let n : Int := Text.decimalValue row
      return (some (if (sign t).1 then -n else n), rest)
    else some (none, c :: t)

/-- A number that is too large is none; one that is too small is the infinity below. -/
def float? (negative : Bool) (digits : Text) (power : Int) : Option Toml :=
  let x := Decimal.toFloat negative (Text.decimalValue digits) power
  if x == 1.0 / 0.0 then none else some (.float x)

/-- A decimal number after its sign. -/
def unsigned? (negative : Bool) (t : Text) : Option (Toml × Text) := do
  let (row, t) ← whole? t
  let (places, t) ← fraction? t
  let (power, t) ← exponent? t
  if places.isNone && power.isNone then
    let n : Int := Text.decimalValue row
    return (← integer? (if negative then -n else n), t)
  else
    let places := places.getD []
    return (← float? negative (row ++ places) (power.getD 0 - places.length), t)

/-- Infinity, or no number at all. -/
def special? (negative : Bool) : Text → Option (Toml × Text)
  | 'i' :: 'n' :: 'f' :: t => some (.float (if negative then -1.0 / 0.0 else 1.0 / 0.0), t)
  | 'n' :: 'a' :: 'n' :: t => some (.float (0.0 / 0.0), t)
  | _ => none

/-- A number at the start of a text. -/
def number? : Text → Option (Toml × Text)
  | '0' :: 'x' :: t => based? 16 t
  | '0' :: 'o' :: t => based? 8 t
  | '0' :: 'b' :: t => based? 2 t
  | t =>
    let (negative, t) := sign t
    match special? negative t with
    | some r => some r
    | none => unsigned? negative t

/-! ## Moments -/

/-- The number that the first `count` characters spell, and the rest. -/
def fixedDigits? (count : Nat) (t : Text) : Option (Nat × Text) :=
  if (t.take count).length = count then
    (Text.numeral? 10 (t.take count)).map fun n => (n, t.drop count)
  else none

/-- A number of two digits in a range. -/
def twoDigits? (low high : Nat) (t : Text) : Option (Nat × Text) :=
  (fixedDigits? 2 t).filter fun r => low ≤ r.1 && r.1 ≤ high

/-- The number of days of a month. -/
def daysOfMonth (year month : Nat) : Nat :=
  if month = 2 then
    (if year % 4 = 0 ∧ (year % 100 ≠ 0 ∨ year % 400 = 0) then 29 else 28)
  else if month = 4 ∨ month = 6 ∨ month = 9 ∨ month = 11 then 30
  else 31

/-- What follows a date. -/
def afterDate? (t : Text) : Option Text := do
  let (year, t) ← fixedDigits? 4 t
  let (month, t) ← twoDigits? 1 12 (← Text.dropStart? ['-'] t)
  let (_, t) ← twoDigits? 1 (daysOfMonth year month) (← Text.dropStart? ['-'] t)
  return t

/-- What follows a fraction of a second, if there is one. -/
def afterFraction : Text → Text
  | '.' :: c :: t => if c.isDigit then t.dropWhile Char.isDigit else '.' :: c :: t
  | t => t

/-- What follows a time of day. -/
def afterTime? (t : Text) : Option Text := do
  let (_, t) ← twoDigits? 0 23 t
  let (_, t) ← twoDigits? 0 59 (← Text.dropStart? [':'] t)
  let (_, t) ← twoDigits? 0 60 (← Text.dropStart? [':'] t)
  return afterFraction t

/-- What follows the offset of a time, if there is one. -/
def afterOffset : Text → Text
  | [] => []
  | c :: t =>
    if c = 'Z' ∨ c = 'z' then t
    else if c = '+' ∨ c = '-' then
      let rest := do
        let (_, t) ← twoDigits? 0 23 t
        let (_, t) ← twoDigits? 0 59 (← Text.dropStart? [':'] t)
        return t
      rest.getD (c :: t)
    else c :: t

/-- What follows a date, a date with a time, or a time. -/
def afterMoment? (t : Text) : Option Text :=
  match afterDate? t with
  | none => afterTime? t
  | some rest =>
    match rest with
    | [] => some []
    | c :: later =>
      if c = 'T' ∨ c = 't' ∨ c = ' ' then
        match afterTime? later with
        | some rest => some (afterOffset rest)
        | none => some rest
      else some rest

/-- A moment at the start of a text. -/
def moment? (t : Text) : Option (Toml × Text) :=
  (afterMoment? t).map fun rest => (.moment (t.take (t.length - rest.length)), rest)

end CodeProse.Toml

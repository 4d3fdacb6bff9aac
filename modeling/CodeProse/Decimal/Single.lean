/-
# Decimal text of single-precision numbers

A number is written with the fewest digits that read back as the same number, and of those with the
digits nearest to it. The text never has an exponent.
-/
import CodeProse.Text.Search

namespace CodeProse.Decimal

/-! ## Shortest digits -/

/-- A positive number `mantissa * 2 ^ exponent` together with the interval of the real numbers that
are rounded to it. All four are given as multiples of the same unit, one part in `unit`. -/
structure Rounding where
  value : Nat
  lower : Nat
  upper : Nat
  unit : Nat
  /-- Whether the ends of the interval belong to it. -/
  closed : Bool
  deriving Repr, Inhabited

/-- The rounding interval of `mantissa * 2 ^ exponent`. The gap below a power of two is half as wide,
unless the number is the smallest of its kind. -/
def Rounding.ofBinary (mantissa : Nat) (exponent : Int) (narrowBelow : Bool) : Rounding :=
  let scale := if 0 ≤ exponent then Nat.pow 2 exponent.toNat else 1
  let unit := if 0 ≤ exponent then 1 else Nat.pow 2 (-exponent).toNat
  { value := 4 * mantissa * scale
    lower := (4 * mantissa - (if narrowBelow then 1 else 2)) * scale
    upper := (4 * mantissa + 2) * scale
    unit := 4 * unit
    closed := mantissa % 2 == 0 }

/-- Whether `digits * 10 ^ power` lies in the interval. -/
def Rounding.holds (r : Rounding) (digits : Nat) (power : Int) : Bool :=
  let x := digits * r.unit * Nat.pow 10 power.toNat
  let scale := Nat.pow 10 (-power).toNat
  if r.closed then r.lower * scale ≤ x && x ≤ r.upper * scale
  else r.lower * scale < x && x < r.upper * scale

/-- The largest multiple of `10 ^ power` that is not above the number. -/
def Rounding.floor (r : Rounding) (power : Int) : Nat :=
  r.value * Nat.pow 10 (-power).toNat / (r.unit * Nat.pow 10 power.toNat)

/-- The neighbour of the number on the grid of multiples of `10 ^ power` that reads back as the
number, the nearer one if both do. -/
def Rounding.onGrid? (r : Rounding) (power : Int) : Option Nat :=
  let below := r.floor power
  let above := below + 1
  match r.holds below power, r.holds above power with
  | false, false => none
  | true, false => some below
  | false, true => some above
  | true, true =>
    let scale := Nat.pow 10 (-power).toNat
    let step := r.unit * Nat.pow 10 power.toNat
    let value := r.value * scale
    some (if 2 * value ≤ (below + above) * step then below else above)

/-- The first grid, from the coarsest on, with a number that reads back. -/
def Rounding.shortestFrom (r : Rounding) (power : Int) : Nat → Nat × Int
  | 0 => (r.floor power, power)
  | fuel + 1 =>
    match r.onGrid? power with
    | some digits => if digits = 0 then r.shortestFrom (power - 1) fuel else (digits, power)
    | none => r.shortestFrom (power - 1) fuel

/-! ## Positional text -/

/-- The text of `digits * 10 ^ power` without an exponent. -/
def positional (digits : Nat) (power : Int) : Text :=
  let text := Text.ofNat digits
  if 0 ≤ power then text ++ List.replicate power.toNat '0'
  else
    let places := (-power).toNat
    if places < text.length then
      text.take (text.length - places) ++ '.' :: text.drop (text.length - places)
    else '0' :: '.' :: List.replicate (places - text.length) '0' ++ text

/-- The text of a single-precision number. -/
def ofFloat32 (x : Float32) : Text :=
  let bits := x.toBits.toNat
  let exponent := bits / 0x800000 % 256
  let fraction := bits % 0x800000
  let sign : Text := if 0x80000000 ≤ bits then ['-'] else []
  if exponent = 255 then (if fraction = 0 then sign ++ "inf".toList else "NaN".toList)
  else if exponent = 0 ∧ fraction = 0 then sign ++ ['0']
  else
    let mantissa := if exponent = 0 then fraction else 0x800000 + fraction
    let power : Int := (Nat.max exponent 1 : Int) - 150
    let r := Rounding.ofBinary mantissa power (fraction = 0 && 1 < exponent)
    let shortest := r.shortestFrom 39 90
    sign ++ positional shortest.1 shortest.2

/-- The double-precision number next to `digits * 10 ^ power`. Powers far beyond the range of such
numbers are cut off first. -/
def toFloat (negative : Bool) (digits : Nat) (power : Int) : Float :=
  let length : Int := (Text.ofNat digits).length
  let power := if digits = 0 then 0 else min 400 (max power (-400 - length))
  let x := Float.ofScientific digits (power < 0) power.natAbs
  if negative then -x else x

/-- The single-precision number next to `digits * 10 ^ power`, rounded by way of double
precision. -/
def toFloat32 (negative : Bool) (digits : Nat) (power : Int) : Float32 :=
  (toFloat negative digits power).toFloat32

end CodeProse.Decimal

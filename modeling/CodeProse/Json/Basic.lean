/-
# JSON values
-/
import CodeProse.Text.Search

namespace CodeProse

/-- A number as it is written: its digits without point and exponent, and the power of ten that they
are multiplied with. -/
structure JsonNumber where
  negative : Bool
  digits : Nat
  exponent : Int
  /-- Whether the number is written with neither a fraction nor an exponent. -/
  isInteger : Bool
  deriving DecidableEq, Repr, Inhabited

/-- A JSON value. The members of an object stand in the order in which they are written. -/
inductive Json where
  | null
  | bool (b : Bool)
  | number (n : JsonNumber)
  | string (s : Text)
  | array (items : List Json)
  | object (members : List (Text × Json))
  deriving Repr, Inhabited

namespace Json

/-- A natural number. -/
def ofNat (n : Nat) : Json :=
  .number ⟨false, n, 0, true⟩

/-- A literal string. -/
def ofString (s : String) : Json :=
  .string s.toList

/-- An optional value, `null` if there is none. -/
def ofOption {α : Type} (f : α → Json) : Option α → Json
  | some a => f a
  | none => .null

/-- An object whose names are literal. -/
def ofMembers (members : List (String × Json)) : Json :=
  .object (members.map fun m => (m.1.toList, m.2))

/-- The value of the last member with the given name. -/
def member? (json : Json) (name : Text) : Option Json :=
  match json with
  | .object members => members.reverse.lookup name
  | _ => none

/-- The natural number that a value is, if it is written as one. -/
def nat? : Json → Option Nat
  | .number n => if n.isInteger && !n.negative then some n.digits else none
  | _ => none

end Json

end CodeProse

/-
# Answers as JSON

A service answers in JSON. A record is an object, whose unknown members are ignored, or an array of
its fields in order. A field that is left out has its default; one that has none must be there.
-/
import CodeProse.Grammar.Basic
import CodeProse.Json.Reader

namespace CodeProse.Grammar

/-- The fields of a record with the given names, in that order: what is written for each. A name may
not stand twice, and there may not be more items than fields. -/
def fields? (names : List String) : Json → Option (List (Option Json))
  | .array items =>
    if items.length ≤ names.length then
      some ((items.map some) ++ List.replicate (names.length - items.length) none)
    else none
  | .object members =>
    names.mapM fun name =>
      match members.filter fun m => m.1 == name.toList with
      | [] => some none
      | [m] => some (some m.2)
      | _ => none
  | _ => none

/-- A field that must be there. -/
def needed? {α : Type} (read : Json → Option α) : Option Json → Option α
  | some j => read j
  | none => none

/-- A field that may be left out. -/
def defaulting? {α : Type} (read : Json → Option α) (default : α) : Option Json → Option α
  | some j => read j
  | none => some default

/-- A number of 64 bits. -/
def size? (j : Json) : Option Nat :=
  j.nat?.bind fun n => if n < 0x10000000000000000 then some n else none

/-- A string. -/
def text? : Json → Option Text
  | .string s => some s
  | _ => none

/-- A list whose items are all readable. -/
def list? {α : Type} (read : Json → Option α) : Json → Option (List α)
  | .array items => items.mapM read
  | _ => none

/-- A value or `null`. -/
def nullable? {α : Type} (read : Json → Option α) : Json → Option (Option α)
  | .null => some none
  | j => (read j).map some

/-- A single-precision number; one too large for double precision is refused. -/
def float32? : Json → Option Float32
  | .number n =>
    let x := Decimal.toFloat n.negative n.digits n.exponent
    if x.isInf then none else some x.toFloat32
  | _ => none

/-- A replacement. -/
def replacement? (j : Json) : Option Text := do
  match ← fields? ["value"] j with
  | [value] => needed? text? value
  | _ => none

/-- The rule of a finding. -/
def rule? (j : Json) : Option MatchRule := do
  match ← fields? ["id", "description", "confidence"] j with
  | [id, description, confidence] =>
    some {
      id := ← defaulting? text? [] id
      description := ← defaulting? text? [] description
      confidence := ← defaulting? (nullable? float32?) none confidence }
  | _ => none

/-- A finding. -/
def match? (j : Json) : Option GrammarMatch := do
  match ← fields? ["offset", "length", "replacements", "rule", "shortMessage", "message"] j with
  | [offset, length, replacements, rule, shortMessage, message] =>
    some {
      offset := ← needed? size? offset
      length := ← needed? size? length
      replacements := ← defaulting? (list? replacement?) [] replacements
      rule := ← defaulting? (nullable? rule?) none rule
      shortMessage := ← defaulting? text? [] shortMessage
      message := ← defaulting? text? [] message }
  | _ => none

/-- An answer. -/
def response? (j : Json) : Option GrammarResponse := do
  match ← fields? ["matches"] j with
  | [found] => some ⟨← defaulting? (list? match?) [] found⟩
  | _ => none

/-- Reads an answer from its text. -/
def readResponse? (t : Text) : Option GrammarResponse :=
  (Json.read? t).bind response?

end CodeProse.Grammar

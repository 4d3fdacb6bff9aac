/-
# Issues

A unit of prose is a stretch of a source file together with the kind of syntax that holds it. An
issue is one finding inside a unit, perhaps with a text that a machine may put in its place.
-/
import CodeProse.Text.Offset

namespace CodeProse

/-- The syntax that a unit of prose was taken from. -/
inductive UnitKind where
  | comment
  | string
  | template
  | identifier
  deriving DecidableEq, Repr, Inhabited

/-- How grave an issue is. -/
inductive Severity where
  | info
  | warning
  | error
  deriving DecidableEq, Repr, Inhabited

/-- The rule that an issue breaks. -/
inductive Rule where
  | weakWord
  | passiveVoice
  | terminology
  | contraction
  | prohibited
  | genderNeutral
  | readability
  | spelling
  | grammar
  deriving DecidableEq, Repr, Inhabited

namespace Rule

/-- The name under which a rule is reported. -/
def name : Rule → Text
  | weakWord => "weak-word".toList
  | passiveVoice => "passive-voice".toList
  | terminology => "terminology".toList
  | contraction => "contraction".toList
  | prohibited => "prohibited".toList
  | genderNeutral => "gender-neutral".toList
  | readability => "readability".toList
  | spelling => "spelling".toList
  | grammar => "grammar".toList

/-- All rules. -/
def all : List Rule :=
  [weakWord, passiveVoice, terminology, contraction, prohibited, genderNeutral, readability,
    spelling, grammar]

end Rule

/-- The name under which a severity is reported. -/
def Severity.name : Severity → Text
  | info => "info".toList
  | warning => "warning".toList
  | error => "error".toList

/-- The name under which a kind of unit is reported. -/
def UnitKind.name : UnitKind → Text
  | comment => "Comment".toList
  | string => "String".toList
  | template => "Template".toList
  | identifier => "Identifier".toList

/-- One finding. It covers the bytes from `start` to `stop` of its unit. A replacement may be put in
their place without review; an empty one deletes them. -/
structure Issue where
  rule : Rule
  start : Nat
  stop : Nat
  severity : Severity
  message : Text
  suggestion : Option Text := none
  replacement : Option Text := none
  deriving DecidableEq, Repr, Inhabited

/-- An issue of a unit, seen from a text in which the unit starts at `offset`. -/
def Issue.shift (offset : Nat) (issue : Issue) : Issue :=
  { issue with start := issue.start + offset, stop := issue.stop + offset }

/-- An issue whose replacement is also its suggestion. -/
def Issue.replaceWith (text : Text) (issue : Issue) : Issue :=
  { issue with suggestion := some text, replacement := some text }

end CodeProse

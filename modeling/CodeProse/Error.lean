/-
# Errors

What can go wrong outside a text: a grammar service that does not answer, a setting that makes no
sense, a dictionary that cannot be had.
-/
import CodeProse.Decimal.Single

namespace CodeProse

/-- Why a grammar service has no answer. -/
inductive GrammarError where
  /-- The request did not get through. -/
  | transport (reason : Text)
  /-- The service answered with a status that is no success. -/
  | status (code : Nat) (body : Text)
  /-- The answer cannot be read. -/
  | decode (reason : Text)
  /-- The worker that asks the service is gone. -/
  | closed
  deriving DecidableEq, Repr, Inhabited

/-- The wording of a grammar error. -/
def GrammarError.message : GrammarError → Text
  | transport reason => "request failed: ".toList ++ reason
  | status code body =>
    "service answered ".toList ++ Text.ofNat code ++ ": ".toList ++ body
  | decode reason => "malformed response: ".toList ++ reason
  | closed => "grammar worker is gone".toList

/-- Why a unit cannot be checked, or nothing can. -/
inductive CheckError where
  /-- The dictionary of a language cannot be read. -/
  | dictionary (language : Text)
  /-- A pattern is none. -/
  | pattern (text : Text)
  | configuration (reason : Text)
  | grammar (e : GrammarError)
  deriving DecidableEq, Repr, Inhabited

/-- The wording of an error. -/
def CheckError.message : CheckError → Text
  | dictionary language => language
  | pattern text => text
  | configuration reason => "Configuration error: ".toList ++ reason
  | grammar e => "Grammar service error: ".toList ++ e.message

/-- A minimal confidence that is no number between 0 and 1. -/
def CheckError.confidenceOutOfRange (x : Float32) : CheckError :=
  .configuration ("confidence must be within [0, 1], got ".toList ++ Decimal.ofFloat32 x)

end CodeProse

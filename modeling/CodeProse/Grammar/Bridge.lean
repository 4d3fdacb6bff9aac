/-
# The bridge to a worker

A service that may die is asked by a worker, one request at a time. Once the service has died in the
middle of a request, the worker is gone: that request and all later ones are answered with `closed`.
-/
import CodeProse.Grammar.Basic

namespace CodeProse.Grammar

/-- A service that may die instead of answering. -/
abbrev FragileService := GrammarRequest → Option (Except GrammarError GrammarResponse)

/-- The state of a bridge. -/
structure Bridge where
  /-- Whether the worker is still there. -/
  alive : Bool := true
  /-- The requests that the service has seen, the last one first. -/
  seen : List GrammarRequest := []
  deriving Repr, Inhabited

namespace Bridge

/-- Sends a request over the bridge and waits for the answer. -/
def check (service : FragileService) (request : GrammarRequest) (b : Bridge) :
    Except GrammarError GrammarResponse × Bridge :=
  if b.alive then
    let seen := request :: b.seen
    match service request with
    | some answer => (answer, { b with seen })
    | none => (.error .closed, ⟨false, seen⟩)
  else (.error .closed, b)

end Bridge

end CodeProse.Grammar

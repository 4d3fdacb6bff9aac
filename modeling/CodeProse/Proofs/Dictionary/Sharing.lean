/-
# A cache shared by threads

Any number of threads ask one cache for dictionaries, each for one at a time. What a thread does
while it holds the lock of the cache is one step, and between its steps others may take theirs: a
thread that gets a dictionary looks first whether it is active, and if it is not looks again before
it loads it, as another may have loaded it by then; a thread that reloads one loads it without
regard to the others, and stores it later.

The loader may succeed on one call and fail on the next. `DictionaryCache.get` and
`DictionaryCache.reload` are what comes of a request whose steps nobody comes between
(`advance_advance`).
-/
import CodeProse.Dictionary.Cache
import CodeProse.Settings
import Mathlib.Logic.Relation

namespace CodeProse.DictionaryCache

/-- What a cache answers a thread. -/
abbrev Answer := Except CheckError Dictionary

/-! ## Requests -/

/-- What a thread asks of the cache. -/
inductive Request where
  | get (language : Text)
  | reload (language : Text)
  /-- A checker is set up: it gets the dictionary of its language, so as to fail right away if there
  is none. -/
  | start (s : Settings)

namespace Request

/-- The language whose dictionary is asked for. -/
def language : Request → Text
  | .get language | .reload language => language
  | .start s => s.language

/-- Whether the dictionary is to be loaded even if it is active. -/
def isReload : Request → Bool
  | .reload _ => true
  | _ => false

/-- Whether a request is to get the dictionary of a language, and is content with an active one. -/
def Gets (language : Text) (request : Request) : Prop :=
  request.isReload = false ∧ request.language = language

/-- What comes of a request that is alone with the cache. -/
def alone (load : Loader) (request : Request) (cache : DictionaryCache) :
    Answer × DictionaryCache :=
  if request.isReload then cache.reload load request.language
  else cache.get load request.language

end Request

/-! ## Calls -/

/-- How far a call has come. -/
inductive Phase where
  /-- It is to look whether its language is active. -/
  | looking
  /-- It is to load its dictionary, unless it gets one and that is active by now. -/
  | loading
  /-- It has loaded a dictionary, and is to store it. -/
  | storing (d : Dictionary)
  | returned (answer : Answer)

/-- The dictionary or the error that a call has come by. -/
def Phase.found? : Phase → Option Answer
  | .storing d => some (.ok d)
  | .returned answer => some answer
  | _ => none

/-- Where a call begins. -/
def Request.firstPhase (request : Request) : Phase :=
  if request.isReload then .loading else .looking

/-- The next section of a call: what comes of it, and the cache after it. -/
def advance (load : Loader) (request : Request) (phase : Phase) (cache : DictionaryCache) :
    Phase × DictionaryCache :=
  let language := request.language
  match phase with
  | .looking =>
    match cache.active with
    | some (active, d) =>
      if active = language then (.returned (.ok d), cache) else (.loading, cache)
    | none => (.loading, cache)
  | .loading =>
    if request.isReload then
      let loads := language :: cache.loads
      match load cache.loads language with
      | .ok d => (.storing d, { cache with loads })
      | .error e => (.returned (.error e), { cache with loads })
    else
      let (answer, cache) := cache.get load language
      (.returned answer, cache)
  | .storing d => (.returned (.ok d), { cache with active := some (language, d) })
  | .returned answer => (.returned answer, cache)

/-- A call of a thread. -/
structure Call (Thread : Type) where
  thread : Thread
  request : Request
  phase : Phase

/-- Whether a call has not returned. -/
def Call.IsOpen {Thread : Type} (c : Call Thread) : Prop :=
  ∀ answer, c.phase ≠ .returned answer

/-! ## Threads and their cache -/

/-- A cache with all calls so far. A call is known by its place in their list. -/
structure Sharing (Thread : Type) where
  calls : List (Call Thread) := []
  cache : DictionaryCache := {}

variable {Thread : Type}

/-- A call comes on by one section. -/
def Sharing.advanced (load : Loader) (s : Sharing Thread) (n : Nat) (c : Call Thread) :
    Sharing Thread :=
  let next := advance load c.request c.phase s.cache
  ⟨s.calls.set n { c with phase := next.1 }, next.2⟩

/-- What may happen next if only some requests can come on: a thread whose calls have all returned
calls, or a call that is open comes on. -/
inductive Step (load : Loader) (mayAdvance : Request → Prop) :
    Sharing Thread → Sharing Thread → Prop
  | call {s : Sharing Thread} (thread : Thread) (request : Request)
      (hfree : ∀ c ∈ s.calls, c.thread = thread → ∃ answer, c.phase = .returned answer) :
      Step load mayAdvance s { s with calls := s.calls ++ [⟨thread, request, request.firstPhase⟩] }
  | advance {s : Sharing Thread} {n : Nat} {c : Call Thread} (hc : s.calls[n]? = some c)
      (hopen : c.IsOpen) (hmay : mayAdvance c.request) :
      Step load mayAdvance s (s.advanced load n c)

/-- What comes of a cache in a while, if only some requests can come on. -/
def Runs (load : Loader) (mayAdvance : Request → Prop) :
    Sharing Thread → Sharing Thread → Prop :=
  Relation.ReflTransGen (Step load mayAdvance)

/-- What can come of a cache that was not used before. -/
def Reachable (load : Loader) (s : Sharing Thread) : Prop :=
  Runs load (fun _ => True) {} s

/-! ## What the loader did -/

/-- Whether the loader returned this when some language was loaded, at one of the times it was. -/
def Loaded (load : Loader) (loads : List Text) (language : Text) (answer : Answer) : Prop :=
  ∃ before, language :: before <:+ loads ∧ load before language = answer

/-- How many loads succeeded. -/
def successes (load : Loader) : List Text → Nat
  | [] => 0
  | language :: before =>
    (if (load before language).isOk then 1 else 0) + successes load before

end CodeProse.DictionaryCache

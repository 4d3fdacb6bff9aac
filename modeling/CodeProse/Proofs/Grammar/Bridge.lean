/-
# A bridge in use

Many clients call over one bridge. A client puts its request into a channel that has room for one,
and is blocked until its reply is there or can no longer come; the reply to each call travels on its
own. A worker takes the requests out of the channel, one at a time, and asks the service. A service
that dies takes the worker with it: the worker drops the reply that it owes, and then closes the
channel, and the replies to all that is still in the channel are dropped with it.

`Work` is what may happen next to the calls that are under way, in any order, and `Step` lets clients
call besides. `Bridge.checkAll` is the same bridge with one client, which calls time after time.
-/
import CodeProse.Grammar.Bridge
import Mathlib.Logic.Relation

namespace CodeProse.Grammar.Bridge

/-- What a request is answered with. -/
abbrev Answer := Except GrammarError GrammarResponse

/-- A service that may change from request to request: what it is when it has seen some requests, the
last one first. -/
abbrev Service := List GrammarRequest → FragileService

/-! ## One call after the other -/

/-- Sends requests one after the other: the answers, and the bridge after them. -/
def checkAll (service : Service) : List GrammarRequest → Bridge → List Answer × Bridge
  | [], b => ([], b)
  | request :: rest, b =>
    let first := b.check (service b.seen) request
    let later := checkAll service rest first.2
    (first.1 :: later.1, later.2)

/-! ## Calls, channel and worker -/

/-- What has become of the reply to a call. -/
inductive Reply where
  | pending
  | sent (answer : Answer)
  /-- It was given up, and will never be sent. -/
  | dropped

/-- What a client that waits for a reply is told, once there is something to tell. -/
def Reply.answer? : Reply → Option Answer
  | .pending => none
  | .sent answer => some answer
  | .dropped => some (.error .closed)

/-- How far a call has come. -/
inductive Phase where
  /-- The client waits until the channel takes its request. -/
  | sending
  /-- The channel took the request, and the client waits for the reply. -/
  | waiting
  | returned (answer : Answer)

/-- A call of a client. -/
structure Call (Client : Type) where
  client : Client
  request : GrammarRequest
  phase : Phase
  reply : Reply

/-- What goes through the channel: a request, and the number of the call that it is to be replied
to. -/
structure Message where
  request : GrammarRequest
  call : Nat
  deriving DecidableEq

/-- What the worker is about. -/
inductive Worker where
  /-- It waits for a message. -/
  | idle
  /-- The request of a message is inside the service. -/
  | serving (m : Message)
  /-- The service has answered, and the reply is yet to be sent. -/
  | replying (m : Message) (answer : Answer)
  /-- The service has died, and the channel is yet to be closed. -/
  | unwinding
  | gone

namespace Worker

/-- Whether the worker has not died. -/
def isAlive : Worker → Bool
  | .unwinding | .gone => false
  | _ => true

/-- The messages whose requests are inside the service. -/
def inside : Worker → List Message
  | .serving m => [m]
  | _ => []

/-- The messages that the worker owes a reply to. -/
def owed : Worker → List Message
  | .serving m | .replying m _ => [m]
  | _ => []

end Worker

/-- A bridge in use, with what has gone over it so far. -/
structure Traffic (Client : Type) where
  /-- All calls so far. A call is known by its place in this list. -/
  calls : List (Call Client) := []
  /-- The messages that wait in the channel. -/
  channel : List Message := []
  worker : Worker := .idle
  /-- The messages that the channel took, in order. -/
  accepted : List Message := []
  /-- The messages whose requests have reached the service, in order. -/
  entered : List Message := []
  /-- The messages whose requests the service is done with, in order, with its answer. There is none
  if the service died. -/
  left : List (Message × Option Answer) := []

/-- How many messages the channel has room for. -/
def capacity : Nat := 1

variable {Client : Type}

/-- Changes the calls with the given numbers. -/
def alter (numbers : List Nat) (f : Call Client → Call Client) (calls : List (Call Client)) :
    List (Call Client) :=
  calls.mapIdx fun n c => if n ∈ numbers then f c else c

@[simp] theorem getElem?_alter (numbers : List Nat) (f : Call Client → Call Client)
    (calls : List (Call Client)) (n : Nat) :
    (alter numbers f calls)[n]? = calls[n]?.map fun c => if n ∈ numbers then f c else c := by
  simp [alter]

namespace Traffic

/-- The requests that the service is done with, the last one first. -/
def seen (s : Traffic Client) : List GrammarRequest :=
  (s.left.map (·.1.request)).reverse

/-- The bridge that comes of what the service is done with. -/
def settled (s : Traffic Client) : Bridge :=
  ⟨s.worker.isAlive, s.seen⟩

/-- Whether the worker has died. -/
def HasDied (s : Traffic Client) : Prop :=
  s.worker.isAlive = false

end Traffic

/-- The steps by which the calls under way come on. -/
inductive Work (service : Service) : Traffic Client → Traffic Client → Prop
  /-- The channel has room and takes the request of a call. It does so as long as it is not closed,
  whether or not the worker is still alive. -/
  | send {s : Traffic Client} {n : Nat} {c : Call Client} (hc : s.calls[n]? = some c)
      (hphase : c.phase = .sending) (hworker : s.worker ≠ .gone)
      (hroom : s.channel.length < capacity) :
      Work service s { s with
        calls := alter [n] ({ · with phase := .waiting }) s.calls
        channel := s.channel ++ [⟨c.request, n⟩]
        accepted := s.accepted ++ [⟨c.request, n⟩] }
  /-- The channel is closed: the call fails, and gives its reply up. -/
  | refuse {s : Traffic Client} {n : Nat} {c : Call Client} (hc : s.calls[n]? = some c)
      (hphase : c.phase = .sending) (hworker : s.worker = .gone) :
      Work service s { s with
        calls := alter [n]
          ({ · with phase := .returned (.error .closed), reply := .dropped }) s.calls }
  /-- The worker takes the first message, and its request enters the service. -/
  | receive {s : Traffic Client} {m : Message} {rest : List Message} (hworker : s.worker = .idle)
      (hchannel : s.channel = m :: rest) :
      Work service s { s with
        channel := rest, worker := .serving m, entered := s.entered ++ [m] }
  /-- The service answers. -/
  | answer {s : Traffic Client} {m : Message} {a : Answer} (hworker : s.worker = .serving m)
      (ha : service s.seen m.request = some a) :
      Work service s { s with worker := .replying m a, left := s.left ++ [(m, some a)] }
  /-- The service dies: the worker drops the reply that it owes. -/
  | panic {s : Traffic Client} {m : Message} (hworker : s.worker = .serving m)
      (ha : service s.seen m.request = none) :
      Work service s { s with
        calls := alter [m.call] ({ · with reply := .dropped }) s.calls
        worker := .unwinding, left := s.left ++ [(m, none)] }
  /-- The worker sends the reply. -/
  | reply {s : Traffic Client} {m : Message} {a : Answer} (hworker : s.worker = .replying m a) :
      Work service s { s with
        calls := alter [m.call] ({ · with reply := .sent a }) s.calls
        worker := .idle }
  /-- The worker that has died closes the channel, and the replies to what is in it are dropped. -/
  | close {s : Traffic Client} (hworker : s.worker = .unwinding) :
      Work service s { s with
        calls := alter (s.channel.map (·.call)) ({ · with reply := .dropped }) s.calls
        channel := [], worker := .gone }
  /-- A call returns with what has become of its reply. -/
  | take {s : Traffic Client} {n : Nat} {c : Call Client} {a : Answer}
      (hc : s.calls[n]? = some c) (hphase : c.phase = .waiting) (ha : c.reply.answer? = some a) :
      Work service s { s with calls := alter [n] ({ · with phase := .returned a }) s.calls }

/-- What may happen next: a client whose calls have all returned calls again, or the calls under way
come on. -/
inductive Step (service : Service) : Traffic Client → Traffic Client → Prop
  | call {s : Traffic Client} (client : Client) (request : GrammarRequest)
      (hfree : ∀ c ∈ s.calls, c.client = client → ∃ a, c.phase = .returned a) :
      Step service s { s with calls := s.calls ++ [⟨client, request, .sending, .pending⟩] }
  | work {s t : Traffic Client} (h : Work service s t) : Step service s t

/-- What can come of a bridge that was not used before. -/
def Reachable (service : Service) (s : Traffic Client) : Prop :=
  Relation.ReflTransGen (Step service) {} s

end CodeProse.Grammar.Bridge

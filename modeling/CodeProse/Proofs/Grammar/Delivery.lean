/-
# Every client gets its own answer

What a bridge does for its clients, however their calls, the worker and the service take turns, and
whatever the service comes to, a panic included (`Delivers`). Two invariants carry it, and each step
keeps both. `Ordered` is about the messages: they go through the channel into the service and out of
it in one order, and what comes of them is what `Bridge.check` makes of the same requests, sent one
after the other. `Addressed` is about the calls: the reply to a call is still to come just as long as
its message is in the channel or with the worker, and what is sent to it is what the service made of
that message. Calls that are under way come to an end, whatever the order of steps (`todo_lt_of_work`),
and only when all have returned is there nothing to be done (`Addressed.returned_of_stuck`).
-/
import CodeProse.Proofs.Grammar.Bridge
import Mathlib.Data.List.Nodup

namespace CodeProse.Grammar.Bridge

variable {Client : Type} {service : Service}

/-! ## One call after the other -/

theorem check_of_alive {b : Bridge} (h : b.alive = true) (service : FragileService)
    (request : GrammarRequest) :
    b.check service request
      = ((service request).getD (.error .closed), ⟨(service request).isSome, request :: b.seen⟩) := by
  unfold check
  rw [if_pos h]
  cases service request with
  | none => rfl
  | some a => simp [h]

theorem checkAll_append (front rest : List GrammarRequest) (b : Bridge) :
    checkAll service (front ++ rest) b
      = ((checkAll service front b).1 ++ (checkAll service rest (checkAll service front b).2).1,
        (checkAll service rest (checkAll service front b).2).2) := by
  induction front generalizing b with
  | nil => rfl
  | cons request front ih => simp [checkAll, ih]

/-- Once the worker is gone, nothing is answered. -/
theorem checkAll_of_dead {b : Bridge} (h : b.alive = false) (requests : List GrammarRequest) :
    checkAll service requests b = (List.replicate requests.length (.error .closed), b) := by
  induction requests with
  | nil => rfl
  | cons request requests ih =>
    have hcheck : b.check (service b.seen) request = (.error .closed, b) := by
      unfold check
      rw [if_neg (by simp [h])]
    simp [checkAll, hcheck, ih, List.replicate_succ]

/-! ## The order of messages -/

/-- Messages go through the channel and the service in one order, and the service makes of them what
it makes of the same requests sent one after the other. -/
structure Ordered (service : Service) (s : Traffic Client) : Prop where
  entered_prefix : s.entered <+: s.accepted
  /-- Until the channel is closed, all that it took has entered the service or waits in it. -/
  accepted_eq : s.worker ≠ .gone → s.accepted = s.entered ++ s.channel
  channel_eq_nil : s.worker = .gone → s.channel = []
  entered_eq : s.entered = s.left.map (·.1) ++ s.worker.inside
  owes : ∀ m a, s.worker = .replying m a → (m, some a) ∈ s.left
  /-- What the service made of a request is its own answer, given what it had seen by then. -/
  outcome : ∀ front p rest, s.left = front ++ p :: rest →
    service (front.map (·.1.request)).reverse p.1.request = p.2
  settles : checkAll service (s.left.map (·.1.request)) {}
    = (s.left.map (·.2.getD (.error .closed)), s.settled)
  died : s.HasDied → ∃ m, (m, none) ∈ s.left

variable {s t : Traffic Client}

/-- The service is done with a request: what it made of it is the next thing that the bridge makes of
the requests in turn. -/
theorem Ordered.done (h : Ordered service s) {m : Message} (hworker : s.worker = .serving m)
    {o : Option Answer} (ho : service s.seen m.request = o) {w : Worker} (hopen : w ≠ .gone)
    (hinside : w.inside = []) (halive : w.isAlive = o.isSome)
    (howes : ∀ m' a, w = .replying m' a → (m', some a) = (m, o)) (calls : List (Call Client)) :
    Ordered service { s with calls := calls, worker := w, left := s.left ++ [(m, o)] } where
  entered_prefix := h.entered_prefix
  accepted_eq := by
    intro _
    exact h.accepted_eq (by simp [hworker])
  channel_eq_nil := by
    intro hgone
    exact absurd hgone hopen
  entered_eq := by
    show s.entered = (s.left ++ [(m, o)]).map (·.1) ++ w.inside
    rw [h.entered_eq, hworker, hinside]
    simp [Worker.inside]
  owes := by
    intro m' a hreplying
    simp [howes m' a hreplying]
  outcome := by
    intro front p rest hsplit
    rcases List.eq_nil_or_concat rest with rfl | ⟨rest, q, rfl⟩
    · obtain ⟨rfl, hp⟩ := List.append_inj' hsplit rfl
      obtain rfl := (List.cons.inj hp).1
      exact ho
    · rw [List.concat_eq_append, ← List.cons_append, ← List.append_assoc] at hsplit
      exact h.outcome front p rest (List.append_inj' hsplit rfl).1
  settles := by
    have hbusy : s.settled.alive = true := by
      unfold Traffic.settled
      rw [hworker]
      rfl
    have hone : checkAll service [m.request] s.settled
        = ([o.getD (.error .closed)], ⟨o.isSome, m.request :: s.seen⟩) := by
      show ([(s.settled.check (service s.seen) m.request).1],
        (s.settled.check (service s.seen) m.request).2) = _
      rw [check_of_alive hbusy, ho]
      rfl
    show checkAll service ((s.left ++ [(m, o)]).map (·.1.request)) {}
      = ((s.left ++ [(m, o)]).map (·.2.getD (.error .closed)),
        ⟨w.isAlive, ((s.left ++ [(m, o)]).map (·.1.request)).reverse⟩)
    rw [List.map_append, checkAll_append, h.settles, halive]
    simp [hone, Traffic.seen]
  died := by
    intro hdied
    refine ⟨m, ?_⟩
    have hnone : o = none := by
      rw [← Option.not_isSome_iff_eq_none, ← halive]
      show ¬ w.isAlive = true
      rw [show w.isAlive = false from hdied]
      simp
    simp [hnone]

/-- The worker turns to something else while the service has no part in it: all that is left to see to
are the messages. -/
theorem Ordered.turn (h : Ordered service s) {channel entered : List Message} {w : Worker}
    (halive : w.isAlive = s.worker.isAlive) (hreply : ∀ m a, w ≠ .replying m a)
    (horder : entered <+: s.accepted) (haccepted : w ≠ .gone → s.accepted = entered ++ channel)
    (hchannel : w = .gone → channel = []) (hentered : entered = s.left.map (·.1) ++ w.inside)
    (calls : List (Call Client)) :
    Ordered service { s with
      calls := calls, channel := channel, worker := w, entered := entered } where
  entered_prefix := horder
  accepted_eq := haccepted
  channel_eq_nil := hchannel
  entered_eq := hentered
  owes := by
    intro m a hreplying
    exact absurd hreplying (hreply m a)
  outcome := h.outcome
  settles := by
    rw [h.settles]
    show (_, (⟨s.worker.isAlive, s.seen⟩ : Bridge)) = (_, ⟨w.isAlive, s.seen⟩)
    rw [halive]
  died := by
    intro hdied
    exact h.died (halive.symm.trans hdied)

theorem Ordered.work (h : Ordered service s) (hstep : Work service s t) : Ordered service t := by
  cases hstep with
  | send hc hphase hworker hroom =>
    refine { h with entered_prefix := ?_, accepted_eq := ?_, channel_eq_nil := ?_ }
    · exact h.entered_prefix.trans (List.prefix_append _ _)
    · intro _
      simp [h.accepted_eq hworker]
    · intro hgone
      exact absurd hgone hworker
  | refuse hc hphase hworker => exact { h with }
  | @receive m rest hworker hchannel =>
    have haccepted := h.accepted_eq (by simp [hworker])
    rw [hchannel] at haccepted
    apply h.turn
    case halive => rw [hworker]; rfl
    case hreply => simp
    case horder => exact ⟨rest, by simp [haccepted]⟩
    case haccepted =>
      intro _
      simp [haccepted]
    case hchannel =>
      intro hgone
      cases hgone
    case hentered => simp [h.entered_eq, hworker, Worker.inside]
  | answer hworker ha =>
    apply h.done hworker ha
    · simp
    · rfl
    · rfl
    · rintro m' a' ⟨⟩
      rfl
  | panic hworker ha =>
    apply h.done hworker ha
    · simp
    · rfl
    · rfl
    · intro m' a' hreplying
      cases hreplying
  | reply hworker =>
    apply h.turn
    case halive => rw [hworker]; rfl
    case hreply => simp
    case horder => exact h.entered_prefix
    case haccepted =>
      intro _
      exact h.accepted_eq (by simp [hworker])
    case hchannel =>
      intro hgone
      cases hgone
    case hentered => simp [h.entered_eq, hworker, Worker.inside]
  | close hworker =>
    apply h.turn
    case halive => rw [hworker]; rfl
    case hreply => simp
    case horder => exact h.entered_prefix
    case haccepted =>
      intro hopen
      exact absurd rfl hopen
    case hchannel =>
      intro _
      rfl
    case hentered => simp [h.entered_eq, hworker, Worker.inside]
  | take hc hphase ha => exact { h with }

theorem Ordered.step (h : Ordered service s) (hstep : Step service s t) : Ordered service t := by
  cases hstep with
  | call client request hfree => exact { h with }
  | work hwork => exact h.work hwork

theorem ordered_of_reachable (h : Reachable service s) : Ordered service s := by
  induction h with
  | refl =>
    constructor <;> simp [Traffic.settled, Traffic.seen, Worker.isAlive, Worker.inside, checkAll,
      Traffic.HasDied]
  | tail _ hstep ih => exact ih.step hstep

/-! ## The replies to calls -/

/-- How the call with the number `n` stands, given the messages and what has come of them. -/
structure Fits (s : Traffic Client) (n : Nat) (c : Call Client) : Prop where
  pending_iff : c.reply = .pending ↔
    c.phase = .sending ∨ n ∈ (s.worker.owed ++ s.channel).map (·.call)
  sent : ∀ a, c.reply = .sent a → ∃ m, m.call = n ∧ (m, some a) ∈ s.left
  dropped : c.reply = .dropped → s.HasDied ∧ ∀ p ∈ s.left, p.1.call = n → p.2 = none
  returned : ∀ a, c.phase = .returned a → c.reply.answer? = some a

/-- Each message is that of one call, and all calls stand as the messages have it. -/
structure Addressed (s : Traffic Client) : Prop where
  distinct : (s.accepted.map (·.call)).Nodup
  genuine : ∀ m ∈ s.accepted,
    ∃ c, s.calls[m.call]? = some c ∧ c.request = m.request ∧ c.phase ≠ .sending
  fits : ∀ n c, s.calls[n]? = some c → Fits s n c

/-- Until the channel is closed, no two messages that have left the service, are inside it or wait in
the channel are of one call. -/
theorem Addressed.nodup (h : Addressed s) (ho : Ordered service s) (hopen : s.worker ≠ .gone) :
    (s.left.map (·.1.call) ++ s.worker.inside.map (·.call) ++ s.channel.map (·.call)).Nodup := by
  have hdistinct := h.distinct
  rw [ho.accepted_eq hopen, ho.entered_eq] at hdistinct
  simpa [List.map_append, Function.comp_def] using hdistinct

/-- All that has left the service went through the channel. -/
theorem Ordered.mem_accepted (ho : Ordered service s) {p : Message × Option Answer}
    (hp : p ∈ s.left) : p.1 ∈ s.accepted := by
  apply ho.entered_prefix.subset
  rw [ho.entered_eq]
  exact List.mem_append_left _ (List.mem_map_of_mem hp)

/-- A step that changes calls keeps them addressed if it leaves each as the messages have it. -/
theorem Addressed.of_alter (h : Addressed s) {numbers : List Nat} {f : Call Client → Call Client}
    (hcalls : t.calls = alter numbers f s.calls) (haccepted : t.accepted = s.accepted)
    (hf : ∀ c, (f c).request = c.request ∧ (c.phase ≠ .sending → (f c).phase ≠ .sending))
    (changed : ∀ n c, n ∈ numbers → s.calls[n]? = some c → Fits s n c → Fits t n (f c))
    (kept : ∀ n c, n ∉ numbers → Fits s n c → Fits t n c) : Addressed t where
  distinct := by
    rw [haccepted]
    exact h.distinct
  genuine := by
    intro m hm
    rw [haccepted] at hm
    obtain ⟨c, hc, hrequest, hphase⟩ := h.genuine m hm
    rw [hcalls, getElem?_alter, hc, Option.map_some]
    refine ⟨_, rfl, ?_⟩
    split
    · exact ⟨(hf c).1.trans hrequest, (hf c).2 hphase⟩
    · exact ⟨hrequest, hphase⟩
  fits := by
    intro n c' hc'
    rw [hcalls, getElem?_alter] at hc'
    obtain ⟨c, hc, rfl⟩ := Option.map_eq_some_iff.1 hc'
    split
    case isTrue hn => exact changed n c hn hc (h.fits n c hc)
    case isFalse hn => exact kept n c hn (h.fits n c hc)

theorem Addressed.send (h : Addressed s) {n : Nat} {c : Call Client} (hc : s.calls[n]? = some c)
    (hphase : c.phase = .sending) :
    Addressed { s with
      calls := alter [n] ({ · with phase := .waiting }) s.calls
      channel := s.channel ++ [⟨c.request, n⟩]
      accepted := s.accepted ++ [⟨c.request, n⟩] } where
  distinct := by
    have hfresh : n ∉ s.accepted.map (·.call) := by
      intro hn
      obtain ⟨m, hm, rfl⟩ := List.mem_map.1 hn
      obtain ⟨c', hc', -, hphase'⟩ := h.genuine m hm
      obtain rfl := Option.some.inj (hc.symm.trans hc')
      exact hphase' hphase
    rw [List.map_append, List.map_singleton, ← List.concat_eq_append]
    exact h.distinct.concat hfresh
  genuine := by
    intro m hm
    rcases List.mem_append.1 hm with hm | hm
    · obtain ⟨c', hc', hrequest, hphase'⟩ := h.genuine m hm
      rw [getElem?_alter, hc', Option.map_some]
      refine ⟨_, rfl, ?_⟩
      split
      · exact ⟨hrequest, by simp⟩
      · exact ⟨hrequest, hphase'⟩
    · obtain rfl := List.mem_singleton.1 hm
      refine ⟨{ c with phase := .waiting }, ?_, rfl, by simp⟩
      rw [getElem?_alter, hc, Option.map_some, if_pos (by simp)]
  fits := by
    intro n' c'' hc''
    rw [getElem?_alter] at hc''
    obtain ⟨c', hc', rfl⟩ := Option.map_eq_some_iff.1 hc''
    have hfits := h.fits n' c' hc'
    split
    case isTrue hn =>
      obtain rfl := List.mem_singleton.1 hn
      obtain rfl := Option.some.inj (hc.symm.trans hc')
      refine ⟨?_, hfits.sent, hfits.dropped, ?_⟩
      · exact iff_of_true (hfits.pending_iff.2 (.inl hphase)) (.inr (by simp))
      · intro a ha
        cases ha
    case isFalse hn =>
      refine { hfits with pending_iff := hfits.pending_iff.trans ?_ }
      simp only [List.mem_singleton] at hn
      simp [hn]

/-- What waits in the channel or is owed a reply went through the channel. -/
theorem Ordered.mem_accepted_of_held (ho : Ordered service s) {m : Message}
    (hm : m ∈ s.worker.owed ++ s.channel) : m ∈ s.accepted := by
  rcases List.mem_append.1 hm with howed | hchannel
  · cases hworker : s.worker with
    | serving m' =>
      rw [hworker] at howed
      obtain rfl := List.mem_singleton.1 howed
      apply ho.entered_prefix.subset
      simp [ho.entered_eq, hworker, Worker.inside]
    | replying m' a =>
      rw [hworker] at howed
      obtain rfl := List.mem_singleton.1 howed
      exact ho.mem_accepted (ho.owes m a hworker)
    | idle | unwinding | gone =>
      rw [hworker] at howed
      cases howed
  · have hopen : s.worker ≠ .gone := by
      intro hgone
      rw [ho.channel_eq_nil hgone] at hchannel
      cases hchannel
    rw [ho.accepted_eq hopen]
    exact List.mem_append_right _ hchannel

/-- Replies that were still to come are sent or dropped, each as the service made it. -/
theorem Addressed.settle (h : Addressed s) (ho : Ordered service s) {numbers : List Nat}
    {r : Reply} (hr : r ≠ .pending) {channel : List Message} {worker : Worker}
    {left : List (Message × Option Answer)}
    (held : ∀ n ∈ numbers, n ∈ (s.worker.owed ++ s.channel).map (·.call))
    (rest : ∀ n, n ∈ (worker.owed ++ channel).map (·.call) ↔
      n ∈ (s.worker.owed ++ s.channel).map (·.call) ∧ n ∉ numbers)
    (hsent : ∀ n ∈ numbers, ∀ a, r = .sent a → ∃ m, m.call = n ∧ (m, some a) ∈ left)
    (hdropped : ∀ n ∈ numbers, r = .dropped →
      worker.isAlive = false ∧ ∀ p ∈ left, p.1.call = n → p.2 = none)
    (hleft : s.left ⊆ left) (hdied : s.HasDied → worker.isAlive = false ∧ left = s.left) :
    Addressed { s with
      calls := alter numbers ({ · with reply := r }) s.calls
      channel := channel, worker := worker, left := left } := by
  refine h.of_alter rfl rfl (fun c => ⟨rfl, id⟩) (fun n c hn hc hfits => ?changed)
    fun n c hn hfits => ?kept
  case changed =>
    have hpending : c.reply = .pending := hfits.pending_iff.2 (.inr (held n hn))
    obtain ⟨m, hm, rfl⟩ := List.mem_map.1 (held n hn)
    obtain ⟨c', hc', -, hphase⟩ := h.genuine m (ho.mem_accepted_of_held hm)
    obtain rfl := Option.some.inj (hc.symm.trans hc')
    constructor
    case pending_iff =>
      refine iff_of_false hr ?_
      rintro (hsending | hrest)
      · exact hphase hsending
      · exact ((rest _).1 hrest).2 hn
    case sent => exact hsent _ hn
    case dropped => exact hdropped _ hn
    case returned =>
      intro a ha
      have hanswer := hfits.returned a ha
      rw [hpending] at hanswer
      cases hanswer
  case kept =>
    constructor
    case pending_iff =>
      rw [hfits.pending_iff, rest n, and_iff_left hn]
    case sent =>
      intro a ha
      obtain ⟨m, hm, hmem⟩ := hfits.sent a ha
      exact ⟨m, hm, hleft hmem⟩
    case dropped =>
      intro hc
      obtain ⟨hs, hall⟩ := hfits.dropped hc
      obtain ⟨hworker, rfl⟩ := hdied hs
      exact ⟨hworker, hall⟩
    case returned => exact hfits.returned

/-- A worker that is about something has not died. -/
theorem not_hasDied_of_alive (h : s.worker.isAlive = true) : ¬ s.HasDied := by
  unfold Traffic.HasDied
  simp [h]

/-- Once the first of some messages is replied to, the others are still to be. -/
theorem mem_others_iff {m : Message} {others : List Message} (hm : m.call ∉ others.map (·.call))
    (n : Nat) :
    n ∈ others.map (·.call) ↔ n ∈ (m :: others).map (·.call) ∧ n ∉ [m.call] := by
  rw [List.map_cons, List.mem_cons, List.mem_singleton]
  constructor
  · intro hn
    refine ⟨.inr hn, ?_⟩
    rintro rfl
    exact hm hn
  · rintro ⟨heq | hn, hne⟩
    · exact absurd heq hne
    · exact hn

theorem Addressed.work (h : Addressed s) (ho : Ordered service s) (hstep : Work service s t) :
    Addressed t := by
  cases hstep with
  | send hc hphase hworker hroom => exact h.send hc hphase
  | @refuse n c hc hphase hworker =>
    refine h.of_alter rfl rfl (by simp) (fun n' c' hn hc' hfits => ?changed)
      fun n' c' _ hfits => { hfits with }
    case changed =>
      obtain rfl := List.mem_singleton.1 hn
      obtain rfl := Option.some.inj (hc.symm.trans hc')
      constructor
      case pending_iff => simp [hworker, ho.channel_eq_nil hworker, Worker.owed]
      case sent =>
        intro a ha
        cases ha
      case dropped =>
        intro _
        refine ⟨by rw [Traffic.HasDied, hworker]; rfl, ?_⟩
        rintro p hp rfl
        obtain ⟨c', hc', -, hphase'⟩ := h.genuine p.1 (ho.mem_accepted hp)
        obtain rfl := Option.some.inj (hc.symm.trans hc')
        exact absurd hphase hphase'
      case returned =>
        rintro a ⟨⟩
        rfl
  | @receive m rest hworker hchannel =>
    refine ⟨h.distinct, h.genuine, fun n c hc => ?_⟩
    have hfits := h.fits n c hc
    refine { hfits with pending_iff := ?_, dropped := ?_ }
    · rw [hfits.pending_iff, hworker, hchannel]
      rfl
    · intro hdropped
      exact absurd (hfits.dropped hdropped).1 (not_hasDied_of_alive (by rw [hworker]; rfl))
  | @answer m a hworker ha =>
    refine ⟨h.distinct, h.genuine, fun n c hc => ?_⟩
    have hfits := h.fits n c hc
    refine { hfits with pending_iff := ?_, sent := ?_, dropped := ?_ }
    · rw [hfits.pending_iff, hworker]
      rfl
    · intro a' ha'
      obtain ⟨m', hm', hleft⟩ := hfits.sent a' ha'
      exact ⟨m', hm', List.mem_append_left _ hleft⟩
    · intro hdropped
      exact absurd (hfits.dropped hdropped).1 (not_hasDied_of_alive (by rw [hworker]; rfl))
  | @panic m hworker ha =>
    have hnodup := h.nodup ho (by simp [hworker])
    simp only [hworker, Worker.inside, List.map_singleton, List.nodup_append] at hnodup
    obtain ⟨⟨-, -, hleft⟩, -, hchannel⟩ := hnodup
    apply h.settle ho (by simp)
    case held => simp [hworker, Worker.owed]
    case rest =>
      intro n
      rw [hworker]
      exact mem_others_iff (fun hm => hchannel m.call (by simp) m.call hm rfl) n
    case hsent =>
      rintro n - a ⟨⟩
    case hdropped =>
      rintro n hn -
      obtain rfl := List.mem_singleton.1 hn
      refine ⟨rfl, fun p hp hcall => ?_⟩
      rcases List.mem_append.1 hp with hp | hp
      · exact absurd hcall (hleft p.1.call (List.mem_map_of_mem hp) m.call (by simp))
      · rw [List.mem_singleton.1 hp]
    case hleft => exact List.subset_append_left _ _
    case hdied =>
      intro hdied
      exact absurd hdied (not_hasDied_of_alive (by rw [hworker]; rfl))
  | @reply m a hworker =>
    have hnodup := h.nodup ho (by simp [hworker])
    have hm := ho.owes m a hworker
    simp only [hworker, Worker.inside, List.map_nil, List.append_nil, List.nodup_append] at hnodup
    obtain ⟨-, -, hchannel⟩ := hnodup
    apply h.settle ho (by simp)
    case held => simp [hworker, Worker.owed]
    case rest =>
      intro n
      rw [hworker]
      exact mem_others_iff (fun hn => hchannel m.call (List.mem_map_of_mem hm) m.call hn rfl) n
    case hsent =>
      rintro n hn a' ⟨⟩
      exact ⟨m, (List.mem_singleton.1 hn).symm, hm⟩
    case hdropped =>
      rintro n - ⟨⟩
    case hleft => exact List.Subset.refl _
    case hdied =>
      intro hdied
      exact absurd hdied (not_hasDied_of_alive (by rw [hworker]; rfl))
  | close hworker =>
    have hnodup := h.nodup ho (by simp [hworker])
    simp only [hworker, Worker.inside, List.map_nil, List.append_nil, List.nodup_append] at hnodup
    obtain ⟨-, -, hchannel⟩ := hnodup
    apply h.settle ho (by simp)
    case held =>
      intro n hn
      simpa [hworker, Worker.owed] using hn
    case rest =>
      intro n
      simp [hworker, Worker.owed]
    case hsent =>
      rintro n - a ⟨⟩
    case hdropped =>
      rintro n hn -
      refine ⟨rfl, fun p hp hcall => ?_⟩
      exact absurd hcall (hchannel p.1.call (List.mem_map_of_mem hp) n hn)
    case hleft => exact List.Subset.refl _
    case hdied =>
      intro _
      exact ⟨rfl, rfl⟩
  | @take n c a hc hphase ha =>
    refine h.of_alter rfl rfl (by simp) (fun n' c' hn hc' hfits => ?changed)
      fun n' c' _ hfits => { hfits with }
    case changed =>
      obtain rfl := List.mem_singleton.1 hn
      obtain rfl := Option.some.inj (hc.symm.trans hc')
      refine { hfits with pending_iff := ?_, returned := ?_ }
      · have hnot : c.reply ≠ .pending := by
          intro hpending
          rw [hpending] at ha
          cases ha
        rw [iff_false_left hnot]
        rintro (hsending | hmem)
        · cases hsending
        · exact hnot (hfits.pending_iff.2 (.inr hmem))
      · rintro a' ⟨⟩
        exact ha

theorem Addressed.step (h : Addressed s) (ho : Ordered service s) (hstep : Step service s t) :
    Addressed t := by
  cases hstep with
  | work hwork => exact h.work ho hwork
  | call client request hfree =>
    constructor
    case distinct => exact h.distinct
    case genuine =>
      intro m hm
      obtain ⟨c, hc, hrest⟩ := h.genuine m hm
      obtain ⟨hlt, -⟩ := List.getElem?_eq_some_iff.1 hc
      exact ⟨c, (List.getElem?_append_left hlt).trans hc, hrest⟩
    case fits =>
      intro n c hc
      rw [List.getElem?_append] at hc
      split at hc
      case isTrue => exact { h.fits n c hc with }
      case isFalse =>
        obtain rfl := List.mem_singleton.1 (List.mem_of_getElem? hc)
        constructor <;> simp

theorem addressed_of_reachable (h : Reachable service s) : Addressed s := by
  induction h with
  | refl => constructor <;> simp
  | tail hrun hstep ih => exact ih.step (ordered_of_reachable hrun) hstep

/-! ## After the worker has died -/

/-- Whether the reply to a call was sent. -/
def Traffic.Answered (s : Traffic Client) (n : Nat) : Prop :=
  ∃ c a, s.calls[n]? = some c ∧ c.reply = .sent a

theorem Traffic.Answered.of_alter {numbers : List Nat} {f : Call Client → Call Client}
    (hcalls : t.calls = alter numbers f s.calls)
    (hf : ∀ c a, (f c).reply = .sent a → c.reply = .sent a) {n : Nat} (h : t.Answered n) :
    s.Answered n := by
  obtain ⟨c', a, hc', hreply⟩ := h
  rw [hcalls, getElem?_alter] at hc'
  obtain ⟨c, hc, rfl⟩ := Option.map_eq_some_iff.1 hc'
  refine ⟨c, a, hc, ?_⟩
  split at hreply
  case isTrue => exact hf c a hreply
  case isFalse => exact hreply

/-- A worker that has died stays dead and sends no reply. -/
theorem hasDied_step (h : s.HasDied) (hstep : Step service s t) :
    t.HasDied ∧ ∀ n, t.Answered n → s.Answered n := by
  unfold Traffic.HasDied at h
  cases hstep with
  | call client request hfree =>
    refine ⟨h, ?_⟩
    rintro n ⟨c, a, hc, hreply⟩
    rw [List.getElem?_append] at hc
    split at hc
    case isTrue => exact ⟨c, a, hc, hreply⟩
    case isFalse =>
      obtain rfl := List.mem_singleton.1 (List.mem_of_getElem? hc)
      cases hreply
  | work hwork =>
    cases hwork with
    | send hc hphase hworker hroom | take hc hphase ha =>
      refine ⟨h, fun n => Traffic.Answered.of_alter rfl ?_⟩
      intro c a hreply
      exact hreply
    | refuse hc hphase hworker =>
      refine ⟨h, fun n => Traffic.Answered.of_alter rfl ?_⟩
      rintro c a ⟨⟩
    | close hworker =>
      refine ⟨rfl, fun n => Traffic.Answered.of_alter rfl ?_⟩
      rintro c a ⟨⟩
    | receive hworker hchannel | answer hworker ha | panic hworker ha | reply hworker =>
      rw [hworker] at h
      cases h

theorem hasDied_run (h : s.HasDied) (hrun : Relation.ReflTransGen (Step service) s t) :
    t.HasDied ∧ ∀ n, t.Answered n → s.Answered n := by
  induction hrun with
  | refl => exact ⟨h, fun n hn => hn⟩
  | tail _ hstep ih =>
    obtain ⟨hdied, hanswered⟩ := hasDied_step ih.1 hstep
    exact ⟨hdied, fun n hn => ih.2 n (hanswered n hn)⟩

/-! ## Calls come to an end -/

/-- How much a call can still do. -/
def Phase.weight : Phase → Nat
  | .sending => 5
  | .waiting => 1
  | .returned _ => 0

/-- How much the worker can still do without a new message. -/
def Worker.weight : Worker → Nat
  | .serving _ => 2
  | .replying .. | .unwinding => 1
  | .idle | .gone => 0

/-- How much the calls under way can still do. -/
def callsTodo : List (Call Client) → Nat
  | [] => 0
  | c :: rest => c.phase.weight + callsTodo rest

/-- A bound on the steps that the calls under way can take. -/
def Traffic.todo (s : Traffic Client) : Nat :=
  callsTodo s.calls + 3 * s.channel.length + s.worker.weight

theorem callsTodo_append (front rest : List (Call Client)) :
    callsTodo (front ++ rest) = callsTodo front + callsTodo rest := by
  induction front with
  | nil => simp [callsTodo]
  | cons c front ih =>
    rw [List.cons_append, callsTodo, callsTodo, ih]
    omega

theorem callsTodo_congr {calls calls' : List (Call Client)}
    (h : calls.map (·.phase.weight) = calls'.map (·.phase.weight)) :
    callsTodo calls = callsTodo calls' := by
  induction calls generalizing calls' with
  | nil =>
    obtain rfl := List.map_eq_nil_iff.1 h.symm
    rfl
  | cons c rest ih =>
    obtain ⟨c', rest', rfl, hweight, hrest⟩ := List.map_eq_cons_iff.1 h.symm
    rw [callsTodo, callsTodo, ih hrest.symm, hweight]

theorem callsTodo_alter_one {calls : List (Call Client)} {n : Nat} {c : Call Client}
    (hc : calls[n]? = some c) (f : Call Client → Call Client) :
    callsTodo (alter [n] f calls) + c.phase.weight = callsTodo calls + (f c).phase.weight := by
  obtain ⟨hlt, rfl⟩ := List.getElem?_eq_some_iff.1 hc
  have hset : alter [n] f calls = calls.set n (f calls[n]) := by
    apply List.ext_getElem?
    intro k
    rw [getElem?_alter, List.getElem?_set]
    by_cases hk : n = k
    · subst hk
      simp [hlt]
    · simp [hk, Ne.symm hk]
  obtain ⟨front, rest, hsplit, -, hchanged⟩ : ∃ front rest, calls = front ++ calls[n] :: rest ∧
      front.length = n ∧ calls.set n (f calls[n]) = front ++ f calls[n] :: rest :=
    List.exists_of_set hlt
  have hgiven := congrArg callsTodo hsplit
  rw [callsTodo_append, callsTodo] at hgiven
  rw [hset, hchanged, callsTodo_append, callsTodo]
  omega

theorem callsTodo_alter_reply (numbers : List Nat) (r : Reply) (calls : List (Call Client)) :
    callsTodo (alter numbers ({ · with reply := r }) calls) = callsTodo calls := by
  apply callsTodo_congr
  apply List.ext_getElem?
  intro k
  rw [List.getElem?_map, getElem?_alter, List.getElem?_map, Option.map_map]
  congr 1
  funext c
  show Phase.weight (if k ∈ numbers then _ else c).phase = _
  split <;> rfl

theorem todo_lt_of_work (h : Work service s t) : t.todo < s.todo := by
  cases h with
  | send hc hphase hworker hroom =>
    have hcalls := callsTodo_alter_one hc ({ · with phase := .waiting })
    simp only [hphase, Phase.weight] at hcalls
    simp only [Traffic.todo, List.length_append, List.length_singleton]
    omega
  | refuse hc hphase hworker =>
    have hcalls := callsTodo_alter_one hc
      ({ · with phase := .returned (.error .closed), reply := .dropped })
    simp only [hphase, Phase.weight] at hcalls
    simp only [Traffic.todo]
    omega
  | receive hworker hchannel =>
    simp only [Traffic.todo, hworker, hchannel, List.length_cons, Worker.weight]
    omega
  | answer hworker ha =>
    simp only [Traffic.todo, hworker, Worker.weight]
    omega
  | panic hworker ha =>
    simp only [Traffic.todo, callsTodo_alter_reply, hworker, Worker.weight]
    omega
  | reply hworker =>
    simp only [Traffic.todo, callsTodo_alter_reply, hworker, Worker.weight]
    omega
  | close hworker =>
    simp only [Traffic.todo, callsTodo_alter_reply, hworker, Worker.weight, List.length_nil]
    omega
  | @take n c a hc hphase ha =>
    have hcalls := callsTodo_alter_one hc ({ · with phase := .returned a })
    simp only [hphase, Phase.weight] at hcalls
    simp only [Traffic.todo]
    omega

/-- No schedule of the calls under way goes on for ever. -/
theorem acc_work (service : Service) (s : Traffic Client) :
    Acc (fun u t => Work service t u) s := by
  have hless : Subrelation (fun u t => Work service t u)
      (measure (Traffic.todo : Traffic Client → Nat)).rel := todo_lt_of_work
  exact hless.accessible ((measure Traffic.todo).wf.apply s)

/-- Where nothing is left to be done, all calls have returned. -/
theorem Addressed.returned_of_stuck (h : Addressed s) (ho : Ordered service s)
    (hstuck : ∀ t, ¬ Work service s t) : ∀ c ∈ s.calls, ∃ a, c.phase = .returned a := by
  have hresting : s.worker.owed = [] ∧ s.channel = [] := by
    cases hworker : s.worker with
    | serving m =>
      cases ha : service s.seen m.request with
      | none => exact absurd (.panic hworker ha) (hstuck _)
      | some a => exact absurd (.answer hworker ha) (hstuck _)
    | replying m a => exact absurd (.reply hworker) (hstuck _)
    | unwinding => exact absurd (.close hworker) (hstuck _)
    | gone => exact ⟨rfl, ho.channel_eq_nil hworker⟩
    | idle =>
      cases hchannel : s.channel with
      | nil => exact ⟨rfl, rfl⟩
      | cons m rest => exact absurd (.receive hworker hchannel) (hstuck _)
  intro c hmem
  obtain ⟨n, hc⟩ := List.getElem?_of_mem hmem
  cases hphase : c.phase with
  | returned a => exact ⟨a, rfl⟩
  | sending =>
    exfalso
    by_cases hworker : s.worker = .gone
    · exact hstuck _ (.refuse hc hphase hworker)
    · exact hstuck _ (.send hc hphase hworker (by simp [hresting.2, capacity]))
  | waiting =>
    exfalso
    have hsettled : c.reply ≠ .pending := by
      intro hpending
      have hheld := (h.fits n c hc).pending_iff.1 hpending
      simp [hphase, hresting.1, hresting.2] at hheld
    cases hreply : c.reply with
    | pending => exact hsettled hreply
    | sent a => exact hstuck _ (.take (a := a) hc hphase (by rw [hreply]; rfl))
    | dropped => exact hstuck _ (.take (a := .error .closed) hc hphase (by rw [hreply]; rfl))

/-! ## What clients can rely on -/

/-- What clients can rely on when they share a bridge. -/
structure Delivers (service : Service) (s : Traffic Client) : Prop where
  /-- A call returns what the service made of its own request. Only if the worker has died, it may
  return `closed` instead. -/
  own_answer : ∀ (n : Nat) (c : Call Client) (a : Answer),
    s.calls[n]? = some c → c.phase = .returned a →
    (∃ front rest, s.left = front ++ (⟨c.request, n⟩, some a) :: rest ∧
      service (front.map (·.1.request)).reverse c.request = some a) ∨
    (s.HasDied ∧ a = .error .closed)
  /-- Whatever the turns, a call returns what `Bridge.check` does when the requests are sent one after
  the other, in the order in which the channel took them. -/
  as_in_turn : ∀ (i : Nat) (m : Message) (c : Call Client) (a : Answer),
    s.accepted[i]? = some m → s.calls[m.call]? = some c → c.phase = .returned a →
      (checkAll service (s.accepted.map (·.request)) {}).1[i]? = some a
  /-- The channel takes requests as they were made, -/
  genuine : ∀ m ∈ s.accepted, ∃ c, s.calls[m.call]? = some c ∧ c.request = m.request
  /-- each call's at most once. -/
  at_most_once : (s.accepted.map (·.call)).Nodup
  /-- They reach the service in the order in which the channel took them, -/
  in_order : s.entered <+: s.accepted
  /-- and not before the service is done with the one before. -/
  one_inside : ∃ inside, s.entered = s.left.map (·.1) ++ inside ∧ inside.length ≤ 1
  /-- The worker dies of a panic of the service only. -/
  died_of_panic : s.HasDied → ∃ m, (m, none) ∈ s.left
  /-- Once the worker has died it stays so, and all calls return `closed` that are not answered by
  then, later ones included. -/
  closed_after : s.HasDied → ∀ t, Relation.ReflTransGen (Step service) s t → t.HasDied ∧
    ∀ (n : Nat) (c : Call Client) (a : Answer), t.calls[n]? = some c → c.phase = .returned a →
      ¬ s.Answered n → a = .error .closed
  /-- All calls under way return, dead worker or not: their steps come to an end in every order, and
  there is always another step until all have returned. -/
  comes_to_end : Acc (fun u t => Work service t u) s
  returns : ∀ t, Relation.ReflTransGen (Work service) s t → (∀ u, ¬ Work service t u) →
    ∀ c ∈ t.calls, ∃ a, c.phase = .returned a
  /-- Over a service that never dies, calls return what the service answers without a bridge. -/
  bare : ∀ bare : GrammarService, (∀ seen request, service seen request = some (bare request)) →
    ¬ s.HasDied ∧ ∀ c ∈ s.calls, ∀ a, c.phase = .returned a → a = bare c.request

/-- What was sent as the reply to a call is what the service made of its request. -/
theorem Addressed.outcome_of_sent (h : Addressed s) (ho : Ordered service s) {n : Nat}
    {c : Call Client} {a : Answer} (hc : s.calls[n]? = some c) (ha : c.reply = .sent a) :
    ∃ front rest, s.left = front ++ (⟨c.request, n⟩, some a) :: rest ∧
      service (front.map (·.1.request)).reverse c.request = some a := by
  obtain ⟨m, rfl, hm⟩ := (h.fits n c hc).sent a ha
  obtain ⟨c', hc', hrequest, -⟩ := h.genuine m (ho.mem_accepted hm)
  obtain rfl := Option.some.inj (hc.symm.trans hc')
  obtain ⟨front, rest, hsplit⟩ := List.append_of_mem hm
  refine ⟨front, rest, ?_, ?_⟩
  · rw [hrequest]
    exact hsplit
  · rw [hrequest]
    exact ho.outcome front (m, some a) rest hsplit

/-- A call that has returned was replied to, or has given its reply up after the worker died. -/
theorem Addressed.reply_of_returned (h : Addressed s) {n : Nat} {c : Call Client} {a : Answer}
    (hc : s.calls[n]? = some c) (ha : c.phase = .returned a) :
    c.reply = .sent a ∨ (c.reply = .dropped ∧ s.HasDied ∧ a = .error .closed) := by
  have hfits := h.fits n c hc
  have hanswer := hfits.returned a ha
  cases hreply : c.reply with
  | pending =>
    rw [hreply] at hanswer
    cases hanswer
  | sent b =>
    rw [hreply] at hanswer
    exact .inl (by rw [Option.some.inj hanswer])
  | dropped =>
    rw [hreply] at hanswer
    exact .inr ⟨rfl, (hfits.dropped hreply).1, (Option.some.inj hanswer).symm⟩

/-- What the service made of the messages is all that the bridge makes of the accepted requests, and
the rest of them it does not answer if the worker has died. -/
theorem Ordered.checkAll_accepted (ho : Ordered service s) :
    ∃ more : List Message, s.accepted = s.left.map (·.1) ++ more ∧
      (checkAll service (s.accepted.map (·.request)) {}).1
        = s.left.map (·.2.getD (.error .closed))
          ++ (checkAll service (more.map (·.request)) s.settled).1 := by
  obtain ⟨rest, hrest⟩ := ho.entered_prefix
  have haccepted : s.accepted = s.left.map (·.1) ++ (s.worker.inside ++ rest) := by
    rw [← hrest, ho.entered_eq, List.append_assoc]
  refine ⟨s.worker.inside ++ rest, haccepted, ?_⟩
  have hsettles := ho.settles
  rw [haccepted, List.map_append, checkAll_append, List.map_map]
  simp only [Function.comp_def]
  rw [hsettles]

theorem Addressed.as_in_turn (h : Addressed s) (ho : Ordered service s) {i : Nat} {m : Message}
    {c : Call Client} {a : Answer} (hm : s.accepted[i]? = some m)
    (hc : s.calls[m.call]? = some c) (ha : c.phase = .returned a) :
    (checkAll service (s.accepted.map (·.request)) {}).1[i]? = some a := by
  obtain ⟨more, haccepted, hanswers⟩ := ho.checkAll_accepted
  have hnodup := h.distinct
  rw [haccepted, List.map_append, List.map_map] at hnodup
  rw [haccepted, List.getElem?_append] at hm
  rw [hanswers, List.getElem?_append]
  simp only [List.length_map] at hm ⊢
  split at hm
  case isTrue hlt =>
    -- the service is done with the message: its outcome is what was sent, or there is none
    rw [if_pos hlt]
    rw [List.getElem?_map] at hm ⊢
    obtain ⟨⟨m', o⟩, hp, rfl⟩ := Option.map_eq_some_iff.1 hm
    have hmem := List.mem_of_getElem? hp
    rw [hp, Option.map_some]
    rcases h.reply_of_returned hc ha with hsent | ⟨hdropped, -, rfl⟩
    · obtain ⟨m'', hcall, hsent⟩ := (h.fits _ c hc).sent a hsent
      have hsame := List.inj_on_of_nodup_map (List.nodup_append.1 hnodup).1 hmem hsent hcall.symm
      rw [(Prod.mk.inj hsame).2]
      rfl
    · have hnone : o = none := ((h.fits _ c hc).dropped hdropped).2 _ hmem rfl
      rw [hnone]
      rfl
  case isFalse hge =>
    -- the service is not done with it, so the call returned because the worker died
    rw [if_neg hge]
    have hmore := List.mem_of_getElem? hm
    rcases h.reply_of_returned hc ha with hsent | ⟨-, hdied, rfl⟩
    · obtain ⟨m', hcall, hsent⟩ := (h.fits _ c hc).sent a hsent
      exact absurd hcall ((List.nodup_append.1 hnodup).2.2 m'.call
        (List.mem_map_of_mem (f := fun p : Message × Option Answer => p.1.call) hsent) m.call
        (List.mem_map_of_mem hmore))
    · have hdead : s.settled.alive = false := hdied
      rw [checkAll_of_dead hdead, List.getElem?_replicate, List.length_map, if_pos]
      exact (List.getElem?_eq_some_iff.1 hm).1

theorem reachable_of_work {u : Traffic Client} (h : Reachable service s)
    (hrun : Relation.ReflTransGen (Work service) s u) : Reachable service u :=
  h.trans (Relation.ReflTransGen.mono (fun _ _ hwork => Step.work hwork) s u hrun)

/-- **Every client gets its own answer over a bridge**, in whatever order calls, channel, worker and
service take turns, and whatever the service comes to. -/
theorem delivers_of_reachable (service : Service) (s : Traffic Client)
    (h : Reachable service s) : Delivers service s := by
  have ho := ordered_of_reachable h
  have ha := addressed_of_reachable h
  constructor
  case own_answer =>
    intro n c a hc hphase
    rcases ha.reply_of_returned hc hphase with hsent | ⟨-, hdied, hclosed⟩
    · exact .inl (ha.outcome_of_sent ho hc hsent)
    · exact .inr ⟨hdied, hclosed⟩
  case as_in_turn =>
    intro i m c a hm hc hphase
    exact ha.as_in_turn ho hm hc hphase
  case genuine =>
    intro m hm
    obtain ⟨c, hc, hrequest, -⟩ := ha.genuine m hm
    exact ⟨c, hc, hrequest⟩
  case at_most_once => exact ha.distinct
  case in_order => exact ho.entered_prefix
  case one_inside =>
    refine ⟨s.worker.inside, ho.entered_eq, ?_⟩
    cases s.worker <;> simp [Worker.inside]
  case died_of_panic => exact ho.died
  case closed_after =>
    intro hdied t hrun
    obtain ⟨hdied', hanswered⟩ := hasDied_run hdied hrun
    refine ⟨hdied', ?_⟩
    intro n c a hc hphase hnot
    rcases (addressed_of_reachable (h.trans hrun)).reply_of_returned hc hphase with
      hsent | ⟨-, -, hclosed⟩
    · exact absurd (hanswered n ⟨c, a, hc, hsent⟩) hnot
    · exact hclosed
  case comes_to_end => exact acc_work service s
  case returns =>
    intro t hrun hstuck
    have ht := reachable_of_work h hrun
    exact (addressed_of_reachable ht).returned_of_stuck (ordered_of_reachable ht) hstuck
  case bare =>
    intro bare hbare
    have halive : ¬ s.HasDied := by
      intro hdied
      obtain ⟨m, hm⟩ := ho.died hdied
      obtain ⟨front, rest, hsplit⟩ := List.append_of_mem hm
      have houtcome := ho.outcome front (m, none) rest hsplit
      rw [hbare] at houtcome
      cases houtcome
    refine ⟨halive, ?_⟩
    intro c hmem a hphase
    obtain ⟨n, hc⟩ := List.getElem?_of_mem hmem
    rcases ha.reply_of_returned hc hphase with hsent | ⟨-, hdied, -⟩
    · obtain ⟨front, rest, -, houtcome⟩ := ha.outcome_of_sent ho hc hsent
      rw [hbare] at houtcome
      exact (Option.some.inj houtcome).symm
    · exact absurd hdied halive

/-- Two clients call at the same time. The service answers the first request and dies of the second,
which is already in the channel when the first is answered. -/
theorem delivers_of_panic :
    let first : GrammarRequest := { (default : GrammarRequest) with text := "One.".toList }
    let second : GrammarRequest := { (default : GrammarRequest) with text := "Two.".toList }
    let service : Service := fun _ request =>
      if request = first then some (.ok default) else none
    ∃ s : Traffic Bool, Delivers service s ∧
      s.calls = [⟨true, first, .returned (.ok default), .sent (.ok default)⟩,
        ⟨false, second, .returned (.error .closed), .dropped⟩] := by
  intro first second service
  have h₀ : Reachable service ({} : Traffic Bool) := .refl
  have h₁ := h₀.tail (.call true first (by simp))
  have h₂ := h₁.tail (.call false second (by simp))
  have h₃ := h₂.tail (.work (.send (n := 0) rfl rfl (by simp) (by decide)))
  have h₄ := h₃.tail (.work (.receive rfl rfl))
  have h₅ := h₄.tail (.work (.send (n := 1) rfl rfl (by simp) (by decide)))
  have h₆ := h₅.tail (.work (.answer (a := .ok default) rfl (if_pos rfl)))
  have h₇ := h₆.tail (.work (.reply rfl))
  have h₈ := h₇.tail (.work (.receive rfl rfl))
  have h₉ := h₈.tail (.work (.panic rfl (if_neg (by decide))))
  have h₁₀ := h₉.tail (.work (.take (n := 0) rfl rfl rfl))
  have h₁₁ := h₁₀.tail (.work (.close rfl))
  have h₁₂ := h₁₁.tail (.work (.take (n := 1) rfl rfl rfl))
  exact ⟨_, delivers_of_reachable service _ h₁₂, rfl⟩

end CodeProse.Grammar.Bridge

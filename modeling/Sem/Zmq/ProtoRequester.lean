import Sem.Lib.Run
import Mathlib.Data.List.Basic
import Mathlib.Data.List.Nodup
import Mathlib.Data.List.Range

/-!
# Requesters

Requests are enqueued on some threads, with a promise each. Another thread sends them one after the
other, waits for the reply of each and settles its promise. A socket refuses to send a request
before the reply to the one before it is received.

* `independent_of_reachBy`: in every run in which no request follows one that timed out, each
  promise is settled once, in order, with what belongs to its request.
* `not_independent`: the request after one that timed out is refused.
-/

namespace Sem.Zmq

/-- `RequestStruct`, but for its promise. -/
structure Request where
  fnSignature : String
  typeName : String
  data : List UInt8
  timeout : Int
  deriving DecidableEq, Repr

/-- What a replier sends. -/
inductive Reply
  | success (typeName : String) (data : List UInt8)
  | error (message : String)
  deriving DecidableEq, Repr

/-- The exceptions of a promise. -/
inductive RequestError
  /-- `RMIException`, from the replier. -/
  | rmi (message : String)
  /-- `TimeoutException`. -/
  | timedOut
  /-- `ConstructProto` has no type of this name. -/
  | notRegistered (typeName : String)
  | cannotParse (typeName : String)
  /-- "Got ZMQ Exception". -/
  | zmq
  /-- "ZMQ ProtoRequester was shutdown during request handling". -/
  | shutdown
  /-- The promise was destroyed. -/
  | broken
  deriving DecidableEq, Repr

/-- What a promise is settled with. -/
inductive Settlement (π : Type)
  | value (proto : π)
  | exception (e : RequestError)
  deriving DecidableEq, Repr

/-- A `ZMQ_REQ` socket, with the request that it sent last and the reply that came to it. -/
inductive ReqSocket
  | ready
  | awaiting (id : ℕ) (reply : Option Reply)
  deriving DecidableEq, Repr

/-- `send`; it fails until the reply to the request before it is received. -/
def ReqSocket.send (id : ℕ) : ReqSocket → Option ReqSocket
  | .ready => some (.awaiting id none)
  | .awaiting _ _ => none

/-- Where the thread of `ProcessRequests` is. -/
inductive RequesterPoint
  /-- At `GetRequestSocket`. -/
  | connecting
  /-- It has a socket that is not connected. -/
  | created
  /-- It waits for a request. -/
  | head
  | sending (id : ℕ) (request : Request)
  | polling (id : ℕ) (request : Request)
  | finished
  deriving DecidableEq, Repr

namespace RequesterPoint

/-- The request that is neither in the queue nor settled. -/
def current : RequesterPoint → List (ℕ × Request)
  | .sending id r | .polling id r => [(id, r)]
  | _ => []

/-- The request that is sent and not settled. -/
def inFlight : RequesterPoint → List (ℕ × Request)
  | .polling id r => [(id, r)]
  | _ => []

end RequesterPoint

/-- A requester; a request is named by its position among the enqueued ones. -/
structure ProtoRequester (π : Type) where
  /-- There is a `context_`. -/
  context : Bool
  /-- The context is terminated, so that its sockets fail with `ETERM`. -/
  terminated : Bool
  /-- The types of `proto_register_`. -/
  registered : List String
  requestQueue : List (ℕ × Request)
  socket : ReqSocket
  thread : RequesterPoint
  /-- History: the requests enqueued, those sent, the replies that came in time, and the promises
  settled, all in their order. -/
  enqueued : List (ℕ × Request)
  sent : List (ℕ × Request)
  answered : List (ℕ × Reply)
  settled : List (ℕ × Settlement π)

namespace ProtoRequester

variable {π : Type}

/-- The constructor. -/
def start : ProtoRequester π where
  context := true
  terminated := false
  registered := []
  requestQueue := []
  socket := .ready
  thread := .connecting
  enqueued := []
  sent := []
  answered := []
  settled := []

/-- `EnqueueRequest`. -/
def enqueueRequest (s : ProtoRequester π) (r : Request) : ProtoRequester π :=
  { s with
    requestQueue := s.requestQueue ++ [(s.enqueued.length, r)]
    enqueued := s.enqueued ++ [(s.enqueued.length, r)] }

/-- The promise of a request is settled, and the thread goes on at `thread`. -/
def settle (s : ProtoRequester π) (id : ℕ) (x : Settlement π) (thread : RequesterPoint) :
    ProtoRequester π :=
  { s with settled := s.settled ++ [(id, x)], thread := thread }

/-- The promises of the queue are destroyed. -/
def clearQueue (s : ProtoRequester π) : ProtoRequester π :=
  { s with
    requestQueue := []
    settled := s.settled ++ s.requestQueue.map fun r => (r.1, .exception .broken) }

/-- What a promise is settled with after a reply; `parse` is `ParseFromArray`. -/
def settlement (parse : String → List UInt8 → Option π) (registered : List String) :
    Reply → Settlement π
  | .success typeName data =>
    if typeName ∈ registered then
      match parse typeName data with
      | some proto => .value proto
      | none => .exception (.cannotParse typeName)
    else .exception (.notRegistered typeName)
  | .error message => .exception (.rmi message)

/-- One step of `ProcessRequests`, but for the end of the time of a request. -/
def threadStep (parse : String → List UInt8 → Option π) (s : ProtoRequester π) :
    Option (ProtoRequester π) :=
  match s.thread with
  | .connecting => some { s with thread := if s.context then .created else .finished }
  | .created =>
    if s.terminated then some { s with thread := .finished }
    else some { s with socket := .ready, thread := .head }
  | .head =>
    if s.context then
      match s.requestQueue with
      | [] => none
      | (id, r) :: rest => some { s with requestQueue := rest, thread := .sending id r }
    else some { s.clearQueue with thread := .finished }
  | .sending id r =>
    if s.terminated then some (s.settle id (.exception .shutdown) .head)
    else
      match s.socket.send id with
      | some socket =>
        some { s with socket := socket, sent := s.sent ++ [(id, r)], thread := .polling id r }
      | none => some (s.settle id (.exception .zmq) .connecting)
  | .polling id _ =>
    if s.terminated then some (s.settle id (.exception .shutdown) .head)
    else
      match s.socket with
      | .awaiting _ (some reply) =>
        some { s.settle id (settlement parse s.registered reply) .head with socket := .ready }
      | _ => none
  | .finished => none

/-- `poll` returns without a reply; a negative time has no end. -/
def expire (s : ProtoRequester π) : Option (ProtoRequester π) :=
  match s.thread, s.socket with
  | .polling id r, .awaiting _ none =>
    if s.terminated = false ∧ 0 ≤ r.timeout then
      some (s.settle id (.exception .timedOut) .head)
    else none
  | _, _ => none

/-- The reply to the request on the socket comes: in time, while the thread waits for it, or
late. -/
def answer (s : ProtoRequester π) (reply : Reply) : Option (ProtoRequester π) :=
  match s.socket with
  | .awaiting id none =>
    some { s with
      socket := .awaiting id (some reply)
      answered := s.answered ++
        if id ∈ s.thread.inFlight.map Prod.fst then [(id, reply)] else [] }
  | _ => none

/-- What happens to a requester. -/
inductive Action
  | register (typeName : String)
  | enqueue (request : Request)
  | thread
  | expire
  | answer (reply : Reply)
  /-- The destructor takes the context. -/
  | shutdown
  /-- The destructor terminates the context. -/
  | terminate
  /-- The members are destroyed. -/
  | destroy

/-- One step of the run. -/
def step (parse : String → List UInt8 → Option π) (s : ProtoRequester π) :
    Action → Option (ProtoRequester π)
  | .register typeName => some { s with registered := typeName :: s.registered }
  | .enqueue r => if s.context then some (s.enqueueRequest r) else none
  | .thread => s.threadStep parse
  | .expire => s.expire
  | .answer reply => s.answer reply
  | .shutdown => some { s with context := false }
  | .terminate => if s.context then none else some { s with terminated := true }
  | .destroy =>
    if s.context = false ∧ s.thread = .finished then some s.clearQueue else none

/-- The runs of a requester. -/
def system (parse : String → List UInt8 → Option π) : Lts (ProtoRequester π) Action :=
  .ofFun start (step parse)

/-- The last promise was settled with a `TimeoutException`. -/
def lastTimedOut (s : ProtoRequester π) : Bool :=
  match s.settled.getLast? with
  | some (_, .exception .timedOut) => true
  | _ => false

/-- No request is sent right after one that timed out. -/
def Regular (s : ProtoRequester π) : Action → Prop
  | .thread =>
    match s.thread with
    | .sending _ _ => s.terminated = true ∨ s.lastTimedOut = false
    | _ => True
  | _ => True

/-! ## What is promised -/

/-- A step of the thread. -/
def Action.OfThread : Action → Prop
  | .thread | .expire => True
  | _ => False

variable (parse : String → List UInt8 → Option π) (s : ProtoRequester π)

/-- The promise of a request is settled with something of its own: with its reply, with the end of
its time if it was sent and had no reply, or with the end of the requester. -/
def Owns (id : ℕ) (x : Settlement π) : Prop :=
  (∃ reply registered, (id, reply) ∈ s.answered ∧ registered <:+ s.registered ∧
      x = settlement parse registered reply) ∨
    (x = .exception .timedOut ∧ (∃ r, (id, r) ∈ s.sent ∧ 0 ≤ r.timeout) ∧
      id ∉ s.answered.map Prod.fst) ∨
    (x = .exception .shutdown ∧ s.terminated = true) ∨
    (x = .exception .broken ∧ s.context = false ∧ id ∉ s.sent.map Prod.fst)

/-- A reply that came in time is there for the thread, or settled its promise, unless the context
was terminated before. -/
def Replied (id : ℕ) (reply : Reply) : Prop :=
  (∃ r, s.thread = .polling id r ∧ s.socket = .awaiting id (some reply)) ∨
    ∃ x, (id, x) ∈ s.settled ∧
      ((∃ registered, registered <:+ s.registered ∧ x = settlement parse registered reply) ∨
        (x = .exception .shutdown ∧ s.terminated = true))

/-- The thread can go on until all promises are settled. -/
def CanSettle : Prop :=
  ∃ as s', (∀ a ∈ as, a.OfThread) ∧ Lts.run (step parse) s as = some s' ∧
    s'.requestQueue = [] ∧ s'.thread.current = []

/-- What is promised of the requests. -/
structure Independent : Prop where
  fifo : s.sent.Sublist s.enqueued
  once : (s.settled.map Prod.fst).Nodup
  enqueued : s.settled.map Prod.fst <+: s.enqueued.map Prod.fst
  settled : s.requestQueue = [] → s.thread.current = [] →
    s.settled.map Prod.fst = s.enqueued.map Prod.fst
  own : ∀ p ∈ s.settled, s.Owns parse p.1 p.2
  replied : ∀ p ∈ s.answered, s.Replied parse p.1 p.2
  /-- The requests whose time has an end are settled without the help of others. -/
  canSettle : s.context = true →
    (∀ p ∈ s.thread.current ++ s.requestQueue, 0 ≤ p.2.timeout) → s.CanSettle parse

/-- The invariant of a requester, with the requests that are done. -/
structure Queued (done : List (ℕ × Request)) : Prop where
  numbered : s.enqueued.map Prod.fst = List.range s.enqueued.length
  order : s.enqueued = done ++ (s.thread.current ++ s.requestQueue)
  settled : s.settled.map Prod.fst = done.map Prod.fst
  sent : s.sent.Sublist (done ++ s.thread.inFlight)
  own : ∀ p ∈ s.settled, s.Owns parse p.1 p.2
  replied : ∀ p ∈ s.answered, s.Replied parse p.1 p.2
  polling : ∀ id r, s.thread = .polling id r → (id, r) ∈ s.sent ∧ ∃ reply,
    s.socket = .awaiting id reply ∧ ∀ reply', reply = some reply' → (id, reply') ∈ s.answered
  /-- The socket takes the next request unless the last one timed out. -/
  ready : s.thread = .head ∨ (∃ id r, s.thread = .sending id r) →
    s.socket = .ready ∨ s.terminated = true ∨ s.lastTimedOut = true
  finished : s.thread = .finished → s.context = false
  terminated : s.terminated = true → s.context = false

variable {parse s} {s' : ProtoRequester π} {done : List (ℕ × Request)}

/-! ## Books -/

theorem queued_start : Queued parse start [] where
  numbered := rfl
  order := rfl
  settled := rfl
  sent := List.Sublist.refl _
  own _ h := by cases h
  replied _ h := by cases h
  polling _ _ h := by cases h
  ready _ := .inl rfl
  finished h := by cases h
  terminated h := by cases h

/-- The request in hand is not settled yet. -/
theorem Queued.ne_of_settled (h : Queued parse s done) {id : ℕ} {r : Request}
    (hcurrent : s.thread.current = [(id, r)]) {p : ℕ × Settlement π} (hp : p ∈ s.settled) :
    p.1 ≠ id := by
  have hnodup : (s.enqueued.map Prod.fst).Nodup := h.numbered ▸ List.nodup_range
  rw [h.order, List.map_append, ← h.settled, hcurrent] at hnodup
  exact (List.nodup_append.mp hnodup).2.2 _ (List.mem_map_of_mem hp) _ (by simp)

/-- A reply that came, and is not there for the thread, settled its promise. -/
theorem Queued.settled_of_answered (h : Queued parse s done)
    (hpoint : ∀ id r reply, s.thread = .polling id r → s.socket ≠ .awaiting id (some reply))
    {p : ℕ × Reply} (hp : p ∈ s.answered) : ∃ x, (p.1, x) ∈ s.settled ∧
      ((∃ registered, registered <:+ s.registered ∧ x = settlement parse registered p.2) ∨
        (x = .exception .shutdown ∧ s.terminated = true)) := by
  obtain ⟨r, hthread, hsocket⟩ | hsettled := h.replied p hp
  · exact absurd hsocket (hpoint _ _ _ hthread)
  · exact hsettled

/-- A step of the thread that settles nothing. -/
theorem Queued.goto (h : Queued parse s done) {thread : RequesterPoint}
    {requestQueue : List (ℕ × Request)}
    (horder : thread.current ++ requestQueue = s.thread.current ++ s.requestQueue)
    (hinFlight : thread.inFlight = [] ∧ s.thread.inFlight = []) {socket : ReqSocket}
    (hready : thread = .head ∨ (∃ id r, thread = .sending id r) →
      socket = .ready ∨ s.terminated = true ∨ s.lastTimedOut = true)
    (hfinished : thread = .finished → s.context = false) :
    Queued parse { s with
      thread := thread, requestQueue := requestQueue, socket := socket } done where
  numbered := h.numbered
  order := by rw [h.order, horder]
  settled := h.settled
  sent := by
    have hsent := h.sent
    rw [hinFlight.2] at hsent
    rw [hinFlight.1]
    exact hsent
  own := h.own
  replied p hp := by
    refine .inr (h.settled_of_answered (fun id r reply hpoint => ?_) hp)
    have hnone := hinFlight.2
    rw [hpoint] at hnone
    cases hnone
  polling id r hpoint := by
    obtain rfl : thread = .polling id r := hpoint
    cases hinFlight.1
  ready := hready
  finished := hfinished
  terminated := h.terminated

/-- The request in hand is sent. -/
theorem Queued.send (h : Queued parse s done) {id : ℕ} {r : Request}
    (hpoint : s.thread = .sending id r) :
    Queued parse { s with
      socket := .awaiting id none, sent := s.sent ++ [(id, r)], thread := .polling id r } done where
  numbered := h.numbered
  order := by
    have horder := h.order
    rwa [hpoint] at horder
  settled := h.settled
  sent := by
    have hsent := h.sent
    rw [hpoint] at hsent
    have hdone : s.sent.Sublist done := by simpa [RequesterPoint.inFlight] using hsent
    exact hdone.append (List.Sublist.refl _)
  own p hp := by
    have hne : p.1 ≠ id := h.ne_of_settled (by rw [hpoint]; rfl) hp
    obtain hreply | ⟨hx, ⟨r', hr', htime⟩, hnone⟩ | hshutdown | ⟨hx, hcontext, hnone⟩ := h.own p hp
    · exact .inl hreply
    · exact .inr (.inl ⟨hx, ⟨r', List.mem_append_left _ hr', htime⟩, hnone⟩)
    · exact .inr (.inr (.inl hshutdown))
    · refine .inr (.inr (.inr ⟨hx, hcontext, ?_⟩))
      simpa [hne] using hnone
  replied p hp := .inr (h.settled_of_answered
    (fun id r reply hpolling => by rw [hpoint] at hpolling; cases hpolling) hp)
  polling id' r' hpolling := by
    cases hpolling
    exact ⟨by simp, none, rfl, nofun⟩
  ready hpoint := by obtain hpoint | ⟨_, _, hpoint⟩ := hpoint <;> cases hpoint
  finished hpoint := by cases hpoint
  terminated := h.terminated

/-- The request in hand is settled, with its reply if that is there. -/
theorem Queued.settle (h : Queued parse s done) {id : ℕ} {r : Request}
    (hcurrent : s.thread.current = [(id, r)]) {x : Settlement π} (hown : s.Owns parse id x)
    (hreply : ∀ reply, s.socket = .awaiting id (some reply) →
      x = settlement parse s.registered reply ∨
        (x = .exception .shutdown ∧ s.terminated = true)) {socket : ReqSocket}
    (hready : socket = .ready ∨ s.terminated = true ∨ x = .exception .timedOut) :
    Queued parse { s.settle id x .head with socket := socket } (done ++ [(id, r)]) where
  numbered := h.numbered
  order := by
    show s.enqueued = done ++ [(id, r)] ++ s.requestQueue
    rw [h.order, hcurrent, List.append_assoc]
  settled := by
    show (s.settled ++ [(id, x)]).map Prod.fst = _
    rw [List.map_append, List.map_append, h.settled]
    rfl
  sent := by
    have hinFlight : s.thread.inFlight.Sublist [(id, r)] := by
      cases hpoint : s.thread <;> rw [hpoint] at hcurrent
      case polling => exact hcurrent ▸ List.Sublist.refl _
      all_goals exact List.nil_sublist _
    show s.sent.Sublist (done ++ [(id, r)] ++ [])
    rw [List.append_nil]
    exact h.sent.trans ((List.Sublist.refl done).append hinFlight)
  own p hp := by
    obtain hp | hp := List.mem_append.mp hp
    · exact h.own p hp
    · exact List.mem_singleton.mp hp ▸ hown
  replied p hp := by
    obtain ⟨r', hthread, hsocket⟩ | ⟨y, hy, hsettled⟩ := h.replied p hp
    · obtain ⟨rfl, -⟩ : p.1 = id ∧ r' = r := by
        rw [hthread] at hcurrent
        simpa [RequesterPoint.current] using hcurrent
      refine .inr ⟨x, by simp [ProtoRequester.settle], (hreply _ hsocket).imp_left fun hx => ?_⟩
      exact ⟨s.registered, List.suffix_refl _, hx⟩
    · exact .inr ⟨y, List.mem_append_left _ hy, hsettled⟩
  polling _ _ hpoint := by cases hpoint
  ready _ := by
    refine hready.imp_right (Or.imp_right fun hx => ?_)
    show (match (s.settled ++ [(id, x)]).getLast? with
      | some (_, .exception .timedOut) => true
      | _ => false) = true
    rw [List.getLast?_concat, hx]
  finished hpoint := by cases hpoint
  terminated := h.terminated

/-- The queue is destroyed. -/
theorem Queued.clearQueue (h : Queued parse s done) (hcurrent : s.thread.current = [])
    (hcontext : s.context = false) :
    Queued parse { s.clearQueue with thread := .finished } s.enqueued := by
  have hinFlight : s.thread.inFlight = [] := by
    cases hpoint : s.thread <;> rw [hpoint] at hcurrent <;> first | rfl | cases hcurrent
  have hdone : s.sent.Sublist done := by
    have hsent := h.sent
    rwa [hinFlight, List.append_nil] at hsent
  refine
    { numbered := h.numbered, order := (List.append_nil _).symm, settled := ?_, sent := ?_
      own := fun p hp => ?_, replied := fun p hp => ?_, polling := fun _ _ hpoint => nomatch hpoint
      ready := fun hpoint => ?_, finished := fun _ => hcontext, terminated := h.terminated }
  · show (s.settled ++ s.requestQueue.map fun r : ℕ × Request =>
      (r.1, Settlement.exception .broken)).map Prod.fst = _
    rw [List.map_append, h.settled, List.map_map, h.order, hcurrent, List.nil_append,
      List.map_append]
    rfl
  · show s.sent.Sublist (s.enqueued ++ [])
    rw [List.append_nil, h.order]
    exact hdone.trans (List.sublist_append_left done _)
  · obtain hp | hp := List.mem_append.mp hp
    · exact h.own p hp
    · obtain ⟨r, hr, rfl⟩ := List.mem_map.mp hp
      refine .inr (.inr (.inr ⟨rfl, hcontext, fun hsent => ?_⟩))
      have hnodup : (s.enqueued.map Prod.fst).Nodup := h.numbered ▸ List.nodup_range
      rw [h.order, hcurrent, List.nil_append, List.map_append] at hnodup
      exact (List.nodup_append.mp hnodup).2.2 _ ((hdone.map Prod.fst).subset hsent) _
        (List.mem_map_of_mem hr) rfl
  · obtain ⟨x, hx, hreply⟩ := h.settled_of_answered
      (fun id r reply hpoint => by rw [hpoint] at hcurrent; cases hcurrent) hp
    exact .inr ⟨x, List.mem_append_left _ hx, hreply⟩
  · obtain hpoint | ⟨_, _, hpoint⟩ := hpoint <;> cases hpoint

/-- The thread settles the first request of the queue. -/
theorem Queued.threadStep (h : Queued parse s done) (hok : s.Regular .thread)
    (hstep : s.threadStep parse = some s') : ∃ done, Queued parse s' done := by
  unfold ProtoRequester.threadStep at hstep
  cases hpoint : s.thread with
  | connecting =>
    simp only [hpoint] at hstep
    split at hstep
    · cases hstep
      exact ⟨done, h.goto (by rw [hpoint]; rfl) ⟨rfl, by rw [hpoint]; rfl⟩
        (by rintro (hthread | ⟨_, _, hthread⟩) <;> cases hthread) nofun⟩
    · rename_i hcontext
      cases hstep
      exact ⟨done, h.goto (by rw [hpoint]; rfl) ⟨rfl, by rw [hpoint]; rfl⟩
        (by rintro (hthread | ⟨_, _, hthread⟩) <;> cases hthread)
        (fun _ => Bool.eq_false_iff.mpr hcontext)⟩
  | created =>
    simp only [hpoint] at hstep
    split at hstep
    · rename_i hterminated
      cases hstep
      exact ⟨done, h.goto (by rw [hpoint]; rfl) ⟨rfl, by rw [hpoint]; rfl⟩
        (by rintro (hthread | ⟨_, _, hthread⟩) <;> cases hthread)
        (fun _ => h.terminated hterminated)⟩
    · cases hstep
      exact ⟨done, h.goto (by rw [hpoint]; rfl) ⟨rfl, by rw [hpoint]; rfl⟩
        (fun _ => .inl rfl) nofun⟩
  | head =>
    simp only [hpoint] at hstep
    split at hstep
    · split at hstep
      · cases hstep
      · rename_i id r rest hqueue
        cases hstep
        exact ⟨done, h.goto (by rw [hpoint, hqueue]; rfl) ⟨rfl, by rw [hpoint]; rfl⟩
          (fun _ => h.ready (.inl hpoint)) nofun⟩
    · rename_i hcontext
      cases hstep
      exact ⟨_, h.clearQueue (by rw [hpoint]; rfl) (Bool.eq_false_iff.mpr hcontext)⟩
  | sending id r =>
    simp only [hpoint] at hstep
    have hcurrent : s.thread.current = [(id, r)] := by
      rw [hpoint]
      rfl
    split at hstep
    · rename_i hterminated
      cases hstep
      exact ⟨_, h.settle hcurrent (.inr (.inr (.inl ⟨rfl, hterminated⟩)))
        (fun _ _ => .inr ⟨rfl, hterminated⟩) (.inr (.inl hterminated))⟩
    · rename_i hterminated
      -- the request before this one did not time out, so the socket takes it
      have hready : s.socket = .ready := by
        simp only [Regular, hpoint] at hok
        obtain hready | hready | hlast := h.ready (.inr ⟨id, r, hpoint⟩)
        · exact hready
        · exact absurd hready hterminated
        · exact absurd (hlast.symm.trans (hok.resolve_left hterminated)) nofun
      rw [hready] at hstep
      cases hstep
      exact ⟨done, h.send hpoint⟩
  | polling id r =>
    simp only [hpoint] at hstep
    have hcurrent : s.thread.current = [(id, r)] := by
      rw [hpoint]
      rfl
    split at hstep
    · rename_i hterminated
      cases hstep
      exact ⟨_, h.settle hcurrent (.inr (.inr (.inl ⟨rfl, hterminated⟩)))
        (fun _ _ => .inr ⟨rfl, hterminated⟩) (.inr (.inl hterminated))⟩
    · split at hstep
      · rename_i id' reply hsocket
        cases hstep
        obtain ⟨-, reply', hawaiting, hanswered⟩ := h.polling id r hpoint
        obtain ⟨rfl, rfl⟩ := ReqSocket.awaiting.inj (hsocket.symm.trans hawaiting)
        refine ⟨_, h.settle hcurrent (.inl ⟨reply, s.registered, hanswered _ rfl,
          List.suffix_refl _, rfl⟩) (fun reply' hsocket' => .inl ?_) (.inl rfl)⟩
        obtain ⟨-, heq⟩ := ReqSocket.awaiting.inj (hsocket.symm.trans hsocket')
        rw [Option.some.inj heq]
      · cases hstep
  | finished =>
    simp only [hpoint] at hstep
    cases hstep

/-- A new request is the last one. -/
theorem Queued.enqueueRequest (h : Queued parse s done) (r : Request) :
    Queued parse (s.enqueueRequest r) done where
  numbered := by
    show (s.enqueued ++ [(s.enqueued.length, r)]).map Prod.fst = _
    rw [List.map_append, h.numbered]
    show _ = List.range (s.enqueued ++ [(s.enqueued.length, r)]).length
    rw [List.length_append, List.length_singleton, List.range_succ]
    rfl
  order := by
    show s.enqueued ++ [(s.enqueued.length, r)] = done ++
      (s.thread.current ++ (s.requestQueue ++ [(s.enqueued.length, r)]))
    rw [← List.append_assoc s.thread.current, ← List.append_assoc done, ← h.order]
  settled := h.settled
  sent := h.sent
  own := h.own
  replied := h.replied
  polling := h.polling
  ready := h.ready
  finished := h.finished
  terminated := h.terminated

/-- A time-out settles the request that was sent. -/
theorem Queued.expire (h : Queued parse s done) (hstep : s.expire = some s') :
    ∃ done, Queued parse s' done := by
  unfold ProtoRequester.expire at hstep
  split at hstep
  · rename_i id r id' hpoint hsocket
    split at hstep
    · rename_i htime
      cases hstep
      have hcurrent : s.thread.current = [(id, r)] := by
        rw [hpoint]
        rfl
      -- a reply would be on the socket, or would have settled the promise before
      have hnone : id ∉ s.answered.map Prod.fst := by
        intro hmem
        obtain ⟨p, hp, rfl⟩ := List.mem_map.mp hmem
        obtain ⟨-, -, hreply⟩ | ⟨x, hx, -⟩ := h.replied p hp
        · cases hsocket.symm.trans hreply
        · exact h.ne_of_settled hcurrent hx rfl
      refine ⟨_, h.settle hcurrent (.inr (.inl ⟨rfl, ⟨r, (h.polling id r hpoint).1, htime.2⟩,
        hnone⟩)) (fun reply hreply => ?_) (.inr (.inr rfl))⟩
      cases hsocket.symm.trans hreply
    · cases hstep
  · cases hstep

/-- An answer waits on the socket. -/
theorem Queued.answer (h : Queued parse s done) {reply : Reply}
    (hstep : s.answer reply = some s') : Queued parse s' done := by
  unfold ProtoRequester.answer at hstep
  split at hstep
  · rename_i id hsocket
    cases hstep
    have hsub := List.subset_append_left s.answered
      (if id ∈ s.thread.inFlight.map Prod.fst then [(id, reply)] else [])
    have hflying : id ∈ s.thread.inFlight.map Prod.fst → ∃ r, s.thread = .polling id r := by
      intro hmem
      cases hpoint : s.thread <;> rw [hpoint] at hmem
      case polling id' r =>
        obtain rfl : id = id' := by simpa [RequesterPoint.inFlight] using hmem
        exact ⟨r, rfl⟩
      all_goals cases hmem
    refine ⟨h.numbered, h.order, h.settled, h.sent, fun p hp => ?_, fun p hp => ?_,
      fun id' r hpoint => ?_, fun hpoint => ?_, h.finished, h.terminated⟩
    · obtain ⟨reply', registered, hmem, hrest⟩ | ⟨hx, hsent, hnone⟩ | hshutdown | hbroken :=
        h.own p hp
      · exact .inl ⟨reply', registered, hsub hmem, hrest⟩
      · refine .inr (.inl ⟨hx, hsent, ?_⟩)
        rw [List.map_append, List.mem_append, not_or]
        refine ⟨hnone, fun hnew => ?_⟩
        split at hnew
        · rename_i hmem
          obtain ⟨r, hpoint⟩ := hflying hmem
          exact h.ne_of_settled (by rw [hpoint]; rfl) hp (by simpa using hnew)
        · cases hnew
      · exact .inr (.inr (.inl hshutdown))
      · exact .inr (.inr (.inr hbroken))
    · obtain hp | hp := List.mem_append.mp hp
      · refine .inr (h.settled_of_answered (fun id' r reply' _ hreply => ?_) hp)
        cases hsocket.symm.trans hreply
      · split at hp
        · rename_i hmem
          obtain rfl := List.mem_singleton.mp hp
          obtain ⟨r, hpoint⟩ := hflying hmem
          exact .inl ⟨r, hpoint, rfl⟩
        · cases hp
    · obtain ⟨hsent, reply', hawaiting, -⟩ := h.polling id' r hpoint
      obtain ⟨rfl, -⟩ := ReqSocket.awaiting.inj (hsocket.symm.trans hawaiting)
      refine ⟨hsent, some reply, rfl, fun reply' heq => List.mem_append_right _ ?_⟩
      have hmem : id ∈ s.thread.inFlight.map Prod.fst := by
        rw [show s.thread = .polling id r from hpoint]
        exact List.mem_cons_self
      rw [if_pos hmem, Option.some.inj heq]
      exact List.mem_cons_self
    · refine .inr ((h.ready hpoint).resolve_left fun hready => ?_)
      cases hsocket.symm.trans hready
  · cases hstep

theorem inductiveBy_queued (parse : String → List UInt8 → Option π) :
    (system parse).InductiveBy Regular (fun s => ∃ done, Queued parse s done) where
  init := by
    rintro s rfl
    exact ⟨[], queued_start⟩
  step := by
    rintro s a s' ⟨done, h⟩ hok hstep
    cases a with
    | register typeName =>
      obtain rfl := Option.some.inj hstep
      have hsuffix := List.suffix_cons typeName s.registered
      refine ⟨done, h.numbered, h.order, h.settled, h.sent, fun p hp => ?_, fun p hp => ?_,
        h.polling, h.ready, h.finished, h.terminated⟩
      · obtain ⟨reply, registered, hmem, hregistered, hx⟩ | hrest := h.own p hp
        · exact .inl ⟨reply, registered, hmem, hregistered.trans hsuffix, hx⟩
        · exact .inr hrest
      · obtain hthere | ⟨x, hx, ⟨registered, hregistered, hreply⟩ | hshutdown⟩ := h.replied p hp
        · exact .inl hthere
        · exact .inr ⟨x, hx, .inl ⟨registered, hregistered.trans hsuffix, hreply⟩⟩
        · exact .inr ⟨x, hx, .inr hshutdown⟩
    | enqueue r =>
      replace hstep : (if s.context then _ else none) = some s' := hstep
      split at hstep
      · obtain rfl := Option.some.inj hstep
        exact ⟨done, h.enqueueRequest r⟩
      · cases hstep
    | thread => exact h.threadStep hok hstep
    | expire => exact h.expire hstep
    | answer reply => exact ⟨done, h.answer hstep⟩
    | shutdown =>
      obtain rfl := Option.some.inj hstep
      refine ⟨done, h.numbered, h.order, h.settled, h.sent, fun p hp => ?_, h.replied, h.polling,
        h.ready, fun _ => rfl, fun _ => rfl⟩
      obtain hreply | htime | hshutdown | ⟨hx, -, hnone⟩ := h.own p hp
      · exact .inl hreply
      · exact .inr (.inl htime)
      · exact .inr (.inr (.inl hshutdown))
      · exact .inr (.inr (.inr ⟨hx, rfl, hnone⟩))
    | terminate =>
      replace hstep : (if s.context then none else _) = some s' := hstep
      split at hstep
      · cases hstep
      · rename_i hcontext
        obtain rfl := Option.some.inj hstep
        refine ⟨done, h.numbered, h.order, h.settled, h.sent, fun p hp => ?_, fun p hp => ?_,
          h.polling, fun _ => .inr (.inl rfl), h.finished, fun _ => Bool.eq_false_iff.mpr hcontext⟩
        · obtain hreply | htime | ⟨hx, -⟩ | hbroken := h.own p hp
          · exact .inl hreply
          · exact .inr (.inl htime)
          · exact .inr (.inr (.inl ⟨hx, rfl⟩))
          · exact .inr (.inr (.inr hbroken))
        · obtain hthere | ⟨x, hx, hreply | ⟨hshutdown, -⟩⟩ := h.replied p hp
          · exact .inl hthere
          · exact .inr ⟨x, hx, .inl hreply⟩
          · exact .inr ⟨x, hx, .inr ⟨hshutdown, rfl⟩⟩
    | destroy =>
      replace hstep : (if s.context = false ∧ s.thread = .finished then _ else none) = some s' :=
        hstep
      split at hstep
      · rename_i hend
        obtain rfl := Option.some.inj hstep
        have hcurrent : s.thread.current = [] := by
          rw [hend.2]
          rfl
        have hclear := h.clearQueue hcurrent hend.1
        rw [← hend.2] at hclear
        exact ⟨_, hclear⟩
      · cases hstep

/-! ## Progress -/

theorem canSettle_of_step {a : Action} (ha : a.OfThread) (hstep : s.step parse a = some s')
    (h : s'.CanSettle parse) : s.CanSettle parse := by
  obtain ⟨as, s'', has, hrun, hsettled⟩ := h
  refine ⟨a :: as, s'', fun a' ha' => ?_, ?_, hsettled⟩
  · obtain rfl | ha' := List.mem_cons.mp ha'
    · exact ha
    · exact has a' ha'
  · rw [Lts.run, Lts.runBy, if_pos trivial, hstep]
    exact hrun

theorem canSettle_of_threadStep (hstep : s.threadStep parse = some s')
    (h : s'.CanSettle parse) : s.CanSettle parse :=
  canSettle_of_step (a := .thread) trivial hstep h

section Progress

/-- From the head of the loop, with a queue. -/
def SettlesFrom (parse : String → List UInt8 → Option π) (queue : List (ℕ × Request)) : Prop :=
  ∀ s : ProtoRequester π, s.context = true → s.terminated = false → s.requestQueue = queue →
    s.thread = .head → s.CanSettle parse

variable (hcontext : s.context = true) (hterminated : s.terminated = false)
  (hnext : SettlesFrom parse s.requestQueue)

include hcontext hterminated hnext

theorem canSettle_of_created (hpoint : s.thread = .created) : s.CanSettle parse := by
  have hstep : s.threadStep parse = some { s with socket := .ready, thread := .head } := by
    simp [threadStep, hpoint, hterminated]
  exact canSettle_of_threadStep hstep (hnext _ hcontext hterminated rfl rfl)

theorem canSettle_of_connecting (hpoint : s.thread = .connecting) : s.CanSettle parse := by
  have hstep : s.threadStep parse = some { s with thread := .created } := by
    simp [threadStep, hpoint, hcontext]
  exact canSettle_of_threadStep hstep (canSettle_of_created hcontext hterminated hnext rfl)

theorem canSettle_of_polling {id : ℕ} {r : Request} (hpoint : s.thread = .polling id r)
    {reply : Option Reply} (hsocket : s.socket = .awaiting id reply)
    (htimeout : 0 ≤ r.timeout) : s.CanSettle parse := by
  cases reply with
  | none =>
    have hstep : s.expire = some (s.settle id (.exception .timedOut) .head) := by
      simp only [expire, hpoint, hsocket, hterminated, htimeout, and_self, if_true]
    exact canSettle_of_step (a := .expire) trivial hstep (hnext _ hcontext hterminated rfl rfl)
  | some reply =>
    have hstep : s.threadStep parse =
        some { s.settle id (settlement parse s.registered reply) .head with socket := .ready } := by
      simp [threadStep, hpoint, hsocket, hterminated]
    exact canSettle_of_threadStep hstep (hnext _ hcontext hterminated rfl rfl)

/-- A request that is refused is settled, and a new socket is made. -/
theorem canSettle_of_sending {id : ℕ} {r : Request} (hpoint : s.thread = .sending id r)
    (htimeout : 0 ≤ r.timeout) : s.CanSettle parse := by
  cases hsocket : s.socket with
  | ready =>
    have hstep : s.threadStep parse = some { s with
        socket := .awaiting id none, sent := s.sent ++ [(id, r)], thread := .polling id r } := by
      simp [threadStep, hpoint, hsocket, hterminated, ReqSocket.send]
    exact canSettle_of_threadStep hstep
      (canSettle_of_polling hcontext hterminated hnext rfl rfl htimeout)
  | awaiting id' reply =>
    have hstep : s.threadStep parse = some (s.settle id (.exception .zmq) .connecting) := by
      simp [threadStep, hpoint, hsocket, hterminated, ReqSocket.send]
    exact canSettle_of_threadStep hstep (canSettle_of_connecting hcontext hterminated hnext rfl)

end Progress

/-- By induction over the queue. -/
theorem settlesFrom {queue : List (ℕ × Request)} (htimeout : ∀ p ∈ queue, 0 ≤ p.2.timeout) :
    SettlesFrom parse queue := by
  induction queue with
  | nil =>
    intro s hcontext hterminated hqueue hpoint
    refine ⟨[], s, nofun, rfl, hqueue, ?_⟩
    rw [hpoint]
    rfl
  | cons p rest ih =>
    intro s hcontext hterminated hqueue hpoint
    have hrest := ih fun q hq => htimeout q (List.mem_cons_of_mem _ hq)
    have hstep : s.threadStep parse =
        some { s with requestQueue := rest, thread := .sending p.1 p.2 } := by
      simp [threadStep, hpoint, hcontext, hqueue]
    exact canSettle_of_threadStep hstep
      (canSettle_of_sending hcontext hterminated hrest rfl (htimeout p List.mem_cons_self))

/-- With a context every request can be settled. -/
theorem Queued.canSettle (h : Queued parse s done) (hcontext : s.context = true)
    (htimeout : ∀ p ∈ s.thread.current ++ s.requestQueue, 0 ≤ p.2.timeout) :
    s.CanSettle parse := by
  have hterminated : s.terminated = false := by
    cases hterminated : s.terminated with
    | false => rfl
    | true => cases hcontext.symm.trans (h.terminated hterminated)
  have hnext : SettlesFrom parse s.requestQueue :=
    settlesFrom fun p hp => htimeout p (List.mem_append_right _ hp)
  have hcurrent : ∀ id r, s.thread.current = [(id, r)] → 0 ≤ r.timeout := fun id r hcurrent =>
    htimeout (id, r) (List.mem_append_left _ (by rw [hcurrent]; exact List.mem_cons_self))
  cases hpoint : s.thread with
  | connecting => exact canSettle_of_connecting hcontext hterminated hnext hpoint
  | created => exact canSettle_of_created hcontext hterminated hnext hpoint
  | head => exact hnext s hcontext hterminated rfl hpoint
  | sending id r =>
    exact canSettle_of_sending hcontext hterminated hnext hpoint
      (hcurrent id r (by rw [hpoint]; rfl))
  | polling id r =>
    obtain ⟨-, reply, hsocket, -⟩ := h.polling id r hpoint
    exact canSettle_of_polling hcontext hterminated hnext hpoint hsocket
      (hcurrent id r (by rw [hpoint]; rfl))
  | finished => cases hcontext.symm.trans (h.finished hpoint)

theorem Queued.independent (h : Queued parse s done) : s.Independent parse where
  fifo := by
    refine h.sent.trans ?_
    have hinFlight : s.thread.inFlight.Sublist s.thread.current := by
      cases s.thread <;> first | exact List.Sublist.refl _ | exact List.nil_sublist _
    rw [h.order]
    exact (List.Sublist.refl done).append (hinFlight.trans (List.sublist_append_left _ _))
  once := by
    have hnodup : (s.enqueued.map Prod.fst).Nodup := h.numbered ▸ List.nodup_range
    rw [h.order, List.map_append, ← h.settled] at hnodup
    exact (List.nodup_append.mp hnodup).1
  enqueued := by
    rw [h.order, List.map_append, ← h.settled]
    exact List.prefix_append _ _
  settled hqueue hcurrent := by
    rw [h.order, hqueue, hcurrent, h.settled, List.append_nil, List.append_nil]
  own := h.own
  replied := h.replied
  canSettle := h.canSettle

/-- The requests are independent in every run in which none is sent right after one that timed
out. -/
theorem independent_of_reachBy (h : (system parse).ReachBy Regular s) : s.Independent parse := by
  obtain ⟨done, hqueued⟩ := (inductiveBy_queued parse).reach h
  exact hqueued.independent

instance (s : ProtoRequester π) : ∀ a : Action, Decidable (s.Regular a)
  | .thread =>
    match hpoint : s.thread with
    | .sending _ _ =>
      decidable_of_iff (s.terminated = true ∨ s.lastTimedOut = false) (by simp [Regular, hpoint])
    | .connecting | .created | .head | .polling _ _ | .finished =>
      .isTrue (by simp [Regular, hpoint])
  | .register _ | .enqueue _ | .expire | .answer _ | .shutdown | .terminate | .destroy =>
    .isTrue trivial

/-- A request with a time limit. -/
def request (data : UInt8) : Request := ⟨"fn(A) -> B", "A", [data], 100⟩

/-- Messages of any type are their bytes. -/
def parseBytes (_ : String) (data : List UInt8) : Option (List UInt8) := some data

/-- Two requests, the first of which is sent. -/
def sentRun : List Action :=
  [.register "B", .enqueue (request 1), .enqueue (request 2), .thread, .thread, .thread, .thread]

/-- The first request is answered, and the second times out. -/
theorem independent_of_reachBy_answered : ∃ s, Lts.runBy (step parseBytes) Regular start
    (sentRun ++ [.answer (.success "B" [7]), .thread, .thread, .thread, .expire]) = some s ∧
      s.settled = [(0, .value [7]), (1, .exception .timedOut)] ∧ s.Independent parseBytes := by
  obtain ⟨s, hs, hsettled⟩ : ∃ s, Lts.runBy (step parseBytes) Regular start
      (sentRun ++ [.answer (.success "B" [7]), .thread, .thread, .thread, .expire]) = some s ∧
        s.settled = [(0, .value [7]), (1, .exception .timedOut)] := ⟨_, rfl, rfl⟩
  exact ⟨s, hs, hsettled, independent_of_reachBy (Lts.reachBy_of_runBy hs)⟩

theorem settlement_ne_zmq (registered : List String) (reply : Reply) :
    settlement parse registered reply ≠ .exception .zmq := by
  unfold settlement
  cases reply with
  | success typeName data =>
    simp only
    split
    · split <;> nofun
    · nofun
  | error message => nofun

/-- The first request times out, and the second is refused. -/
theorem not_independent : ∃ s, Lts.run (step parseBytes) start
    (sentRun ++ [.expire, .thread, .thread]) = some s ∧
      s.settled = [(0, .exception .timedOut), (1, .exception .zmq)] ∧
      ¬ s.Independent parseBytes :=
  ⟨_, rfl, rfl, fun h => by
    obtain ⟨reply, registered, -, -, hreply⟩ | ⟨hx, -⟩ | ⟨hx, -⟩ | ⟨hx, -⟩ :=
      h.own (1, .exception .zmq) (List.mem_cons_of_mem _ List.mem_cons_self)
    · exact settlement_ne_zmq registered reply hreply.symm
    all_goals cases hx⟩

end ProtoRequester

end Sem.Zmq

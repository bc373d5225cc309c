import Sem.Ports.RequestReplyPort

/-!
# Event accounting

When nothing is going on in a port, the events that it received are those that it processed, those
that it ignored and those still queued. Requester ports count the refused and the failed calls
differently, so for them it takes calls that go well.

* `SubscriberPort.inOrder_of_reachBy`, `RequestReplyPort.inOrder_of_reachBy`: the books of every
  run whose steps go through the branches that keep them.
* `Port.accounted_of_reachBy`: the counts of all ports.
-/

namespace Sem.Ports

/-! ## Subscriber ports -/

namespace SubscriberPort

/-- The message that the callback has. -/
def inCall (p : SubscriberPort) : List ℕ :=
  match p.process.thread with
  | .inside (.call _ message) => [message]
  | _ => []

/-- The message that `TickLoop` is to enqueue. -/
def inTick (p : SubscriberPort) : List ℕ :=
  match p.tick.thread with
  | .inside (.enqueue message) => [message]
  | _ => []

/-- No message is on its way between the queue and a count. -/
def Quiescent (p : SubscriberPort) : Prop :=
  p.arriving = [] ∧ p.queue = [] ∧ p.inCall = [] ∧ p.inTick = []

/-- What is promised of the counts. -/
structure Accounted (p : SubscriberPort) : Prop where
  balanced : p.Quiescent → p.counts.Balanced p.messageQueue.length
  distinct : p.counts.Distinct

/-- A callback returns, or throws a `std::exception`. -/
def Catches (p : SubscriberPort) : Action → Prop
  | .process outcome => outcome = .throwsOther → p.inCall = []
  | _ => True

/-- The messages that are received and not counted further. -/
def pending (p : SubscriberPort) : List ℕ :=
  p.inTick ++ (p.arriving ++ (p.messageQueue ++ (p.queue ++ p.inCall)))

/-- The counts of the port are in order. -/
def InOrder (p : SubscriberPort) : Prop :=
  Ledger p.counts p.pending [] p.counts.received.length

variable {p p' : SubscriberPort}

theorem InOrder.accounted (h : InOrder p) : Accounted p where
  balanced := by
    rintro ⟨harriving, hqueue, hcall, htick⟩
    have hbalanced := h.balanced
    simpa [pending, harriving, hqueue, hcall, htick] using hbalanced
  distinct := h.distinct

/-- A step that only moves messages. -/
theorem InOrder.move (h : InOrder p) (hcounts : p'.counts = p.counts)
    (hpending : p.pending.Perm p'.pending) : InOrder p' := by
  rw [InOrder, hcounts]
  exact h.perm hpending .rfl

/-- A message that is counted as ignored. -/
theorem InOrder.ignore (h : InOrder p) {message : ℕ}
    (hcounts : p'.counts = p.counts.eventIgnored message)
    (hpending : p.pending.Perm (message :: p'.pending)) : InOrder p' := by
  rw [InOrder, hcounts]
  exact (h.perm hpending .rfl).eventIgnored

/-- A message that is counted as processed. -/
theorem InOrder.process (h : InOrder p) {message : ℕ}
    (hcounts : p'.counts = p.counts.eventProcessed message)
    (hpending : p.pending.Perm (message :: p'.pending)) : InOrder p' := by
  rw [InOrder, hcounts]
  exact (h.perm hpending .rfl).eventProcessed

/-- A message that is counted as received. -/
theorem InOrder.receive (h : InOrder p)
    (hcounts : p'.counts = p.counts.eventReceived p.counts.received.length)
    (hpending : (p.counts.received.length :: p.pending).Perm p'.pending) : InOrder p' := by
  rw [InOrder, hcounts]
  exact h.await.eventReceived.perm hpending .rfl

/-- `EnqueueMessage` queues the message or ignores it. -/
theorem enqueueMessage_cases (p : SubscriberPort) (message : ℕ) :
    p.enqueueMessage message = { p with messageQueue := p.messageQueue ++ [message] } ∨
      p.enqueueMessage message = { p with counts := p.counts.eventIgnored message } := by
  rw [enqueueMessage]
  split
  · exact .inl rfl
  · exact .inr rfl

theorem InOrder.processStep (h : InOrder p) {outcome : Outcome}
    (hok : outcome = .throwsOther → p.inCall = []) (hstep : p.processStep outcome = some p') :
    InOrder p' := by
  rw [SubscriberPort.processStep] at hstep
  split at hstep
  · rename_i point hthread
    cases point with
    | wait =>
      simp only [processInside] at hstep
      split at hstep
      · obtain rfl := Option.some.inj hstep
        refine h.move rfl (List.perm_iff_count.mpr fun a => ?_)
        simp only [pending, inTick, inCall, hthread, List.count_append, List.count_nil]
        omega
      · cases hstep
    | next running =>
      simp only [processInside] at hstep
      split at hstep
      · rename_i hqueue
        obtain rfl := Option.some.inj hstep
        refine h.move rfl (List.perm_iff_count.mpr fun a => ?_)
        cases running <;> simp [pending, inTick, inCall, hthread, hqueue]
      · rename_i message rest hqueue
        split at hstep
        · obtain rfl := Option.some.inj hstep
          refine h.move rfl (List.perm_iff_count.mpr fun a => ?_)
          simp only [pending, inTick, inCall, hthread, hqueue, List.count_append, List.count_cons,
            List.count_nil]
          omega
        · obtain rfl := Option.some.inj hstep
          refine h.ignore rfl (List.perm_iff_count.mpr fun a => ?_)
          simp only [pending, inTick, inCall, hthread, hqueue, List.count_append, List.count_cons,
            List.count_nil]
          omega
    | call running message =>
      simp only [processInside] at hstep
      split at hstep
      · have hnone := hok rfl
        rw [inCall, hthread] at hnone
        cases hnone
      · obtain rfl := Option.some.inj hstep
        refine h.process rfl (List.perm_iff_count.mpr fun a => ?_)
        simp only [pending, inTick, inCall, hthread, List.count_append, List.count_cons,
          List.count_nil]
        omega
    | processed running =>
      obtain rfl := Option.some.inj hstep
      refine h.move rfl (List.perm_iff_count.mpr fun a => ?_)
      simp only [pending, inTick, inCall, hthread]
  · rename_i hthread
    rw [Option.map_eq_some_iff] at hstep
    obtain ⟨l, hl, rfl⟩ := hstep
    -- a step outside of the loop has no message in hand, before or after it
    have hcall : ∀ q : SubscriberPort, q.process = p.process ∨ q.process = l → q.inCall = [] := by
      rintro q (hq | hq)
      · rw [inCall, hq]
        split
        · exact absurd ‹_› (hthread _)
        · rfl
      · rw [inCall, hq]
        rw [ManagedLoop.threadStep] at hl
        split at hl <;> try split at hl <;> try split at hl
        all_goals cases hl
        all_goals rfl
    refine h.move rfl (.of_eq ?_)
    rw [pending, pending, hcall p (.inl rfl), hcall _ (.inr rfl)]
    rfl

theorem InOrder.tickStep (h : InOrder p) (hstep : p.tickStep = some p') : InOrder p' := by
  rw [SubscriberPort.tickStep] at hstep
  split at hstep
  · rename_i point hthread
    obtain rfl := Option.some.inj hstep
    cases point with
    | wait =>
      rw [tickInside]
      split
      · refine h.move rfl (List.perm_iff_count.mpr fun a => ?_)
        simp only [pending, inTick, inCall, hthread]
      · refine h.receive rfl (List.perm_iff_count.mpr fun a => ?_)
        simp only [pending, inTick, inCall, hthread, SubscriberPort.receive, List.count_append,
          List.count_cons, List.count_nil]
        omega
    | enqueue message =>
      rw [tickInside]
      obtain hcase | hcase := p.enqueueMessage_cases message <;> rw [hcase]
      · refine h.move rfl (List.perm_iff_count.mpr fun a => ?_)
        simp only [pending, inTick, inCall, hthread, List.count_append, List.count_cons,
          List.count_nil]
        omega
      · refine h.ignore rfl (List.perm_iff_count.mpr fun a => ?_)
        simp only [pending, inTick, inCall, hthread, List.count_append, List.count_cons,
          List.count_nil]
        omega
  · rename_i hthread
    rw [Option.map_eq_some_iff] at hstep
    obtain ⟨l, hl, rfl⟩ := hstep
    have htick : ∀ q : SubscriberPort, q.tick = p.tick ∨ q.tick = l → q.inTick = [] := by
      rintro q (hq | hq)
      · rw [inTick, hq]
        split
        · exact absurd ‹_› (hthread _)
        · rfl
      · rw [inTick, hq]
        rw [ManagedLoop.threadStep] at hl
        split at hl <;> try split at hl <;> try split at hl
        all_goals cases hl
        all_goals rfl
    refine h.move rfl (.of_eq ?_)
    rw [pending, pending, htick p (.inl rfl), htick _ (.inr rfl)]
    rfl

theorem InOrder.enqueue (h : InOrder p) {message : ℕ} (hmem : message ∈ p.arriving) :
    InOrder { p.enqueueMessage message with arriving := p.arriving.erase message } := by
  have hperm := List.perm_cons_erase hmem
  obtain hcase | hcase := p.enqueueMessage_cases message <;> rw [hcase]
  · refine h.move rfl (List.perm_iff_count.mpr fun a => ?_)
    have hcount := hperm.count_eq a
    simp only [List.count_cons] at hcount
    simp only [pending, inTick, inCall, List.count_append, List.count_cons, List.count_nil]
    omega
  · refine h.ignore rfl (List.perm_iff_count.mpr fun a => ?_)
    have hcount := hperm.count_eq a
    simp only [List.count_cons] at hcount
    simp only [pending, inTick, inCall, List.count_append, List.count_cons]
    omega

/-- Without a thread manager there is no thread. -/
structure Managed (p : SubscriberPort) : Prop where
  process : Holds ProcessPoint.Stays .any p.process
  tick : Holds TickPoint.Stays .any p.tick

theorem Managed.processStep (h : Managed p) {outcome : Outcome}
    (hstep : p.processStep outcome = some p') : Managed p' := by
  rw [SubscriberPort.processStep] at hstep
  split at hstep
  · rename_i point hthread
    have hloops : p'.process.manager = p.process.manager ∧ p'.tick = p.tick := by
      cases point <;> simp only [processInside] at hstep
      case wait => split at hstep <;> cases hstep; exact ⟨rfl, rfl⟩
      case next => split at hstep <;> try split at hstep
                   all_goals cases hstep
                   all_goals exact ⟨rfl, rfl⟩
      case call => split at hstep <;> cases hstep <;> exact ⟨rfl, rfl⟩
      case processed => cases hstep; exact ⟨rfl, rfl⟩
    refine ⟨fun hnone => ?_, hloops.2 ▸ h.tick⟩
    rw [hloops.1] at hnone
    rw [h.process hnone] at hthread
    cases hthread
  · rw [Option.map_eq_some_iff] at hstep
    obtain ⟨l, hl, rfl⟩ := hstep
    have hentry : ProcessPoint.Stays .wait := trivial
    exact ⟨holds_threadStep hentry h.process hl, h.tick⟩

theorem Managed.tickStep (h : Managed p) (hstep : p.tickStep = some p') : Managed p' := by
  rw [SubscriberPort.tickStep] at hstep
  split at hstep
  · rename_i point hthread
    obtain rfl := Option.some.inj hstep
    have hloops : (p.tickInside point).tick.manager = p.tick.manager ∧
        (p.tickInside point).process = p.process := by
      cases point with
      | wait => rw [tickInside]; split <;> exact ⟨rfl, rfl⟩
      | enqueue message => simp [tickInside]
    refine ⟨hloops.2 ▸ h.process, fun hnone => ?_⟩
    rw [hloops.1] at hnone
    rw [h.tick hnone] at hthread
    cases hthread
  · rw [Option.map_eq_some_iff] at hstep
    obtain ⟨l, hl, rfl⟩ := hstep
    have hentry : TickPoint.Stays .wait := trivial
    exact ⟨h.process, holds_threadStep hentry h.tick hl⟩

/-- A handler moves no message. -/
theorem InOrder.handlerStep (h : InOrder p) (hmanaged : Managed p)
    (hstep : p.handlerStep = some p') : InOrder p' ∧ Managed p' := by
  rw [SubscriberPort.handlerStep] at hstep
  split at hstep
  · cases hstep
  · obtain rfl := Option.some.inj hstep
    exact ⟨h.move rfl .rfl, hmanaged.process, hmanaged.tick⟩
  · rename_i newState op ops hpending
    rw [Option.map_eq_some_iff] at hstep
    obtain ⟨r, hr, rfl⟩ := hstep
    cases r with
    | error e => exact ⟨h.move rfl .rfl, hmanaged.process, hmanaged.tick⟩
    | ok q =>
      obtain ⟨loop, op⟩ := op
      cases loop with
      | process =>
        simp only [runOp, Option.map_eq_some_iff] at hr
        obtain ⟨r, hr, hq⟩ := hr
        cases r with
        | error e => cases hq
        | ok l =>
          obtain rfl := Except.ok.inj hq
          obtain ⟨hany, hcases⟩ := LoopOp.run_cases hmanaged.process hr
          refine ⟨h.move rfl (.of_eq ?_), hany, hmanaged.tick⟩
          obtain ⟨-, rfl⟩ | ⟨-, -, hthread | ⟨hold | hold, hnew | hnew⟩⟩ := hcases
          · rfl
          · simp only [pending, inTick, inCall, hthread]
          all_goals simp only [pending, inTick, inCall, hold, hnew]
      | tick =>
        simp only [runOp, Option.map_eq_some_iff] at hr
        obtain ⟨r, hr, hq⟩ := hr
        cases r with
        | error e => cases hq
        | ok l =>
          obtain rfl := Except.ok.inj hq
          obtain ⟨hany, hcases⟩ := LoopOp.run_cases hmanaged.tick hr
          refine ⟨h.move rfl (.of_eq ?_), hmanaged.process, hany⟩
          obtain ⟨-, rfl⟩ | ⟨-, -, hthread | ⟨hold | hold, hnew | hnew⟩⟩ := hcases
          · rfl
          · simp only [pending, inTick, inCall, hthread]
          all_goals simp only [pending, inTick, inCall, hold, hnew]

theorem inductiveBy_inOrder (kind : PortKind) (callback : Bool) :
    (system kind callback).InductiveBy Catches (fun p => InOrder p ∧ Managed p) where
  init := by
    rintro p rfl
    exact ⟨.start, fun _ => rfl, fun _ => rfl⟩
  step := by
    rintro p a p' ⟨h, hmanaged⟩ hok hstep
    cases a with
    | request t =>
      obtain ⟨m, -, rfl⟩ := Option.map_eq_some_iff.mp hstep
      exact ⟨h.move rfl .rfl, hmanaged.process, hmanaged.tick⟩
    | handler => exact h.handlerStep hmanaged hstep
    | process outcome => exact ⟨h.processStep hok hstep, hmanaged.processStep hstep⟩
    | tick => exact ⟨h.tickStep hstep, hmanaged.tickStep hstep⟩
    | receive =>
      obtain rfl := Option.some.inj hstep
      refine ⟨h.receive rfl (List.perm_iff_count.mpr fun a => ?_), hmanaged.process, hmanaged.tick⟩
      simp only [pending, inTick, inCall, SubscriberPort.receive, List.count_append,
        List.count_cons]
      omega
    | enqueue message =>
      replace hstep : (if message ∈ p.arriving then _ else none) = some p' := hstep
      split at hstep
      · obtain rfl := Option.some.inj hstep
        refine ⟨h.enqueue ‹_›, ?_, ?_⟩
        · simpa using hmanaged.process
        · simpa using hmanaged.tick
      · cases hstep
    | setMaxQueueSize size =>
      obtain rfl := Option.some.inj hstep
      exact ⟨h.move rfl .rfl, hmanaged.process, hmanaged.tick⟩

/-- The counts of a subscriber port are in order in every run whose callbacks return or throw a
`std::exception`. -/
theorem inOrder_of_reachBy {kind : PortKind} {callback : Bool}
    (h : (system kind callback).ReachBy Catches p) : InOrder p :=
  ((inductiveBy_inOrder kind callback).reach h).1

end SubscriberPort

/-! ## Requester and replier ports -/

/-- `EventIgnored` in the handler of an exception. -/
def PortVariant.ignoresInCatch : PortVariant → Bool
  | .requesterVoidReply => true
  | _ => false

/-- `EventIgnored` at the end of `SendRequest`. -/
def PortVariant.ignoresAtEnd : PortVariant → Bool
  | .requesterVoidRequest => false
  | _ => true

/-- The specialisations of `RequesterPort`. -/
def PortVariant.IsRequester : PortVariant → Prop
  | .requester | .requesterVoidReply | .requesterVoidRequest => True
  | .replier | .replierVoidReply | .replierVoidRequest => False

instance (v : PortVariant) : Decidable v.IsRequester := by
  cases v <;> first | exact .isTrue trivial | exact .isFalse id

namespace RequestReplyPort

/-- What is promised of the counts. -/
structure Accounted (p : RequestReplyPort) : Prop where
  balanced : p.calls = [] → p.counts.Balanced 0
  distinct : p.counts.Distinct

/-- The calls that count their event as they should: no call ends by something else than a
`std::exception`; a requester port refuses a call only if it would not count it as ignored, and
its requests fail only if it counts that once. -/
def Counted (p : RequestReplyPort) : Action → Prop
  | .step call outcome =>
    (call.point = .processing → outcome ≠ .throwsOther) ∧
    (p.variant.IsRequester →
      (call.point = .start → p.machine.processEvent = true ∨ p.variant.ignoresAtEnd = false) ∧
      (call.point = .processing → outcome = .throws →
        p.variant.ignoresInCatch ≠ p.variant.ignoresAtEnd))
  | _ => True

/-- The event of a call at this point was received. -/
def received (v : PortVariant) : CallPoint → Bool
  | .start => false
  | .admitted => !decide v.IsRequester
  | .processing | .caught => true
  | .atEnd => !decide v.IsRequester || v.ignoresAtEnd

/-- The events that are received and not counted further. -/
def pending (v : PortVariant) (calls : List PortCall) : List ℕ :=
  (calls.filter fun c => received v c.point).map PortCall.event

/-- The events that are still to be received. -/
def waiting (v : PortVariant) (calls : List PortCall) : List ℕ :=
  (calls.filter fun c => !received v c.point).map PortCall.event

section CallStep

variable {v : PortVariant} {rest : List PortCall} {event next : ℕ} {c : EventCounts}
  {processEvent callback : Bool} {outcome : Outcome}

theorem callStep_requester (h : v.IsRequester) (processEvent callback : Bool) (outcome : Outcome) :
    v.callStep processEvent callback outcome =
      sendRequest v.ignoresInCatch v.ignoresAtEnd processEvent outcome := by
  cases v <;> first | rfl | cases h

theorem callStep_replier (h : ¬ v.IsRequester) (processEvent callback : Bool) (outcome : Outcome) :
    v.callStep processEvent callback outcome = processRequest processEvent callback outcome := by
  cases v <;> first | rfl | exact absurd trivial h

theorem pending_cons (v : PortVariant) (call : PortCall) (rest : List PortCall) :
    pending v (call :: rest) =
      if received v call.point then call.event :: pending v rest else pending v rest := by
  rw [pending, List.filter_cons]
  split <;> rfl

theorem waiting_cons (v : PortVariant) (call : PortCall) (rest : List PortCall) :
    waiting v (call :: rest) =
      if received v call.point then waiting v rest else call.event :: waiting v rest := by
  rw [waiting, List.filter_cons]
  cases received v call.point <;> rfl

/-- The books with a call at this point. -/
def LedgerAt (v : PortVariant) (c : EventCounts) (rest : List PortCall) (next event : ℕ)
    (point : CallPoint) : Prop :=
  Ledger c (if received v point then event :: pending v rest else pending v rest)
    (if received v point then waiting v rest else event :: waiting v rest) next

/-- The books after a step: with the call at its next point, or without it. -/
def LedgerAfter (v : PortVariant) (c : EventCounts) (rest : List PortCall) (next event : ℕ)
    (step : Option CountOp × Option CallPoint) : Prop :=
  match step.2 with
  | some point => LedgerAt v (c.count event step.1) rest next event point
  | none => Ledger (c.count event step.1) (pending v rest) (waiting v rest) next

/-- A step of a request that counts its event as it should. -/
theorem ledgerAfter_sendRequest (hv : v.IsRequester) {point : CallPoint}
    (h : LedgerAt v c rest next event point)
    (hother : point = .processing → outcome ≠ .throwsOther)
    (hrefused : point = .start → processEvent = true ∨ v.ignoresAtEnd = false)
    (hcaught : point = .caught → v.ignoresInCatch = false ∧ v.ignoresAtEnd = true) :
    LedgerAfter v c rest next event
      (sendRequest v.ignoresInCatch v.ignoresAtEnd processEvent outcome point) := by
  cases point with
  | start =>
    cases processEvent with
    | true => simpa [sendRequest, LedgerAfter, LedgerAt, EventCounts.count, received, hv] using h
    | false =>
      have hend : v.ignoresAtEnd = false := (hrefused rfl).resolve_left (by decide)
      simpa [sendRequest, LedgerAfter, LedgerAt, EventCounts.count, received, hv, hend] using h
  | admitted =>
    simp only [LedgerAt, received, hv, decide_true, Bool.not_true] at h
    exact h.eventReceived
  | processing =>
    cases outcome with
    | returns => exact h.eventProcessed
    | throws => exact h
    | throwsOther => exact absurd rfl (hother rfl)
  | caught =>
    obtain ⟨hcatch, hend⟩ := hcaught rfl
    simpa [sendRequest, LedgerAfter, LedgerAt, EventCounts.count, received, hcatch, hend] using h
  | atEnd =>
    cases hend : v.ignoresAtEnd with
    | true =>
      simp only [LedgerAt, received, hend, Bool.or_true] at h
      exact h.eventIgnored
    | false =>
      simp only [LedgerAt, received, hv, hend, decide_true, Bool.not_true, Bool.or_false] at h
      exact h.dismiss

/-- A step of a call of a replier port. -/
theorem ledgerAfter_processRequest (hv : ¬ v.IsRequester) {point : CallPoint}
    (h : LedgerAt v c rest next event point)
    (hother : point = .processing → outcome ≠ .throwsOther) :
    LedgerAfter v c rest next event (processRequest processEvent callback outcome point) := by
  have hadmitted : received v .admitted = true := by simp [received, hv]
  have hatEnd : received v .atEnd = true := by simp [received, hv]
  cases point with
  | start =>
    simp only [processRequest, LedgerAfter, LedgerAt, hadmitted]
    exact Ledger.eventReceived h
  | admitted =>
    rw [LedgerAt, hadmitted] at h
    cases hrun : processEvent && callback with
    | true => simpa [processRequest, hrun, LedgerAfter, LedgerAt, EventCounts.count, received] using h
    | false => simpa [processRequest, hrun, LedgerAfter, LedgerAt, EventCounts.count, hatEnd] using h
  | processing =>
    cases outcome with
    | returns => exact Ledger.eventProcessed h
    | throws => exact h
    | throwsOther => exact absurd rfl (hother rfl)
  | caught => exact Ledger.eventProcessed h
  | atEnd =>
    rw [LedgerAt, hatEnd] at h
    exact h.eventIgnored

end CallStep

variable {p p' : RequestReplyPort}

/-- The counts of the port are in order, and a request fails only where that is counted once. -/
structure InOrder (p : RequestReplyPort) : Prop where
  ledger : Ledger p.counts (pending p.variant p.calls) (waiting p.variant p.calls) p.nextEvent
  caught : ∀ call ∈ p.calls, call.point = .caught → p.variant.IsRequester →
    p.variant.ignoresInCatch = false ∧ p.variant.ignoresAtEnd = true

theorem InOrder.accounted (h : InOrder p) : Accounted p where
  balanced hcalls := by
    have hbalanced := h.ledger.balanced
    rwa [hcalls] at hbalanced
  distinct := h.ledger.distinct

/-- The books of a list of calls, seen from one of them. -/
theorem ledgerAt_of_mem {v : PortVariant} {c : EventCounts} {calls : List PortCall} {next : ℕ}
    {call : PortCall} (h : Ledger c (pending v calls) (waiting v calls) next)
    (hmem : call ∈ calls) : LedgerAt v c (calls.erase call) next call.event call.point := by
  have hperm := List.perm_cons_erase hmem
  have h := h.perm ((hperm.filter _).map _) ((hperm.filter _).map _)
  rw [← pending, ← waiting, pending_cons, waiting_cons] at h
  exact h

/-- The books after the step of a call, seen as those of a list of calls. -/
theorem ledger_of_ledgerAfter {v : PortVariant} {c : EventCounts} {rest : List PortCall}
    {next event : ℕ} {step : Option CountOp × Option CallPoint}
    (h : LedgerAfter v c rest next event step) :
    Ledger (c.count event step.1)
      (pending v ((step.2.map (PortCall.mk event)).toList ++ rest))
      (waiting v ((step.2.map (PortCall.mk event)).toList ++ rest)) next := by
  obtain ⟨op, _ | point⟩ := step
  · exact h
  · show Ledger _ (pending v (⟨event, point⟩ :: rest)) (waiting v (⟨event, point⟩ :: rest)) _
    rw [pending_cons, waiting_cons]
    exact h

/-- Only a failure takes a call to the handler of exceptions. -/
theorem point_of_caught {v : PortVariant} {processEvent callback : Bool} {outcome : Outcome}
    {point : CallPoint}
    (h : (v.callStep processEvent callback outcome point).2 = some .caught) :
    point = .processing ∧ outcome = .throws := by
  cases v <;> cases point <;> cases outcome <;> cases processEvent <;> cases callback <;>
    first | exact ⟨rfl, rfl⟩ | cases h

/-- Where the count in the handler differs from that at the end, the request that fails is counted
once or not at all, and the second is ruled out by the end of the function. -/
theorem counted_once {v : PortVariant} (hne : v.ignoresInCatch ≠ v.ignoresAtEnd) :
    v.ignoresInCatch = false ∧ v.ignoresAtEnd = true := by
  cases v <;> first | exact ⟨rfl, rfl⟩ | exact absurd rfl hne

theorem InOrder.callStep (h : InOrder p) {call : PortCall} {outcome : Outcome}
    (hok : Counted p (.step call outcome)) (hstep : p.step (.step call outcome) = some p') :
    InOrder p' := by
  replace hstep : (if call ∈ p.calls then _ else none) = some p' := hstep
  split at hstep
  · rename_i hmem
    obtain rfl := Option.some.inj hstep
    obtain ⟨hother, hrequester⟩ := hok
    have hat := ledgerAt_of_mem h.ledger hmem
    have hafter : LedgerAfter p.variant p.counts (p.calls.erase call) p.nextEvent call.event
        (p.variant.callStep p.machine.processEvent p.callback outcome call.point) := by
      by_cases hv : p.variant.IsRequester
      · rw [callStep_requester hv]
        exact ledgerAfter_sendRequest hv hat hother (hrequester hv).1
          fun hcaught => h.caught call hmem hcaught hv
      · rw [callStep_replier hv]
        exact ledgerAfter_processRequest hv hat hother
    refine ⟨ledger_of_ledgerAfter hafter, ?_⟩
    intro call' hmem' hcaught hv
    obtain hmem' | hmem' := List.mem_append.mp hmem'
    · rw [Option.mem_toList, Option.map_eq_some_iff] at hmem'
      obtain ⟨point, hpoint, rfl⟩ := hmem'
      obtain rfl : point = .caught := hcaught
      obtain ⟨hprocessing, hthrows⟩ := point_of_caught hpoint
      exact counted_once ((hrequester hv).2 hprocessing hthrows)
    · exact h.caught call' (List.mem_of_mem_erase hmem') hcaught hv
  · cases hstep

theorem inductiveBy_inOrder (variant : PortVariant) (callback : Bool) :
    (system variant callback).InductiveBy Counted InOrder where
  init := by
    rintro p rfl
    exact ⟨.start, fun _ hmem => by cases hmem⟩
  step := by
    rintro p a p' h hok hstep
    cases a with
    | request t =>
      obtain ⟨m, -, rfl⟩ := Option.map_eq_some_iff.mp hstep
      exact ⟨h.ledger, h.caught⟩
    | handler =>
      obtain ⟨q, -, rfl⟩ := Option.map_eq_some_iff.mp hstep
      exact ⟨h.ledger, h.caught⟩
    | call =>
      obtain rfl := Option.some.inj hstep
      refine ⟨?_, ?_⟩
      · have hawait := h.ledger.await
        rw [pending_cons, waiting_cons]
        exact hawait
      · intro call hmem hcaught
        obtain rfl | hmem := List.mem_cons.mp hmem
        · cases hcaught
        · exact h.caught call hmem hcaught
    | step call outcome => exact h.callStep hok hstep

/-- The counts of a requester or replier port are in order in every run whose calls count their
events as they should. -/
theorem inOrder_of_reachBy {variant : PortVariant} {callback : Bool}
    (h : (system variant callback).ReachBy Counted p) : InOrder p :=
  (inductiveBy_inOrder variant callback).reach h

end RequestReplyPort

/-! ## All ports -/

/-- A port of any kind. -/
inductive Port
  | subscriber (p : SubscriberPort)
  | requestReply (p : RequestReplyPort)

namespace Port

/-- The port's own condition. -/
def Accounted : Port → Prop
  | .subscriber p => p.Accounted
  | .requestReply p => p.Accounted

/-- The ports in the runs whose calls count their events as they should. -/
def ReachByCounted : Port → Prop
  | .subscriber p =>
    ∃ kind callback, (SubscriberPort.system kind callback).ReachBy SubscriberPort.Catches p
  | .requestReply p =>
    ∃ variant callback,
      (RequestReplyPort.system variant callback).ReachBy RequestReplyPort.Counted p

/-- The counts of every port account for its events, in every run whose calls count their events
as they should. -/
theorem accounted_of_reachBy {port : Port} (h : port.ReachByCounted) : port.Accounted := by
  cases port with
  | subscriber p =>
    obtain ⟨kind, callback, h⟩ := h
    exact (SubscriberPort.inOrder_of_reachBy h).accounted
  | requestReply p =>
    obtain ⟨variant, callback, h⟩ := h
    exact (RequestReplyPort.inOrder_of_reachBy h).accounted

end Port

namespace RequestReplyPort

instance (p : RequestReplyPort) : ∀ a : Action, Decidable (Counted p a)
  | .step _ _ => inferInstanceAs (Decidable (_ ∧ _))
  | .request _ | .handler | .call => .isTrue trivial

/-- `Configure` and `Activate`. -/
def runningRun : List Action :=
  [.request .configure, .handler, .handler, .request .activate, .handler, .handler]

/-- The next call, through these points. -/
def callRun (event : ℕ) (points : List (CallPoint × Outcome)) : List Action :=
  .call :: points.map fun point => .step ⟨event, point.1⟩ point.2

/-- A request that fails. -/
def failingRun : List Action :=
  runningRun ++ callRun 0 [(.start, .returns), (.admitted, .returns), (.processing, .throws),
    (.caught, .returns), (.atEnd, .returns)]

end RequestReplyPort

namespace SubscriberPort

instance (p : SubscriberPort) : ∀ a : Action, Decidable (Catches p a)
  | .process _ => inferInstanceAs (Decidable (_ → _))
  | .request _ | .handler | .tick | .receive | .enqueue _ | .setMaxQueueSize _ => .isTrue trivial

/-- A message to a port that is not configured. -/
def ignoredRun : List Action := [.receive, .enqueue 0]

end SubscriberPort

open SubscriberPort RequestReplyPort in
/-- A subscriber port that is not configured, and a requester port with a request that fails. -/
theorem Port.accounted_of_reachBy_failing :
    (∃ p, Lts.runBy SubscriberPort.step Catches (.start .subscriber true) ignoredRun = some p ∧
      p.Accounted) ∧
    ∃ p, Lts.runBy RequestReplyPort.step Counted (.start .requester true) failingRun = some p ∧
      p.Accounted := by
  obtain ⟨p, hp⟩ : ∃ p, Lts.runBy SubscriberPort.step Catches (.start .subscriber true)
      ignoredRun = some p := ⟨_, rfl⟩
  obtain ⟨q, hq⟩ : ∃ q, Lts.runBy RequestReplyPort.step Counted (.start .requester true)
      failingRun = some q := ⟨_, rfl⟩
  have hsubscriber : Port.ReachByCounted (.subscriber p) := ⟨_, _, Lts.reachBy_of_runBy hp⟩
  have hrequester : Port.ReachByCounted (.requestReply q) := ⟨_, _, Lts.reachBy_of_runBy hq⟩
  exact ⟨⟨p, hp, accounted_of_reachBy hsubscriber⟩, q, hq, accounted_of_reachBy hrequester⟩

open RequestReplyPort in
/-- A requester port that is not running ignores a request that it did not receive, and a request
without a reply that fails is ignored twice. -/
theorem not_accounted :
    (∃ p, Lts.run step (start .requester true)
      (callRun 0 [(.start, .returns), (.atEnd, .returns)]) = some p ∧ ¬ p.Accounted) ∧
    ∃ p, Lts.run step (start .requesterVoidReply true) failingRun = some p ∧ ¬ p.Accounted :=
  ⟨⟨_, rfl, fun h => absurd (h.balanced rfl) (by decide)⟩,
    _, rfl, fun h => absurd h.distinct (by decide)⟩

end Sem.Ports

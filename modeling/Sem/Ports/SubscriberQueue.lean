import Sem.Ports.EventAccounting
import Sem.Ports.PortLifecycle

/-!
# The queue of a subscriber port

`EnqueueMessage` counts the messages in the queue and those that `ProcessLoop` has swapped out.
The loop swaps, gives each message to the callback, and counts it down afterwards; a message that
it takes out when the port is not running any more is ignored.

* `QueueRun.queued_of_reachBy`: the limit, the count and the order, and that a running port hands
  its messages over, in every run with a limit that does not change.
* `QueueRun.not_queued`: a message of a passivated port, and a callback that ends the thread.
-/

namespace Sem.Ports

namespace SubscriberPort

/-- What `ProcessLoop` is at. -/
inductive Hand
  | idle | between
  | call (message : ℕ)
  | after
  deriving DecidableEq, Repr

/-- What the thread that processes the queue has in its hand. -/
def hand (p : SubscriberPort) : Hand :=
  match p.process.thread with
  | .inside (.next _) => .between
  | .inside (.call _ message) => .call message
  | .inside (.processed _) => .after
  | _ => .idle

/-- The messages in process: swapped out, and not counted down. -/
def inProcess (p : SubscriberPort) : ℕ :=
  p.queue.length +
    match p.hand with
    | .call _ | .after => 1
    | .idle | .between => 0

theorem inCall_eq (p : SubscriberPort) :
    p.inCall = match p.hand with
      | .call message => [message]
      | _ => [] := by
  unfold inCall hand
  cases p.process.thread with
  | inside point => cases point <;> rfl
  | _ => rfl

/-- The condition of `EnqueueMessage`. -/
def admits (p : SubscriberPort) : Bool :=
  p.machine.processEvent &&
    (p.maxQueueSize = -1 || p.maxQueueSize > p.messageQueue.length + p.processingCount)

theorem enqueueMessage_eq (p : SubscriberPort) (message : ℕ) :
    p.enqueueMessage message =
      if p.admits then { p with messageQueue := p.messageQueue ++ [message] }
      else { p with counts := p.counts.eventIgnored message } := rfl

/-- The message that gets the mutex in `EnqueueMessage`. -/
def offered (p : SubscriberPort) : Action → List ℕ
  | .enqueue message => [message]
  | .tick => p.inTick
  | _ => []

/-- The message that `rx` gets, and whether it goes to the callback. -/
def takes (p : SubscriberPort) : Action → List (ℕ × Bool)
  | .process _ =>
    match p.hand, p.queue with
    | .between, message :: _ => [(message, p.machine.processEvent && p.callback)]
    | _, _ => []
  | _ => []

/-- The limit stays, and callbacks return or throw a `std::exception`. -/
def Steady (p : SubscriberPort) (a : Action) : Prop :=
  Catches p a ∧ ∀ size, a ≠ .setMaxQueueSize size

instance (p : SubscriberPort) : ∀ a : Action, Decidable (Steady p a)
  | .setMaxQueueSize size => .isFalse fun h => h.2 size rfl
  | .process outcome =>
    decidable_of_iff (Catches p (.process outcome)) ⟨fun h => ⟨h, fun _ => nofun⟩, And.left⟩
  | .request _ | .handler | .tick | .receive | .enqueue _ => .isTrue ⟨trivial, fun _ => nofun⟩

/-- The port is running, with a callback, and `ProcessLoop` is in its loop and is to stay there. -/
structure Serves (p : SubscriberPort) : Prop where
  running : p.machine.processEvent = true
  settled : p.machine.pending = none
  callback : p.callback = true
  looping : ∃ point, p.process.thread = .inside point ∧ point.Stays
  stop : p.process.stop = false

/-- A step of the thread of `ProcessLoop`. -/
def Action.isProcess : Action → Bool
  | .process _ => true
  | _ => false

end SubscriberPort

open SubscriberPort

/-- A port with the history of its queue. -/
structure QueueRun where
  port : SubscriberPort
  /-- The messages that `EnqueueMessage` queued, in order. -/
  accepted : List ℕ
  /-- Those that it ignored. -/
  refused : List ℕ
  /-- The messages that `rx` got from the loop, and whether they went to the callback. -/
  taken : List (ℕ × Bool)

namespace QueueRun

/-- A port with a limit. -/
def start (kind : PortKind) (callback : Bool) (maxQueueSize : Int) : QueueRun where
  port := { SubscriberPort.start kind callback with maxQueueSize := maxQueueSize }
  accepted := []
  refused := []
  taken := []

/-- The history after an action. -/
def note (r : QueueRun) (a : Action) (port : SubscriberPort) : QueueRun where
  port := port
  accepted := r.accepted ++ if r.port.admits then r.port.offered a else []
  refused := r.refused ++ if r.port.admits then [] else r.port.offered a
  taken := r.taken ++ r.port.takes a

/-- One step of the port, noted down. -/
def step (r : QueueRun) (a : Action) : Option QueueRun := (r.port.step a).map (r.note a)

/-- The runs of a port. -/
def system (kind : PortKind) (callback : Bool) (maxQueueSize : Int) : Lts QueueRun Action :=
  .ofFun (start kind callback maxQueueSize) step

/-- The messages that went to the callback. -/
def handed (r : QueueRun) : List ℕ := (r.taken.filter (·.2)).map Prod.fst

/-- The messages that the loop took out of a port that is not running. -/
def drained (r : QueueRun) : List ℕ := (r.taken.filter (!·.2)).map Prod.fst

/-- The books of the queue. -/
structure Kept (maxQueueSize : Int) (r : QueueRun) : Prop where
  limit : r.port.maxQueueSize = maxQueueSize
  idle : r.port.hand = .idle → r.port.queue = []
  count : r.port.processingCount = r.port.inProcess
  bound : (r.port.messageQueue.length + r.port.inProcess : Int) ≤ maxQueueSize
  order : r.accepted = r.taken.map Prod.fst ++ r.port.queue ++ r.port.messageQueue
  handed : r.handed = r.port.counts.processed.reverse ++ r.port.inCall
  ignored : r.port.counts.ignored.Perm (r.refused ++ r.drained)

/-- What is promised of the queue. -/
structure Queued (maxQueueSize : Int) (r : QueueRun) : Prop where
  bound : (r.port.messageQueue.length + r.port.inProcess : Int) ≤ maxQueueSize
  count : r.port.processingCount = r.port.inProcess
  /-- A message is refused when the port is not running or the limit is reached. -/
  refuses : ∀ message,
    r.port.enqueueMessage message =
        { r.port with counts := r.port.counts.eventIgnored message } ↔
      r.port.machine.processEvent = false ∨
        maxQueueSize ≤ (r.port.messageQueue.length + r.port.inProcess : Int)
  /-- The accepted messages in order: those that `rx` got, those swapped out, those queued. -/
  order : r.accepted = r.taken.map Prod.fst ++ r.port.queue ++ r.port.messageQueue
  /-- The callback got its messages in this order; it has the last of them. -/
  handed : r.handed = r.port.counts.processed.reverse ++ r.port.inCall
  ignored : r.port.counts.ignored.Perm (r.refused ++ r.drained)
  once : (r.accepted ++ r.refused).Nodup
  /-- Until a passivation or a termination, the steps of the loop hand everything that waits in a
  port in service to the callback, whatever else happens in between. -/
  delivers : r.port.Serves → ∀ actions r', Lts.runBy step (fun r a => Steady r.port a) r actions =
      some r' → .request .passivate ∉ actions → .request .terminate ∉ actions →
    5 * (r.port.queue ++ r.port.messageQueue).length ≤ actions.countP Action.isProcess →
    r.handed ++ r.port.queue ++ r.port.messageQueue <+: r'.handed
  /-- And then the loop is not asleep. -/
  awake : r.port.Serves → r.port.queue ++ r.port.messageQueue ≠ [] → ∀ outcome,
    (r.step (.process outcome)).isSome

section Steps

variable {maxQueueSize : Int} {r r' : QueueRun} {p : SubscriberPort}

/-- A step that the queue has no part in. -/
theorem Kept.frame (h : r.Kept maxQueueSize) (hmax : p.maxQueueSize = r.port.maxQueueSize)
    (hmessages : p.messageQueue = r.port.messageQueue) (hqueue : p.queue = r.port.queue)
    (hcount : p.processingCount = r.port.processingCount)
    (hprocessed : p.counts.processed = r.port.counts.processed)
    (hignored : p.counts.ignored = r.port.counts.ignored) (hhand : p.hand = r.port.hand) :
    ({ r with port := p } : QueueRun).Kept maxQueueSize := by
  have hin : p.inProcess = r.port.inProcess := by rw [inProcess, inProcess, hqueue, hhand]
  have hcall : p.inCall = r.port.inCall := by rw [inCall_eq, inCall_eq, hhand]
  exact
    { limit := hmax.trans h.limit
      idle := fun hidle => hqueue.trans (h.idle (hhand.symm.trans hidle))
      count := by
        show p.processingCount = p.inProcess
        rw [hcount, hin, h.count]
      bound := by
        show (p.messageQueue.length + p.inProcess : Int) ≤ _
        rw [hmessages, hin]
        exact h.bound
      order := by
        show r.accepted = _ ++ p.queue ++ p.messageQueue
        rw [hqueue, hmessages]
        exact h.order
      handed := by
        show r.handed = p.counts.processed.reverse ++ p.inCall
        rw [hprocessed, hcall]
        exact h.handed
      ignored := by
        show p.counts.ignored.Perm _
        rw [hignored]
        exact h.ignored }

theorem note_eq {a : Action} (hoffered : r.port.offered a = []) (htakes : r.port.takes a = [])
    (p : SubscriberPort) : r.note a p = { r with port := p } := by
  simp [note, hoffered, htakes]

theorem handed_concat {message : ℕ} {b : Bool} (h : r'.taken = r.taken ++ [(message, b)]) :
    r'.handed = r.handed ++ if b then [message] else [] := by
  rw [handed, h, List.filter_append, List.map_append]
  cases b <;> rfl

theorem drained_concat {message : ℕ} {b : Bool} (h : r'.taken = r.taken ++ [(message, b)]) :
    r'.drained = r.drained ++ if b then [] else [message] := by
  rw [drained, h, List.filter_append, List.map_append]
  cases b <;> rfl

/-- The count is the length of the queue and what is in process. -/
theorem Kept.admits_iff (h : r.Kept maxQueueSize) (hlimit : 1 ≤ maxQueueSize) :
    r.port.admits = true ↔ r.port.machine.processEvent = true ∧
      (r.port.messageQueue.length + r.port.inProcess : Int) < maxQueueSize := by
  have hne : maxQueueSize ≠ -1 := by omega
  simp [admits, h.limit, h.count, hne]

/-- `EnqueueMessage` with the mutex. -/
theorem Kept.offer (h : r.Kept maxQueueSize) (hlimit : 1 ≤ maxQueueSize) {message : ℕ}
    (hmax : p.maxQueueSize = r.port.maxQueueSize) (hqueue : p.queue = r.port.queue)
    (hcount : p.processingCount = r.port.processingCount) (hhand : p.hand = r.port.hand)
    (hmessages : p.messageQueue = (r.port.enqueueMessage message).messageQueue)
    (hcounts : p.counts = (r.port.enqueueMessage message).counts) :
    ({ port := p
       accepted := r.accepted ++ if r.port.admits then [message] else []
       refused := r.refused ++ if r.port.admits then [] else [message]
       taken := r.taken } : QueueRun).Kept maxQueueSize := by
  have hin : p.inProcess = r.port.inProcess := by rw [inProcess, inProcess, hqueue, hhand]
  have hcall : p.inCall = r.port.inCall := by rw [inCall_eq, inCall_eq, hhand]
  rw [enqueueMessage_eq] at hmessages hcounts
  cases hadmits : r.port.admits with
  | true =>
    have hroom := ((h.admits_iff hlimit).mp hadmits).2
    simp only [hadmits, if_true] at hmessages hcounts ⊢
    refine ⟨hmax.trans h.limit, fun hidle => hqueue.trans (h.idle (hhand.symm.trans hidle)), ?_,
      ?_, ?_, ?_, ?_⟩
    · rw [hcount, hin, h.count]
    · rw [hmessages, hin, List.length_append]
      push_cast
      simp only [List.length_cons, List.length_nil]
      omega
    · rw [hqueue, hmessages, h.order, List.append_assoc _ r.port.messageQueue]
    · rw [hcounts, hcall]
      exact h.handed
    · rw [hcounts, List.append_nil]
      exact h.ignored
  | false =>
    simp only [hadmits, Bool.false_eq_true, if_false, List.append_nil] at hmessages hcounts ⊢
    refine ⟨hmax.trans h.limit, fun hidle => hqueue.trans (h.idle (hhand.symm.trans hidle)), ?_,
      ?_, ?_, ?_, ?_⟩
    · rw [hcount, hin, h.count]
    · rw [hmessages, hin]
      exact h.bound
    · rw [hqueue, hmessages]
      exact h.order
    · rw [hcounts, hcall]
      exact h.handed
    · rw [hcounts]
      show (message :: r.port.counts.ignored).Perm (r.refused ++ [message] ++ r.drained)
      rw [List.append_assoc, List.singleton_append]
      exact (h.ignored.cons message).trans List.perm_middle.symm

/-- `ProcessLoop` inside its loop. -/
theorem Kept.processInside (h : r.Kept maxQueueSize) {point : ProcessPoint} {outcome : Outcome}
    (hthread : r.port.process.thread = .inside point)
    (hok : Catches r.port (.process outcome))
    (hstep : r.port.processInside outcome point = some p) :
    (r.note (.process outcome) p).Kept maxQueueSize := by
  have hcall := r.port.inCall_eq
  have hcount := h.count
  have hbound := h.bound
  have horder := h.order
  have hhanded := h.handed
  cases point with
  | wait =>
    have hhand : r.port.hand = .idle := by rw [hand, hthread]
    have hqueue := h.idle hhand
    rw [note_eq rfl (by simp [takes, hhand])]
    simp only [SubscriberPort.processInside] at hstep
    split at hstep
    · obtain rfl := Option.some.inj hstep
      rw [hhand] at hcall
      simp only [inProcess, hhand, hqueue, List.length_nil] at hcount hbound
      refine ⟨h.limit, (fun hidle => by cases hidle), ?_, ?_, ?_, ?_, h.ignored⟩
      · show r.port.processingCount + r.port.messageQueue.length =
          ((r.port.messageQueue.length + 0 : ℕ) : Int)
        omega
      · show ((r.port.queue.length : Int) + (r.port.messageQueue.length + 0 : ℕ)) ≤ _
        rw [hqueue, List.length_nil]
        omega
      · show r.accepted = r.taken.map Prod.fst ++ r.port.messageQueue ++ r.port.queue
        rw [horder, hqueue, List.append_nil, List.append_nil]
      · rw [hcall] at hhanded
        exact hhanded
    · cases hstep
  | next running =>
    have hhand : r.port.hand = .between := by rw [hand, hthread]
    rw [hhand] at hcall
    simp only [inProcess, hhand] at hcount hbound
    simp only [SubscriberPort.processInside] at hstep
    split at hstep
    · next hqueue =>
      rw [note_eq rfl (by simp [takes, hhand, hqueue])]
      obtain rfl := Option.some.inj hstep
      have hidle : ({ r.port with process := { r.port.process with
          thread := if running then .inside .wait else .exiting } } : SubscriberPort).hand =
            .idle := by
        cases running <;> rfl
      refine ⟨h.limit, fun _ => hqueue, ?_, ?_, horder, ?_, h.ignored⟩
      · simp only [inProcess, hidle]
        exact hcount
      · simp only [inProcess, hidle]
        exact hbound
      · rw [inCall_eq, hidle, ← hcall]
        exact hhanded
    · next message rest hqueue =>
      have htakes : r.port.takes (.process outcome) =
          [(message, r.port.machine.processEvent && r.port.callback)] := by
        simp [takes, hhand, hqueue]
      simp only [note, offered, htakes, ite_self, List.append_nil]
      rw [hqueue, List.length_cons] at hcount hbound
      rw [hqueue] at horder
      split at hstep
      · next hrun =>
        obtain rfl := Option.some.inj hstep
        refine ⟨h.limit, (fun hidle => by cases hidle), hcount, hbound, ?_, ?_, ?_⟩
        · rw [horder]
          simp
        · rw [hcall, List.append_nil] at hhanded
          rw [handed_concat (r := r) rfl, hrun, hhanded]
          rfl
        · rw [drained_concat (r := r) rfl, hrun]
          simpa using h.ignored
      · next hrun =>
        obtain rfl := Option.some.inj hstep
        refine ⟨h.limit, (fun hidle => by cases hidle), hcount, hbound, ?_, ?_, ?_⟩
        · rw [horder]
          simp
        · rw [hcall] at hhanded
          rw [handed_concat (r := r) rfl, eq_false_of_ne_true hrun, hhanded]
          exact List.append_nil _
        · rw [drained_concat (r := r) rfl, eq_false_of_ne_true hrun]
          show (message :: r.port.counts.ignored).Perm (r.refused ++ (r.drained ++ [message]))
          rw [← List.append_assoc]
          exact (h.ignored.cons message).trans (List.perm_append_singleton message _).symm
  | call running message =>
    have hhand : r.port.hand = .call message := by rw [hand, hthread]
    rw [note_eq rfl (by simp [takes, hhand])]
    rw [hhand] at hcall
    simp only [inProcess, hhand] at hcount hbound
    simp only [SubscriberPort.processInside] at hstep
    split at hstep
    · have hnone := hok rfl
      rw [hcall] at hnone
      cases hnone
    · obtain rfl := Option.some.inj hstep
      refine ⟨h.limit, (fun hidle => by cases hidle), hcount, hbound, horder, ?_, h.ignored⟩
      show r.handed = (message :: r.port.counts.processed).reverse ++ []
      rw [hhanded, hcall, List.reverse_cons, List.append_nil]
  | processed running =>
    have hhand : r.port.hand = .after := by rw [hand, hthread]
    rw [note_eq rfl (by simp [takes, hhand])]
    rw [hhand] at hcall
    simp only [inProcess, hhand] at hcount hbound
    obtain rfl := Option.some.inj hstep
    refine ⟨h.limit, (fun hidle => by cases hidle), ?_, ?_, horder, ?_, h.ignored⟩
    · show r.port.processingCount - 1 = ((r.port.queue.length + 0 : ℕ) : Int)
      omega
    · show (r.port.messageQueue.length + (r.port.queue.length + 0 : ℕ) : Int) ≤ _
      omega
    · rw [hcall] at hhanded
      exact hhanded

/-- The thread outside of the loop has no message. -/
theorem hand_of_threadStep {l : ManagedLoop ProcessPoint}
    (hl : r.port.process.threadStep .wait = some l) :
    r.port.hand = .idle ∧ ({ r.port with process := l } : SubscriberPort).hand = .idle := by
  unfold hand
  rw [ManagedLoop.threadStep] at hl
  cases hmanager : r.port.process.manager with
  | none =>
    rw [hmanager] at hl
    cases hl
  | some m =>
    rw [hmanager] at hl
    cases hthread : r.port.process.thread with
    | waitActivate =>
      rw [hthread] at hl
      simp only at hl
      split at hl
      · obtain rfl := Option.some.inj hl
        exact ⟨rfl, rfl⟩
      · split at hl
        · obtain rfl := Option.some.inj hl
          exact ⟨rfl, rfl⟩
        · cases hl
    | starting | activating | exiting =>
      rw [hthread] at hl
      obtain rfl := Option.some.inj hl
      exact ⟨rfl, rfl⟩
    | absent | inside | done | crashed =>
      rw [hthread] at hl
      cases hl

theorem Kept.processStep (h : r.Kept maxQueueSize) {outcome : Outcome}
    (hok : Catches r.port (.process outcome)) (hstep : r.port.processStep outcome = some p) :
    (r.note (.process outcome) p).Kept maxQueueSize := by
  rw [SubscriberPort.processStep] at hstep
  split at hstep
  · next point hthread => exact h.processInside hthread hok hstep
  · obtain ⟨l, hl, rfl⟩ := Option.map_eq_some_iff.mp hstep
    obtain ⟨hold, hnew⟩ := hand_of_threadStep hl
    rw [note_eq rfl (by simp [takes, hold])]
    exact h.frame rfl rfl rfl rfl rfl rfl (hnew.trans hold.symm)

theorem Kept.tickStep (h : r.Kept maxQueueSize) (hlimit : 1 ≤ maxQueueSize)
    (hstep : r.port.tickStep = some p) : (r.note .tick p).Kept maxQueueSize := by
  rw [SubscriberPort.tickStep] at hstep
  split at hstep
  · next point hthread =>
    obtain rfl := Option.some.inj hstep
    cases point with
    | wait =>
      rw [note_eq (by simp [offered, inTick, hthread]) rfl, tickInside]
      split
      · exact h.frame rfl rfl rfl rfl rfl rfl rfl
      · exact h.frame rfl rfl rfl rfl rfl rfl rfl
    | enqueue message =>
      have hoffered : r.port.offered .tick = [message] := by simp [offered, inTick, hthread]
      simp only [note, hoffered, takes, List.append_nil, tickInside]
      refine h.offer hlimit ?_ ?_ ?_ ?_ rfl rfl
      all_goals simp only [enqueueMessage_eq]
      all_goals split <;> rfl
  · next hthread =>
    obtain ⟨l, -, rfl⟩ := Option.map_eq_some_iff.mp hstep
    have hnone : r.port.offered .tick = [] := by
      show r.port.inTick = []
      unfold inTick
      split
      · exact absurd ‹_› (hthread _)
      · rfl
    rw [note_eq hnone rfl]
    exact h.frame rfl rfl rfl rfl rfl rfl rfl

theorem Kept.handlerStep (h : r.Kept maxQueueSize) (hmanaged : Managed r.port)
    (hstep : r.port.handlerStep = some p) : (r.note .handler p).Kept maxQueueSize := by
  rw [note_eq rfl rfl]
  rw [SubscriberPort.handlerStep] at hstep
  split at hstep
  · cases hstep
  · obtain rfl := Option.some.inj hstep
    exact h.frame rfl rfl rfl rfl rfl rfl rfl
  · next newState op ops _ =>
    obtain ⟨result, hresult, rfl⟩ := Option.map_eq_some_iff.mp hstep
    cases result with
    | error e => exact h.frame rfl rfl rfl rfl rfl rfl rfl
    | ok q =>
      obtain ⟨loop, op⟩ := op
      cases loop with
      | process =>
        simp only [runOp, Option.map_eq_some_iff] at hresult
        obtain ⟨result, hl, hq⟩ := hresult
        cases result with
        | error e => cases hq
        | ok l =>
          obtain rfl := Except.ok.inj hq
          obtain ⟨-, hcases⟩ := LoopOp.run_cases hmanaged.process hl
          refine h.frame rfl rfl rfl rfl rfl rfl ?_
          obtain ⟨-, rfl⟩ | ⟨-, -, hthread | ⟨hold | hold, hnew | hnew⟩⟩ := hcases
          · rfl
          · simp only [hand, hthread]
          all_goals simp only [hand, hold, hnew]
      | tick =>
        simp only [runOp, Option.map_eq_some_iff] at hresult
        obtain ⟨result, -, hq⟩ := hresult
        cases result with
        | error e => cases hq
        | ok l =>
          obtain rfl := Except.ok.inj hq
          exact h.frame rfl rfl rfl rfl rfl rfl rfl

theorem Kept.step (h : r.Kept maxQueueSize) (hlimit : 1 ≤ maxQueueSize) {a : Action}
    (hmanaged : Managed r.port) (hsteady : Steady r.port a) (hstep : r.step a = some r') :
    r'.Kept maxQueueSize := by
  obtain ⟨p, hp, rfl⟩ := Option.map_eq_some_iff.mp hstep
  cases a with
  | request t =>
    obtain ⟨m, -, rfl⟩ := Option.map_eq_some_iff.mp hp
    rw [note_eq rfl rfl]
    exact h.frame rfl rfl rfl rfl rfl rfl rfl
  | handler => exact h.handlerStep hmanaged hp
  | process outcome => exact h.processStep hsteady.1 hp
  | tick => exact h.tickStep hlimit hp
  | receive =>
    obtain rfl := Option.some.inj hp
    rw [note_eq rfl rfl]
    exact h.frame rfl rfl rfl rfl rfl rfl rfl
  | enqueue message =>
    replace hp : (if message ∈ r.port.arriving then _ else none) = some p := hp
    split at hp
    · obtain rfl := Option.some.inj hp
      simp only [note, offered, takes, List.append_nil]
      refine h.offer hlimit ?_ ?_ ?_ ?_ rfl rfl
      all_goals simp only [enqueueMessage_eq]
      all_goals split <;> rfl
    · cases hp
  | setMaxQueueSize size => exact absurd rfl (hsteady.2 size)

end Steps

/-! ## Runs -/

section Runs

variable {kind : PortKind} {callback : Bool} {maxQueueSize : Int} {r : QueueRun}

theorem kept_start (h : 1 ≤ maxQueueSize) : (start kind callback maxQueueSize).Kept maxQueueSize where
  limit := rfl
  idle _ := rfl
  count := rfl
  bound := by
    show (0 + 0 : Int) ≤ maxQueueSize
    omega
  order := rfl
  handed := rfl
  ignored := .nil

/-- A run of the queue is a run of the port. -/
theorem port_reachBy (h : (system kind callback maxQueueSize).ReachBy
      (fun r a => Steady r.port a) r) :
    (SubscriberPort.system kind callback).ReachBy Catches r.port := by
  induction h with
  | init hr =>
    obtain rfl := hr
    exact .step (.setMaxQueueSize maxQueueSize) (.init rfl) trivial rfl
  | step a _ hsteady hstep ih =>
    obtain ⟨p, hp, rfl⟩ := Option.map_eq_some_iff.mp hstep
    exact .step a ih hsteady.1 hp

theorem kept_of_reachBy (hlimit : 1 ≤ maxQueueSize)
    (h : (system kind callback maxQueueSize).ReachBy (fun r a => Steady r.port a) r) :
    r.Kept maxQueueSize := by
  induction h with
  | init hr =>
    obtain rfl := hr
    exact kept_start hlimit
  | step a hreach hsteady hstep ih =>
    have hmanaged := ((inductiveBy_inOrder kind callback).reach (port_reachBy hreach)).2
    exact ih.step hlimit hmanaged hsteady hstep

/-- A message is accepted or refused, once. -/
theorem Kept.nodup (h : r.Kept maxQueueSize) (hin : InOrder r.port) :
    (r.accepted ++ r.refused).Nodup := by
  have hreceived : r.port.counts.received.Nodup := (List.nodup_append.mp hin.nodup).1
  have htaken := List.filter_append_perm (·.2) r.taken
  have hperm : (r.accepted ++ r.refused ++ (r.port.inTick ++ r.port.arriving)).Perm
      r.port.counts.received := by
    refine List.Perm.trans (List.perm_iff_count.mpr fun a => ?_) hin.once.symm
    have hignored := h.ignored.count_eq a
    have hmap := (htaken.map Prod.fst).count_eq a
    have hhanded := congrArg (List.count a) h.handed
    rw [List.map_append] at hmap
    simp only [pending, h.order, List.count_append, List.count_reverse, drained,
      QueueRun.handed] at *
    omega
  exact (List.nodup_append.mp (hperm.nodup_iff.mpr hreceived)).1

/-! ## Delivery -/

/-- The steps of the loop to the next message that it takes, while one waits. -/
def toTake (p : SubscriberPort) : ℕ :=
  match p.process.thread with
  | .inside .wait => 2
  | .inside (.next _) => if p.queue = [] then 3 else 1
  | .inside (.processed _) => if p.queue = [] then 4 else 2
  | .inside (.call _ _) => if p.queue = [] then 5 else 3
  | _ => 5

theorem toTake_bounds (p : SubscriberPort) : 1 ≤ toTake p ∧ toTake p ≤ 5 := by
  unfold toTake
  split <;> try split
  all_goals decide

/-- The steps of the loop that `n` messages are away at most. -/
def distance (n : ℕ) (r : QueueRun) : ℕ :=
  if n ≤ r.taken.length then 0 else 5 * (n - r.taken.length - 1) + toTake r.port

/-- The port is in service since `r`, and the messages that were taken since then went to the
callback. -/
structure Serving (kind : PortKind) (callback : Bool) (maxQueueSize : Int) (r t : QueueRun) :
    Prop where
  reach : (system kind callback maxQueueSize).ReachBy (fun r a => Steady r.port a) t
  serves : t.port.Serves
  taken : ∃ news : List ℕ, t.taken = r.taken ++ news.map fun message => (message, true)
  accepted : r.accepted <+: t.accepted

variable {t t' : QueueRun} {p : SubscriberPort}

theorem Serving.kept (h : Serving kind callback maxQueueSize r t) (hlimit : 1 ≤ maxQueueSize) :
    t.Kept maxQueueSize := kept_of_reachBy hlimit h.reach

/-- A step that the loop has no part in. -/
theorem Serving.frame (h : Serving kind callback maxQueueSize r t) {a : Action}
    (hreach : (system kind callback maxQueueSize).ReachBy (fun r a => Steady r.port a)
      (t.note a p))
    (hmachine : p.machine = t.port.machine) (hprocess : p.process = t.port.process)
    (hcallback : p.callback = t.port.callback) (hqueue : p.queue = t.port.queue)
    (htakes : t.port.takes a = []) (n : ℕ) :
    Serving kind callback maxQueueSize r (t.note a p) ∧
      distance n (t.note a p) ≤ distance n t := by
  obtain ⟨news, hnews⟩ := h.taken
  refine ⟨⟨hreach, ⟨?_, ?_, ?_, ?_, ?_⟩, ⟨news, ?_⟩, h.accepted.trans (List.prefix_append _ _)⟩, ?_⟩
  · exact hmachine ▸ h.serves.running
  · exact hmachine ▸ h.serves.settled
  · exact hcallback.trans h.serves.callback
  · exact hprocess ▸ h.serves.looping
  · exact hprocess ▸ h.serves.stop
  · rw [note, htakes, List.append_nil, hnews]
  · have htake : toTake (t.note a p).port = toTake t.port := by
      show toTake p = _
      rw [toTake, toTake, hprocess, hqueue]
    have htaken : (t.note a p).taken = t.taken := by rw [note, htakes, List.append_nil]
    have hdistance : distance n (t.note a p) = distance n t := by
      rw [distance, distance, htake, htaken]
    exact Nat.le_of_eq hdistance

/-- The loop comes closer to the messages that wait. -/
theorem Serving.process (h : Serving kind callback maxQueueSize r t) (hlimit : 1 ≤ maxQueueSize)
    {outcome : Outcome} (hok : Steady t.port (.process outcome))
    (hstep : t.port.processStep outcome = some p) :
    Serving kind callback maxQueueSize r (t.note (.process outcome) p) ∧
      distance r.accepted.length (t.note (.process outcome) p) ≤
        distance r.accepted.length t - 1 := by
  have hreach : (system kind callback maxQueueSize).ReachBy (fun r a => Steady r.port a)
      (t.note (.process outcome) p) :=
    .step (.process outcome) h.reach hok (Option.map_eq_some_iff.mpr ⟨p, hstep, rfl⟩)
  have hkept := h.kept hlimit
  obtain ⟨hrunning, hsettled, hcallback, ⟨point, hthread, hstays⟩, hstop⟩ := h.serves
  obtain ⟨news, hnews⟩ := h.taken
  have hlength := h.accepted.length_le
  rw [hkept.order, List.length_append, List.length_append, List.length_map] at hlength
  have haccepted : ∀ p, r.accepted <+: (t.note (.process outcome) p).accepted := fun p =>
    h.accepted.trans (List.prefix_append _ _)
  rw [SubscriberPort.processStep, hthread] at hstep
  cases point with
  | wait =>
    have hhand : t.port.hand = .idle := by rw [hand, hthread]
    have htakes : t.port.takes (.process outcome) = [] := by simp [takes, hhand]
    have hempty := hkept.idle hhand
    simp only [processInside, hstop, Bool.false_eq_true, false_or] at hstep
    split at hstep
    · next hmessages =>
      obtain rfl := Option.some.inj hstep
      refine ⟨⟨hreach, ⟨hrunning, hsettled, hcallback, ⟨_, rfl, rfl⟩, rfl⟩,
        ⟨news, by rw [note, htakes, List.append_nil, hnews]⟩, haccepted _⟩, ?_⟩
      simp only [distance, note, htakes, List.append_nil, toTake, hthread, if_neg hmessages]
      split <;> omega
    · cases hstep
  | next running =>
    obtain rfl : running = true := hstays
    have hhand : t.port.hand = .between := by rw [hand, hthread]
    have hgoes : (t.port.machine.processEvent && t.port.callback) = true := by
      rw [hrunning, hcallback, Bool.and_self]
    simp only [processInside, hgoes, if_true] at hstep
    split at hstep
    · next hqueue =>
      have htakes : t.port.takes (.process outcome) = [] := by simp [takes, hhand, hqueue]
      obtain rfl := Option.some.inj hstep
      refine ⟨⟨hreach, ⟨hrunning, hsettled, hcallback, ⟨_, rfl, trivial⟩, hstop⟩,
        ⟨news, by rw [note, htakes, List.append_nil, hnews]⟩, haccepted _⟩, ?_⟩
      simp only [distance, note, htakes, List.append_nil, toTake, hthread, if_pos hqueue]
      split <;> omega
    · next message rest hqueue =>
      have htakes : t.port.takes (.process outcome) = [(message, true)] := by
        simp [takes, hhand, hqueue, hgoes]
      obtain rfl := Option.some.inj hstep
      refine ⟨⟨hreach, ⟨hrunning, hsettled, hcallback, ⟨_, rfl, rfl⟩, hstop⟩,
        ⟨news ++ [message], by rw [note, htakes, hnews]; simp⟩, haccepted _⟩, ?_⟩
      simp only [distance, note, htakes, toTake, hthread, List.length_append, List.length_cons,
        List.length_nil, hqueue, List.cons_ne_nil, if_false]
      split <;> split <;> try split
      all_goals omega
  | call running message =>
    obtain rfl : running = true := hstays
    have hhand : t.port.hand = .call message := by rw [hand, hthread]
    have htakes : t.port.takes (.process outcome) = [] := by simp [takes, hhand]
    simp only [processInside] at hstep
    split at hstep
    · have hnone := hok.1 rfl
      rw [inCall_eq, hhand] at hnone
      cases hnone
    · obtain rfl := Option.some.inj hstep
      refine ⟨⟨hreach, ⟨hrunning, hsettled, hcallback, ⟨_, rfl, rfl⟩, hstop⟩,
        ⟨news, by rw [note, htakes, List.append_nil, hnews]⟩, haccepted _⟩, ?_⟩
      simp only [distance, note, htakes, List.append_nil, toTake, hthread]
      split
      · exact Nat.zero_le _
      · split <;> omega
  | processed running =>
    obtain rfl : running = true := hstays
    have hhand : t.port.hand = .after := by rw [hand, hthread]
    have htakes : t.port.takes (.process outcome) = [] := by simp [takes, hhand]
    obtain rfl := Option.some.inj hstep
    refine ⟨⟨hreach, ⟨hrunning, hsettled, hcallback, ⟨_, rfl, rfl⟩, hstop⟩,
      ⟨news, by rw [note, htakes, List.append_nil, hnews]⟩, haccepted _⟩, ?_⟩
    simp only [distance, note, htakes, List.append_nil, toTake, hthread]
    split
    · exact Nat.zero_le _
    · split <;> omega

theorem enqueueMessage_frame (p : SubscriberPort) (message : ℕ) :
    (p.enqueueMessage message).callback = p.callback ∧
      (p.enqueueMessage message).queue = p.queue := by
  rw [enqueueMessage_eq]
  split <;> exact ⟨rfl, rfl⟩

/-- Any action but a passivation or a termination. -/
theorem Serving.step (h : Serving kind callback maxQueueSize r t) (hlimit : 1 ≤ maxQueueSize)
    {a : Action} (ha : a ≠ .request .passivate ∧ a ≠ .request .terminate)
    (hok : Steady t.port a) (hstep : t.step a = some t') :
    Serving kind callback maxQueueSize r t' ∧ distance r.accepted.length t' ≤
      distance r.accepted.length t - (Action.isProcess a).toNat := by
  have hreach : (system kind callback maxQueueSize).ReachBy (fun r a => Steady r.port a) t' :=
    .step a h.reach hok hstep
  obtain ⟨p, hp, rfl⟩ := Option.map_eq_some_iff.mp hstep
  cases a with
  | request transition =>
    obtain ⟨m, hm, rfl⟩ := Option.map_eq_some_iff.mp hp
    have hrunning : t.port.machine.state = .running := by
      have := h.serves.running
      simp only [StateMachine.processEvent, Bool.and_eq_true, decide_eq_true_eq] at this
      exact this.1
    have hsame : m = t.port.machine := by
      rw [StateMachine.request, h.serves.settled, hrunning] at hm
      cases transition with
      | configure | activate => exact (Option.some.inj hm).symm
      | passivate => exact absurd rfl ha.1
      | terminate => exact absurd rfl ha.2
    exact h.frame hreach hsame rfl rfl rfl rfl _
  | handler =>
    have hnone : t.port.handlerStep = none := by rw [handlerStep, h.serves.settled]
    rw [SubscriberPort.step, hnone] at hp
    cases hp
  | process outcome => exact h.process hlimit hok hp
  | tick =>
    replace hp : t.port.tickStep = some p := hp
    rw [tickStep] at hp
    split at hp
    · next point _ =>
      obtain rfl := Option.some.inj hp
      cases point with
      | wait =>
        rw [tickInside] at hreach ⊢
        split at hreach
        · next hflag =>
          rw [if_pos hflag]
          exact h.frame hreach rfl rfl rfl rfl rfl _
        · next hflag =>
          rw [if_neg hflag]
          exact h.frame hreach rfl rfl rfl rfl rfl _
      | enqueue message =>
        obtain ⟨hcallback, hqueue⟩ := enqueueMessage_frame t.port message
        exact h.frame hreach (enqueueMessage_machine _ _) (enqueueMessage_process _ _) hcallback
          hqueue rfl _
    · obtain ⟨l, -, rfl⟩ := Option.map_eq_some_iff.mp hp
      exact h.frame hreach rfl rfl rfl rfl rfl _
  | receive =>
    obtain rfl := Option.some.inj hp
    exact h.frame hreach rfl rfl rfl rfl rfl _
  | enqueue message =>
    replace hp : (if message ∈ t.port.arriving then _ else none) = some p := hp
    split at hp
    · obtain rfl := Option.some.inj hp
      obtain ⟨hcallback, hqueue⟩ := enqueueMessage_frame t.port message
      exact h.frame hreach (enqueueMessage_machine _ _) (enqueueMessage_process _ _) hcallback
        hqueue rfl _
    · cases hp
  | setMaxQueueSize size => exact absurd rfl (hok.2 size)

/-- What waits is with the callback after enough steps of the loop. -/
theorem delivers_of_reachBy (hlimit : 1 ≤ maxQueueSize)
    (h : (system kind callback maxQueueSize).ReachBy (fun r a => Steady r.port a) r)
    (hserves : r.port.Serves) {actions : List Action}
    (hrun : Lts.runBy QueueRun.step (fun r a => Steady r.port a) r actions = some t)
    (hpassivate : .request .passivate ∉ actions) (hterminate : .request .terminate ∉ actions)
    (hmany : 5 * (r.port.queue ++ r.port.messageQueue).length ≤
      actions.countP Action.isProcess) :
    r.handed ++ r.port.queue ++ r.port.messageQueue <+: t.handed := by
  obtain ⟨hserving, hle⟩ : Serving kind callback maxQueueSize r t ∧ distance r.accepted.length t ≤
      distance r.accepted.length r - actions.countP Action.isProcess :=
    Lts.runBy_potential (fun hserving ha hok hstep => Serving.step hserving hlimit ha hok hstep)
      (Serving.mk h hserves ⟨[], by simp⟩ List.prefix_rfl)
      (fun a ha => ⟨fun heq => hpassivate (heq ▸ ha), fun heq => hterminate (heq ▸ ha)⟩) hrun
  have hkept := kept_of_reachBy hlimit h
  have hkept' := hserving.kept hlimit
  obtain ⟨news, hnews⟩ := hserving.taken
  have hlength := congrArg List.length hkept.order
  simp only [List.length_append, List.length_map] at hlength hmany
  have htaken : r.accepted.length ≤ t.taken.length := by
    have hr := toTake_bounds r.port
    have ht := toTake_bounds t.port
    unfold distance at hle
    split at hle <;> split at hle <;> omega
  have hprefix := hserving.accepted
  have hfst : t.taken.map Prod.fst = r.taken.map Prod.fst ++ news := by
    rw [hnews, List.map_append, List.map_map]
    simp [Function.comp_def]
  rw [hkept.order, hkept'.order, hfst] at hprefix
  simp only [List.append_assoc, List.prefix_append_right_inj] at hprefix
  have hhanded : t.handed = r.handed ++ news := by
    rw [handed, hnews, List.filter_append, List.map_append, List.filter_map, List.map_map]
    simp [handed, Function.comp_def]
  rw [hhanded, List.append_assoc, List.prefix_append_right_inj]
  refine List.prefix_of_prefix_length_le hprefix (List.prefix_append _ _) ?_
  have hcount := congrArg List.length hnews
  simp only [List.length_append, List.length_map] at hcount ⊢
  omega

/-- The loop of a port in service is awake while a message waits. -/
theorem Kept.awake (h : r.Kept maxQueueSize) (hserves : r.port.Serves)
    (hwaits : r.port.queue ++ r.port.messageQueue ≠ []) (outcome : Outcome) :
    (r.step (.process outcome)).isSome := by
  obtain ⟨point, hthread, -⟩ := hserves.looping
  have hsome : (r.port.processStep outcome).isSome := by
    rw [SubscriberPort.processStep, hthread]
    cases point with
    | wait =>
      have hempty := h.idle (by rw [hand, hthread])
      rw [hempty, List.nil_append] at hwaits
      simp only [SubscriberPort.processInside, hwaits, ne_eq, not_false_eq_true, or_true, if_true,
        Option.isSome_some]
    | next running =>
      simp only [SubscriberPort.processInside]
      split
      · rfl
      · split <;> rfl
    | call running message =>
      simp only [SubscriberPort.processInside]
      split <;> rfl
    | processed running => rfl
  rwa [QueueRun.step, Option.isSome_map]

/-- A message is refused when the port is not running or the limit is reached. -/
theorem Kept.refuses (h : r.Kept maxQueueSize) (hlimit : 1 ≤ maxQueueSize) (message : ℕ) :
    r.port.enqueueMessage message =
        { r.port with counts := r.port.counts.eventIgnored message } ↔
      r.port.machine.processEvent = false ∨
        maxQueueSize ≤ (r.port.messageQueue.length + r.port.inProcess : Int) := by
  have hadmits := h.admits_iff hlimit
  rw [enqueueMessage_eq]
  cases hcase : r.port.admits with
  | true =>
    rw [hcase] at hadmits
    obtain ⟨hrun, hroom⟩ := hadmits.mp rfl
    simp only [if_true, hrun, Bool.true_eq_false, false_or]
    refine ⟨fun heq => ?_, fun hfull => absurd hroom (Int.not_lt.mpr hfull)⟩
    have := congrArg (fun p => p.messageQueue.length) heq
    simp at this
  | false =>
    simp only [Bool.false_eq_true, if_false, true_iff]
    rw [hcase] at hadmits
    by_cases hrun : r.port.machine.processEvent = true
    · exact .inr (Int.not_lt.mp fun hroom => Bool.false_ne_true (hadmits.mpr ⟨hrun, hroom⟩))
    · exact .inl (eq_false_of_ne_true hrun)

/-- The queue of a port whose limit does not change, while callbacks return or throw a
`std::exception`. -/
theorem queued_of_reachBy (hlimit : 1 ≤ maxQueueSize)
    (h : (system kind callback maxQueueSize).ReachBy (fun r a => Steady r.port a) r) :
    r.Queued maxQueueSize := by
  have hkept := kept_of_reachBy hlimit h
  exact
    { bound := hkept.bound
      count := hkept.count
      refuses := hkept.refuses hlimit
      order := hkept.order
      handed := hkept.handed
      ignored := hkept.ignored
      once := hkept.nodup (inOrder_of_reachBy (port_reachBy h))
      delivers := fun hserves _ _ hrun => delivers_of_reachBy hlimit h hserves hrun
      awake := hkept.awake }

end Runs

/-- Two messages for a port with room for one; the first is on its way to the callback. -/
def messagesRun : List Action :=
  configureRun ++ activateRun ++ [.receive, .receive, .enqueue 0, .enqueue 1, .process .returns]

/-- The callback gets the first message, and the second is refused. -/
theorem queued_of_reachBy_messages : ∃ r, Lts.runBy step (fun r a => Steady r.port a)
    (start .subscriber true 1) (messagesRun ++ [.process .returns]) = some r ∧
      r.accepted = [0] ∧ r.refused = [1] ∧ r.handed = [0] ∧ r.Queued 1 := by
  obtain ⟨r, hr, haccepted, hrefused, hhanded⟩ : ∃ r, Lts.runBy step (fun r a => Steady r.port a)
      (start .subscriber true 1) (messagesRun ++ [.process .returns]) = some r ∧
        r.accepted = [0] ∧ r.refused = [1] ∧ r.handed = [0] := ⟨_, rfl, rfl, rfl, rfl⟩
  exact ⟨r, hr, haccepted, hrefused, hhanded,
    queued_of_reachBy (by decide) (Lts.reachBy_of_runBy hr)⟩

/-- A message that is accepted before a passivation never reaches the callback, and a callback that
throws something else leaves the count as it was. -/
theorem not_queued :
    (∃ r, Lts.run step (start .subscriber true 1) (configureRun ++ activateRun ++
      [.receive, .enqueue 0, .request .passivate, .process .returns, .process .returns,
        .process .returns]) = some r ∧
      r.accepted = [0] ∧ r.handed = [] ∧ r.port.messageQueue = [] ∧ r.port.inProcess = 0) ∧
    ∃ r, Lts.run step (start .subscriber true 1) (messagesRun ++
      [.process .returns, .process .throwsOther]) = some r ∧
      r.port.processingCount = 1 ∧ r.port.inProcess = 0 :=
  ⟨⟨_, rfl, rfl, rfl, rfl, rfl⟩, _, rfl, rfl, rfl⟩

end QueueRun

end Sem.Ports

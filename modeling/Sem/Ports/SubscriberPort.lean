import Sem.Lib.Run
import Sem.Ports.EventCounts
import Sem.Ports.ManagedLoop
import Sem.Ports.StateMachine

/-!
# Subscriber ports

A subscriber port takes messages from its middleware into a queue, and gives them to a callback on
the thread of its `ProcessLoop`. A periodic port is a subscriber port with a second thread, which
makes the messages itself, in its `TickLoop`.

* `SubscriberPort.step`: one step of a request, of one of the threads or of the middleware.
-/

namespace Sem.Ports

/-- A subscriber, or a periodic port, which is one with a thread that ticks. -/
inductive PortKind
  | subscriber | periodic
  deriving DecidableEq, Repr

/-- The loops of a port. -/
inductive LoopName
  | process | tick
  deriving DecidableEq, Repr

/-- An operation of a handler. -/
structure HandlerOp where
  loop : LoopName
  op : LoopOp
  deriving DecidableEq, Repr

/-- The handlers of one loop: `HandleConfigure`, `HandleActivate`, `HandlePassivate` and
`HandleTerminate`. -/
def handleLoop (loop : LoopName) : Transition → List HandlerOp
  | .configure => [⟨loop, .spawn⟩, ⟨loop, .waitConfigured⟩]
  | .activate => [⟨loop, .setActivate⟩, ⟨loop, .waitActive⟩]
  | .passivate => [⟨loop, .interrupt⟩]
  | .terminate =>
    [⟨loop, .interrupt⟩, ⟨loop, .setTerminate⟩, ⟨loop, .waitTerminated⟩, ⟨loop, .reset⟩]

/-- The handlers of the kind of port; those of `PeriodicPort` end with those of its base. -/
def PortKind.handle : PortKind → Transition → List HandlerOp
  | .subscriber, t => handleLoop .process t
  | .periodic, t => handleLoop .tick t ++ handleLoop .process t

/-- The points of `ProcessLoop`, with its variable `running`. -/
inductive ProcessPoint
  | wait
  | next (running : Bool)
  | call (running : Bool) (message : ℕ)
  | processed (running : Bool)
  deriving DecidableEq, Repr

/-- `ProcessLoop` comes back to its wait. -/
def ProcessPoint.Stays : ProcessPoint → Prop
  | .wait => True
  | .next running | .call running _ | .processed running => running = true

/-- The points of `TickLoop`. -/
inductive TickPoint
  | wait
  | enqueue (message : ℕ)
  deriving DecidableEq, Repr

/-- `TickLoop` leaves only by its flag. -/
def TickPoint.Stays (_ : TickPoint) : Prop := True

/-- How a callback ends. -/
inductive Outcome
  | returns
  /-- By a `std::exception`. -/
  | throws
  /-- By something else. -/
  | throwsOther
  deriving DecidableEq, Repr

/-- `SubscriberPort`, or `PeriodicPort`. -/
structure SubscriberPort where
  kind : PortKind
  machine : StateMachine HandlerOp
  process : ManagedLoop ProcessPoint
  tick : ManagedLoop TickPoint
  /-- There is a `callback_fn`. -/
  callback : Bool
  messageQueue : List ℕ
  maxQueueSize : Int
  processingCount : Int
  /-- The queue of `ProcessLoop`. -/
  queue : List ℕ
  /-- The messages that wait for `queue_mutex_` in `EnqueueMessage`. -/
  arriving : List ℕ
  counts : EventCounts
  /-- History: a stop flag was raised where its loop does not clear it. -/
  missed : Bool

namespace SubscriberPort

/-- The constructors. -/
def start (kind : PortKind) (callback : Bool) : SubscriberPort where
  kind := kind
  machine := .start
  process := .start
  tick := .start
  callback := callback
  messageQueue := []
  maxQueueSize := match kind with
    | .subscriber => -1
    | .periodic => 1
  processingCount := 0
  queue := []
  arriving := []
  counts := .start
  missed := false

/-- The loop takes the stop flag down when it comes to it: `ProcessLoop`, while it is running.
`TickLoop` leaves its flag up. -/
def clears (p : SubscriberPort) : LoopName → Bool
  | .process =>
    match p.process.thread with
    | .inside .wait => true
    | .inside (.next running) | .inside (.call running _) | .inside (.processed running) => running
    | _ => false
  | .tick => false

/-- An operation of a handler. -/
def runOp (p : SubscriberPort) (op : HandlerOp) : Option (Except LoopError SubscriberPort) :=
  let missed := p.missed || (op.op = .interrupt && !p.clears op.loop)
  match op.loop with
  | .process => (op.op.run p.process).map fun r => r.map fun l =>
      { p with process := l, missed := missed }
  | .tick => (op.op.run p.tick).map fun r => r.map fun l => { p with tick := l, missed := missed }

/-- One step of the request in progress. -/
def handlerStep (p : SubscriberPort) : Option SubscriberPort :=
  match p.machine.pending with
  | none => none
  | some ⟨newState, []⟩ => some { p with machine := p.machine.finish newState }
  | some ⟨newState, op :: ops⟩ =>
    (p.runOp op).map fun r => match r with
      | .error _ => { p with machine := p.machine.fail }
      | .ok p => { p with machine := { p.machine with pending := some ⟨newState, ops⟩ } }

/-- `EnqueueMessage` up to the mutex. -/
def receive (p : SubscriberPort) : SubscriberPort :=
  { p with counts := p.counts.eventReceived p.counts.received.length }

/-- `EnqueueMessage` with the mutex. -/
def enqueueMessage (p : SubscriberPort) (message : ℕ) : SubscriberPort :=
  let queueSize := p.messageQueue.length + p.processingCount
  if p.machine.processEvent && (p.maxQueueSize = -1 || p.maxQueueSize > queueSize) then
    { p with messageQueue := p.messageQueue ++ [message] }
  else { p with counts := p.counts.eventIgnored message }

section EnqueueMessage

variable (p : SubscriberPort) (message : ℕ)

@[simp] theorem enqueueMessage_kind : (p.enqueueMessage message).kind = p.kind := by
  rw [enqueueMessage]
  split <;> rfl

@[simp] theorem enqueueMessage_machine : (p.enqueueMessage message).machine = p.machine := by
  rw [enqueueMessage]
  split <;> rfl

@[simp] theorem enqueueMessage_process : (p.enqueueMessage message).process = p.process := by
  rw [enqueueMessage]
  split <;> rfl

@[simp] theorem enqueueMessage_tick : (p.enqueueMessage message).tick = p.tick := by
  rw [enqueueMessage]
  split <;> rfl

@[simp] theorem enqueueMessage_missed : (p.enqueueMessage message).missed = p.missed := by
  rw [enqueueMessage]
  split <;> rfl

end EnqueueMessage

/-- `ProcessLoop` inside its loop; `outcome` is that of a callback. -/
def processInside (p : SubscriberPort) (outcome : Outcome) :
    ProcessPoint → Option SubscriberPort
  | .wait =>
    if p.process.stop ∨ p.messageQueue ≠ [] then
      some { p with
        process := { p.process with thread := .inside (.next !p.process.stop), stop := false }
        messageQueue := p.queue
        queue := p.messageQueue
        processingCount := p.processingCount + p.messageQueue.length }
    else none
  | .next running =>
    match p.queue with
    | [] => some { p with
        process := { p.process with thread := if running then .inside .wait else .exiting } }
    | message :: rest =>
      if p.machine.processEvent && p.callback then
        some { p with
          process := { p.process with thread := .inside (.call running message) }
          queue := rest }
      else
        some { p with
          process := { p.process with thread := .inside (.processed running) }
          queue := rest
          counts := p.counts.eventIgnored message }
  | .call running message =>
    match outcome with
    | .throwsOther => some { p with process := { p.process with thread := .crashed } }
    | _ => some { p with
        process := { p.process with thread := .inside (.processed running) }
        counts := p.counts.eventProcessed message }
  | .processed running =>
    some { p with
      process := { p.process with thread := .inside (.next running) }
      processingCount := p.processingCount - 1 }

/-- One step of the thread of `ProcessLoop`. -/
def processStep (p : SubscriberPort) (outcome : Outcome) : Option SubscriberPort :=
  match p.process.thread with
  | .inside point => p.processInside outcome point
  | _ => (p.process.threadStep .wait).map fun l => { p with process := l }

/-- `TickLoop` inside its loop; the time between two ticks may be over at any time. -/
def tickInside (p : SubscriberPort) : TickPoint → SubscriberPort
  | .wait =>
    if p.tick.stop then { p with tick := { p.tick with thread := .exiting } }
    else { p.receive with
      tick := { p.tick with thread := .inside (.enqueue p.counts.received.length) } }
  | .enqueue message =>
    { p.enqueueMessage message with tick := { p.tick with thread := .inside .wait } }

/-- One step of the thread of `TickLoop`. -/
def tickStep (p : SubscriberPort) : Option SubscriberPort :=
  match p.tick.thread with
  | .inside point => some (p.tickInside point)
  | _ => (p.tick.threadStep .wait).map fun l => { p with tick := l }

/-- What happens to a port. -/
inductive Action
  | request (transition : Transition)
  /-- A step of the request in progress. -/
  | handler
  | process (outcome : Outcome)
  | tick
  /-- The middleware calls `EnqueueMessage`. -/
  | receive
  /-- A message in `EnqueueMessage` gets the mutex. -/
  | enqueue (message : ℕ)
  | setMaxQueueSize (size : Int)

/-- One step of the run. -/
def step (p : SubscriberPort) : Action → Option SubscriberPort
  | .request transition =>
    (p.machine.request p.kind.handle transition).map fun m => { p with machine := m }
  | .handler => p.handlerStep
  | .process outcome => p.processStep outcome
  | .tick => p.tickStep
  | .receive => some { p.receive with arriving := p.counts.received.length :: p.arriving }
  | .enqueue message =>
    if message ∈ p.arriving then
      some { p.enqueueMessage message with arriving := p.arriving.erase message }
    else none
  | .setMaxQueueSize size => some { p with maxQueueSize := size }

/-- The runs of a port of this kind. -/
def system (kind : PortKind) (callback : Bool) : Lts SubscriberPort Action :=
  .ofFun (start kind callback) step

end SubscriberPort

end Sem.Ports

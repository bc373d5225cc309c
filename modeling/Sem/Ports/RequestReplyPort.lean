import Sem.Lib.Run
import Sem.Ports.EventCounts
import Sem.Ports.StateMachine
import Sem.Ports.SubscriberPort

/-!
# Requester and replier ports

`SendRequest` of a requester port and `ProcessRequest` of a replier port are called on any number
of threads at once. Each has three specialisations, which count the events of a call in their own
ways.

* `PortVariant.callStep`: one step of a call.
* `RequestReplyPort.step`: one step of a port with its calls.
-/

namespace Sem.Ports

/-- Where a call is. -/
inductive CallPoint
  | start
  /-- Past the check of `process_event`, or past the count of a replier port. -/
  | admitted
  | processing
  /-- In the handler of a `std::exception`. -/
  | caught
  /-- At the end of the function, after what it does for an event that it takes. -/
  | atEnd
  deriving DecidableEq, Repr

/-- What a step counts. -/
inductive CountOp
  | received | processed | ignored
  deriving DecidableEq, Repr

/-- The specialisations, named by what is `void`. -/
inductive PortVariant
  | requester | requesterVoidReply | requesterVoidRequest
  | replier | replierVoidReply | replierVoidRequest
  deriving DecidableEq, Repr

/-- `SendRequest`: whether the event is ignored in the handler of an exception, and whether at the
end. The exception that is no `std::exception` leaves the function. -/
def sendRequest (inCatch atEnd : Bool) (processEvent : Bool) (outcome : Outcome) :
    CallPoint → Option CountOp × Option CallPoint
  | .start => (none, some (if processEvent then .admitted else .atEnd))
  | .admitted => (some .received, some .processing)
  | .processing =>
    match outcome with
    | .returns => (some .processed, none)
    | .throws => (none, some .caught)
    | .throwsOther => (none, none)
  | .caught => (if inCatch then some .ignored else none, some .atEnd)
  | .atEnd => (if atEnd then some .ignored else none, none)

/-- `ProcessRequest`. -/
def processRequest (processEvent callback : Bool) (outcome : Outcome) :
    CallPoint → Option CountOp × Option CallPoint
  | .start => (some .received, some .admitted)
  | .admitted => (none, some (if processEvent && callback then .processing else .atEnd))
  | .processing =>
    match outcome with
    | .returns => (some .processed, none)
    | .throws => (none, some .caught)
    | .throwsOther => (none, none)
  | .caught => (some .processed, none)
  | .atEnd => (some .ignored, none)

/-- One step of a call; the outcome is that of the middleware's `ProcessRequest` for a requester,
and that of the callback for a replier. -/
def PortVariant.callStep (processEvent callback : Bool) (outcome : Outcome) :
    PortVariant → CallPoint → Option CountOp × Option CallPoint
  | .requester => sendRequest false true processEvent outcome
  | .requesterVoidReply => sendRequest true true processEvent outcome
  | .requesterVoidRequest => sendRequest false false processEvent outcome
  | .replier | .replierVoidReply | .replierVoidRequest =>
    processRequest processEvent callback outcome

/-- The counter that a step goes to, if any. -/
def EventCounts.count (c : EventCounts) (e : ℕ) : Option CountOp → EventCounts
  | none => c
  | some .received => c.eventReceived e
  | some .processed => c.eventProcessed e
  | some .ignored => c.eventIgnored e

/-- A call, named by its event. -/
structure PortCall where
  event : ℕ
  point : CallPoint
  deriving DecidableEq, Repr

/-- `RequesterPort` or `ReplierPort`; its handlers only log. -/
structure RequestReplyPort where
  variant : PortVariant
  machine : StateMachine Empty
  callback : Bool
  counts : EventCounts
  calls : List PortCall
  nextEvent : ℕ

namespace RequestReplyPort

/-- A port to which nothing has happened. -/
def start (variant : PortVariant) (callback : Bool) : RequestReplyPort :=
  ⟨variant, .start, callback, .start, [], 0⟩

/-- What happens to a port. -/
inductive Action
  | request (transition : Transition)
  /-- A step of the request in progress. -/
  | handler
  | call
  /-- A step of a call. -/
  | step (call : PortCall) (outcome : Outcome)

/-- One step of the run. -/
def step (p : RequestReplyPort) : Action → Option RequestReplyPort
  | .request transition =>
    (p.machine.request (fun _ => []) transition).map fun m => { p with machine := m }
  | .handler =>
    p.machine.pending.map fun pending => { p with machine := p.machine.finish pending.newState }
  | .call =>
    some { p with calls := ⟨p.nextEvent, .start⟩ :: p.calls, nextEvent := p.nextEvent + 1 }
  | .step call outcome =>
    if call ∈ p.calls then
      let (op, next) :=
        p.variant.callStep p.machine.processEvent p.callback outcome call.point
      some { p with
        counts := p.counts.count call.event op
        calls := (next.map (PortCall.mk call.event)).toList ++ p.calls.erase call }
    else none

/-- The runs of a port of this variant. -/
def system (variant : PortVariant) (callback : Bool) : Lts RequestReplyPort Action :=
  .ofFun (start variant callback) step

end RequestReplyPort

end Sem.Ports

import Mathlib.Logic.Basic

/-!
# The lifecycle of ports

A port is configured, activated, passivated and terminated by requests. A request runs the handler
of its transition, here a list of operations that other threads may interleave with, and then
changes the state. The mutex `state_mutex_` is held from the request to the change, so a request
waits for the one before it.

* `StateMachine.request`, `finish`, `fail`: the parts of `transition_state` and
  `run_transition_function`.
-/

namespace Sem.Ports

/-- `StateMachine::State`. -/
inductive State
  | notConfigured | configured | running | notRunning
  deriving DecidableEq, Repr

/-- `StateMachine::Transition` but for `NO_TRANSITION`. -/
inductive Transition
  | configure | activate | passivate | terminate
  deriving DecidableEq, Repr

/-- `new_state` in `transition_state`, if it is not the current state. -/
def State.next : State → Transition → Option State
  | .notConfigured, .configure => some .configured
  | .notConfigured, _ => none
  | .configured, .activate => some .running
  | .configured, .terminate => some .notConfigured
  | .configured, _ => none
  | .running, .passivate => some .notRunning
  | .running, .terminate => some .notConfigured
  | .running, _ => none
  | .notRunning, .terminate => some .notConfigured
  | .notRunning, _ => none

/-- A request in progress: `new_state`, and what is left of the handler. -/
structure Pending (Op : Type) where
  newState : State
  ops : List Op

/-- `BehaviourContainer`'s state, with the transition that is under way. -/
structure StateMachine (Op : Type) where
  state : State
  /-- `transition_`; `none` is `NO_TRANSITION`. -/
  transition : Option Transition
  pending : Option (Pending Op)

namespace StateMachine

variable {Op : Type}

/-- A machine to which nothing has happened. -/
def start : StateMachine Op := ⟨.notConfigured, none, none⟩

/-- `transition_state` up to the handler; it waits while another request is in progress. -/
def request (m : StateMachine Op) (handle : Transition → List Op) (t : Transition) :
    Option (StateMachine Op) :=
  match m.pending with
  | some _ => none
  | none =>
    match m.state.next t with
    | none => some m
    | some newState => some { m with transition := some t, pending := some ⟨newState, handle t⟩ }

/-- After the handler `transition_` is reset, and then the state changes. -/
def finish (m : StateMachine Op) (newState : State) : StateMachine Op :=
  if m.transition.isSome then { m with transition := none }
  else { m with state := newState, pending := none }

/-- The handler threw. -/
def fail (m : StateMachine Op) : StateMachine Op := { m with transition := none, pending := none }

/-- `Activatable::process_event`. -/
def processEvent (m : StateMachine Op) : Bool :=
  m.state = .running && m.transition.isNone

end StateMachine

end Sem.Ports

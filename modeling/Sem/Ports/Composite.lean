import Sem.Lib.Run
import Sem.Lib.Table
import Sem.Lib.Xml
import Sem.Ports.StateMachine

/-!
# The lifecycle of a component

A component hands each request on to its ports and workers and then changes its own state. What
becomes of the requests of its ports and workers it does not look at: `Activate` and the others
return whether they succeeded, and the component does not read it. The loggers swallow their
exceptions, so a component's own handlers do not throw.

Whether the handler of a child throws is up to the action, which names the children that fail.

* `step`: one request, or a child that comes or goes.
* `inStep_of_reach`: the children that were there in time and never failed are in the state of the
  component, and what a failed termination left running is the only other child that runs.
-/

namespace Sem.Ports.Composite

open Xml (Text)

/-- A port or a worker. -/
structure Child where
  state : State
  /-- History: it did not meet the component when it was attached, or one of its own transitions
  failed, and it has not met a component that was not configured since. -/
  strayed : Bool
  /-- History: it was attached while running, or was to terminate and failed to. -/
  leftRunning : Bool
  deriving DecidableEq, Repr

/-- A child in the first state comes along with a component in the second: it is in the same state,
or it is configured before the component. -/
def Meets (child component : State) : Prop :=
  child = component ∨ component = .notConfigured ∧ child = .configured

instance (child component : State) : Decidable (Meets child component) :=
  inferInstanceAs (Decidable (_ ∨ _))

/-- `Component`, with the members of `BehaviourContainer`. -/
structure Component where
  state : State
  ports : Table Text Child
  workers : Table Text Child

/-- What is attached and taken away, and the transitions that are asked for. -/
inductive Action
  | addEventPort (name : Text) (state : State)
  | addWorker (name : Text) (state : State)
  | removeWorker (name : Text)
  | request (t : Transition) (failingPorts failingWorkers : List Text)
  deriving DecidableEq, Repr

namespace Child

/-- The request of a child; `fails` when its handler throws. -/
def transitionState (child : Child) (t : Transition) (fails : Bool) : Child :=
  match child.state.next t with
  | none => child
  | some newState =>
    if fails then
      { child with
        strayed := true
        leftRunning := child.leftRunning || decide (t = .terminate) }
    else { child with state := newState, leftRunning := false }

/-- A child that is attached to a component in this state. -/
def attach (state componentState : State) : Child where
  state := state
  strayed := !decide (Meets state componentState)
  leftRunning := decide (state = .running)

/-- The history starts again where the component is not configured and the child meets it. -/
def settle (child : Child) (componentState : State) : Child :=
  if componentState = .notConfigured ∧ Meets child.state componentState then
    { child with strayed := false }
  else child

end Child

namespace Component

/-- The children of one kind on a request of the component. -/
def handle (children : Table Text Child) (t : Transition) (failing : List Text)
    (newState : State) : Table Text Child :=
  children.mapEntries fun name child =>
    (child.transitionState t (decide (name ∈ failing))).settle newState

/-- `StateMachine::transition_state` with `HandleConfigure`, `HandleActivate`, `HandlePassivate` or
`HandleTerminate`: the ports come first, then the workers. -/
def transitionState (c : Component) (t : Transition) (failingPorts failingWorkers : List Text) :
    Component :=
  match c.state.next t with
  | none => c
  | some newState =>
    { state := newState
      ports := handle c.ports t failingPorts newState
      workers := handle c.workers t failingWorkers newState }

/-- `AddEventPort` and `AddWorker`: a name that is taken is refused. -/
def add (children : Table Text Child) (name : Text) (child : Child) : Table Text Child :=
  if name ∈ children then children else children.insert name child

/-- One of these. -/
def step (c : Component) : Action → Option Component
  | .addEventPort name state => some { c with ports := add c.ports name (.attach state c.state) }
  | .addWorker name state => some { c with workers := add c.workers name (.attach state c.state) }
  | .removeWorker name => some { c with workers := c.workers.erase name }
  | .request t failingPorts failingWorkers =>
    some (c.transitionState t failingPorts failingWorkers)

/-- A component, from its constructor on. -/
def system : Lts Component Action := Lts.ofFun ⟨.notConfigured, ∅, ∅⟩ step

/-- The component has the child. -/
def Has (c : Component) (child : Child) : Prop :=
  child ∈ c.ports.values ∨ child ∈ c.workers.values

/-- What a component reports is true of all its ports and workers. -/
def InStep (c : Component) : Prop :=
  (c.state = .running → ∀ child, c.Has child → child.state = .running) ∧
    (c.state = .configured ∨ c.state = .notConfigured →
      ∀ child, c.Has child → child.state ≠ .running)

/-- A component that reports `RUNNING` with a port whose activation failed. -/
theorem not_forall_inStep : ¬∀ c, system.Reach c → c.InStep := by
  intro h
  obtain ⟨c, hrun, hstate, hchild⟩ : ∃ c : Component,
      Lts.run step ⟨.notConfigured, ∅, ∅⟩
        [.addEventPort ['p'] .notConfigured, .request .configure [] [],
          .request .activate [['p']] []] = some c ∧
      c.state = .running ∧ ⟨.configured, true, false⟩ ∈ c.ports.values :=
    ⟨_, rfl, rfl, by decide⟩
  have hrunning := (h c (Lts.reach_of_run hrun)).1 hstate _ (.inl hchild)
  cases hrunning

end Component

/-! ## Children that keep up -/

/-- A child beside a component in this state. -/
structure Child.KeepsUp (child : Child) (componentState : State) : Prop where
  meets : child.strayed = false → Meets child.state componentState
  leftRunning : child.state = .running →
    componentState = .configured ∨ componentState = .notConfigured → child.leftRunning = true

namespace Child

theorem keepsUp_attach (state componentState : State) :
    (attach state componentState).KeepsUp componentState where
  meets h := by
    simpa only [attach, Bool.not_eq_false', decide_eq_true_eq] using h
  leftRunning h _ := decide_eq_true h

theorem keepsUp_settle {child : Child} {componentState : State}
    (h : child.KeepsUp componentState) : (child.settle componentState).KeepsUp componentState := by
  unfold settle
  split
  · rename_i hboth
    exact ⟨fun _ => hboth.2, h.leftRunning⟩
  · exact h

/-- Component and child take the same step, when the child's does not fail. -/
theorem keepsUp_transitionState {child : Child} {componentState newState : State}
    {t : Transition} (h : child.KeepsUp componentState)
    (hnext : componentState.next t = some newState) (fails : Bool) :
    (child.transitionState t fails).KeepsUp newState := by
  -- by the state of the component, the request and the state of the child
  obtain ⟨state, strayed, leftRunning⟩ := child
  obtain ⟨hmeets, hleft⟩ := h
  cases componentState <;> cases t <;> cases hnext <;> cases state <;> cases fails <;>
    constructor <;> simp_all [transitionState, State.next, Meets]

end Child

namespace Component

/-- Every port and worker keeps up with the component. -/
def Inv (c : Component) : Prop :=
  c.ports.Entries (fun _ child => child.KeepsUp c.state) ∧
    c.workers.Entries fun _ child => child.KeepsUp c.state

theorem entries_add {children : Table Text Child} {state : State}
    (h : children.Entries fun _ child => child.KeepsUp state) (name : Text) (childState : State) :
    (add children name (.attach childState state)).Entries fun _ child => child.KeepsUp state := by
  unfold add
  split
  · exact h
  · exact h.insert (Child.keepsUp_attach childState state)

theorem entries_handle {children : Table Text Child} {state newState : State} {t : Transition}
    (h : children.Entries fun _ child => child.KeepsUp state)
    (hnext : state.next t = some newState) (failing : List Text) :
    (handle children t failing newState).Entries fun _ child => child.KeepsUp newState :=
  h.mapEntries fun _ _ hchild =>
    Child.keepsUp_settle (Child.keepsUp_transitionState hchild hnext _)

theorem inductive_inv : system.InductiveBy (fun _ _ => True) Inv where
  init := by
    rintro _ rfl
    exact ⟨Table.Entries.empty, Table.Entries.empty⟩
  step := by
    rintro c a c' ⟨hports, hworkers⟩ - hstep
    cases a with
    | addEventPort name state =>
      obtain rfl := Option.some.inj hstep
      exact ⟨entries_add hports name state, hworkers⟩
    | addWorker name state =>
      obtain rfl := Option.some.inj hstep
      exact ⟨hports, entries_add hworkers name state⟩
    | removeWorker name =>
      obtain rfl := Option.some.inj hstep
      exact ⟨hports, hworkers.erase name⟩
    | request t failingPorts failingWorkers =>
      obtain rfl := Option.some.inj hstep
      unfold transitionState
      cases hnext : c.state.next t with
      | none => exact ⟨hports, hworkers⟩
      | some newState =>
        exact ⟨entries_handle hports hnext failingPorts,
          entries_handle hworkers hnext failingWorkers⟩

/-- In every reachable state a port or worker that met the component when it was last not configured
or when it was attached after that, and has not failed since, runs when the component reports
`RUNNING`. None of these runs while it reports `CONFIGURED` or `NOT_CONFIGURED`, and another one that
does was attached running or failed to terminate. -/
theorem inStep_of_reach {c : Component} (hc : system.Reach c) :
    (c.state = .running → ∀ child, c.Has child → child.strayed = false →
      child.state = .running) ∧
    (c.state = .configured ∨ c.state = .notConfigured → ∀ child, c.Has child →
      (child.strayed = false → child.state ≠ .running) ∧
        (child.state = .running → child.leftRunning = true)) := by
  have hkeeps : ∀ child, c.Has child → child.KeepsUp c.state := by
    obtain ⟨hports, hworkers⟩ := inductive_inv.reach hc
    rintro child (hmem | hmem)
    · obtain ⟨name, hname⟩ := Table.mem_values.mp hmem
      exact hports name child hname
    · obtain ⟨name, hname⟩ := Table.mem_values.mp hmem
      exact hworkers name child hname
  refine ⟨fun hrunning child hchild hclean => ?_, fun hidle child hchild => ⟨fun hclean => ?_, ?_⟩⟩
  · rcases (hkeeps child hchild).meets hclean with h | ⟨h, -⟩
    · exact h.trans hrunning
    · cases h.symm.trans hrunning
  · rcases (hkeeps child hchild).meets hclean with h | ⟨-, h⟩
    · rw [h]
      rcases hidle with h | h <;> rw [h] <;> decide
    · rw [h]
      decide
  · exact fun hrun => (hkeeps child hchild).leftRunning hrun hidle

/-- A worker whose `Terminate` failed still runs when the component is configured again. -/
theorem inStep_of_reach_leftRunning : ∃ c : Component, system.Reach c ∧
    c.state = .configured ∧ ⟨.running, true, true⟩ ∈ c.workers.values ∧
      (c.state = .running → ∀ child, c.Has child → child.strayed = false →
        child.state = .running) := by
  obtain ⟨c, hrun, hstate, hchild⟩ : ∃ c : Component,
      Lts.run step ⟨.notConfigured, ∅, ∅⟩
        [.addWorker ['w'] .notConfigured, .request .configure [] [], .request .activate [] [],
          .request .terminate [] [['w']], .request .configure [] []] = some c ∧
      c.state = .configured ∧ ⟨.running, true, true⟩ ∈ c.workers.values :=
    ⟨_, rfl, rfl, by decide⟩
  exact ⟨c, Lts.reach_of_run hrun, hstate, hchild, (inStep_of_reach (Lts.reach_of_run hrun)).1⟩

end Component

end Sem.Ports.Composite

import Mathlib.Data.List.Basic

/-!
# Loops under a thread manager

A port runs its loop on a thread of its own. The handlers start the thread, let it into the loop,
tell it to stop by a flag and wait for its end; handler and thread meet at a `ThreadManager`.

* `Phase`: what a handler can rely on between its operations, whatever the thread does meanwhile.
* `LoopOp.run_holds`: an operation that finds its phase does not throw and leads to the next one.
* `holds_threadStep`: the thread keeps every phase.
-/

namespace Sem.Ports

/-- `ThreadManager::State` but for `NONE`. -/
inductive ThreadState
  | configured | active | terminated
  deriving DecidableEq, Repr

/-- `ThreadManager::Transition`. -/
inductive ThreadTransition
  | activate | terminate
  deriving DecidableEq, Repr

/-- `ThreadManager`: what the thread reported, and what it was told. -/
structure ThreadManager where
  states : List ThreadState
  transitions : List ThreadTransition
  deriving DecidableEq, Repr

namespace ThreadManager

/-- `SetState`. -/
def setState (m : ThreadManager) (state : ThreadState) : ThreadManager :=
  { m with states := m.states.insert state }

/-- `SetTransition`; only a configured thread is activated. -/
def setTransition (m : ThreadManager) (transition : ThreadTransition) : ThreadManager :=
  if transition = .activate ∧ .configured ∉ m.states then m
  else { m with transitions := m.transitions.insert transition }

/-- `WaitForState` returns. -/
def Reached (m : ThreadManager) (state : ThreadState) : Prop :=
  state ∈ m.states ∨ .terminated ∈ m.states

instance (m : ThreadManager) (state : ThreadState) : Decidable (m.Reached state) :=
  inferInstanceAs (Decidable (_ ∨ _))

end ThreadManager

/-- Where the thread of a loop is; `β` are the points of the loop. -/
inductive LoopThread (β : Type)
  | absent | starting | waitActivate | activating
  | inside (point : β)
  | exiting | done
  /-- An exception left the loop. -/
  | crashed
  deriving DecidableEq, Repr

/-- A loop with its thread manager and its stop flag, which is `terminate_` or `interupt_`. -/
structure ManagedLoop (β : Type) where
  manager : Option ThreadManager
  thread : LoopThread β
  stop : Bool

/-- An operation of a handler on a loop. -/
inductive LoopOp
  | spawn | waitConfigured | setActivate | waitActive
  | interrupt | setTerminate | waitTerminated | reset
  deriving DecidableEq, Repr

/-- Why a handler throws. -/
inductive LoopError
  | activeThreadManager | noThreadManager
  deriving DecidableEq, Repr

section Loop

variable {β : Type}

namespace ManagedLoop

/-- A port without a loop. -/
def start : ManagedLoop β := ⟨none, .absent, false⟩

/-- The thread waits for the handler to report `state`. -/
def waitFor (l : ManagedLoop β) (state : ThreadState) :
    Option (Except LoopError (ManagedLoop β)) :=
  match l.manager with
  | some m => if m.Reached state then some (.ok l) else none
  | none => none

theorem eq_of_waitFor {l l' : ManagedLoop β} {state : ThreadState}
    (h : l.waitFor state = some (.ok l')) : l' = l := by
  rw [waitFor] at h
  split at h
  · split at h
    · exact (Except.ok.inj (Option.some.inj h)).symm
    · cases h
  · cases h

/-- One step of the thread outside of the loop, which begins at `entry`. -/
def threadStep (entry : β) (l : ManagedLoop β) : Option (ManagedLoop β) :=
  match l.manager, l.thread with
  | some m, .starting =>
    some { l with manager := some (m.setState .configured), thread := .waitActivate }
  | some m, .waitActivate =>
    if .activate ∈ m.transitions then some { l with thread := .activating }
    else if .terminate ∈ m.transitions then some { l with thread := .exiting }
    else none
  | some m, .activating =>
    some { l with manager := some (m.setState .active), thread := .inside entry }
  | some m, .exiting =>
    some { l with manager := some (m.setState .terminated), thread := .done }
  | _, _ => none

end ManagedLoop

/-- An operation; `none` while it waits. -/
def LoopOp.run (op : LoopOp) (l : ManagedLoop β) : Option (Except LoopError (ManagedLoop β)) :=
  match op with
  | .spawn =>
    match l.manager with
    | none => some (.ok { l with manager := some ⟨[], []⟩, thread := .starting })
    | some _ => some (.error .activeThreadManager)
  | .waitConfigured => l.waitFor .configured
  | .setActivate =>
    match l.manager with
    | some m => some (.ok { l with manager := some (m.setTransition .activate) })
    | none => some (.error .noThreadManager)
  | .waitActive => l.waitFor .active
  | .interrupt => some (.ok { l with stop := true })
  | .setTerminate =>
    match l.manager with
    | some m => some (.ok { l with manager := some (m.setTransition .terminate) })
    | none => some (.ok l)
  | .waitTerminated =>
    match l.manager with
    | some _ => l.waitFor .terminated
    | none => some (.ok l)
  | .reset =>
    -- the destructor waits for the end of the thread
    match l.manager, l.thread with
    | some _, .done => some (.ok { l with manager := none, thread := .absent })
    | some _, _ => none
    | none, _ => some (.ok l)

/-! ## Phases -/

/-- What a handler knows of a loop. -/
inductive Phase
  /-- There is no thread. -/
  | gone
  /-- The thread starts. -/
  | fresh
  /-- The thread waits to be activated. -/
  | ready
  /-- The thread waits to be activated, and the stop flag is clear. -/
  | armed
  /-- The thread is on its way into the loop, and the stop flag is clear. -/
  | going
  /-- The thread is in the loop, and the stop flag is clear. -/
  | up
  | any
  deriving DecidableEq, Repr

variable (stays : β → Prop)

/-- The thread is in the loop and was not told to leave, or an exception ended it there. -/
def LoopThread.Started (t : LoopThread β) : Prop :=
  (∃ point, t = .inside point ∧ stays point) ∨ t = .crashed

/-- The loop is in the phase. -/
def Holds (phase : Phase) (l : ManagedLoop β) : Prop :=
  match phase with
  | .gone => l.manager = none ∧ l.thread = .absent
  | .fresh => l.manager = some ⟨[], []⟩ ∧ l.thread = .starting ∨
      l.manager = some ⟨[.configured], []⟩ ∧ l.thread = .waitActivate
  | .ready => l.manager = some ⟨[.configured], []⟩ ∧ l.thread = .waitActivate
  | .armed => l.manager = some ⟨[.configured], []⟩ ∧ l.thread = .waitActivate ∧ l.stop = false
  | .going => l.stop = false ∧
      (l.manager = some ⟨[.configured], [.activate]⟩ ∧
        (l.thread = .waitActivate ∨ l.thread = .activating) ∨
      l.manager = some ⟨[.active, .configured], [.activate]⟩ ∧ l.thread.Started stays)
  | .up => l.stop = false ∧
      l.manager = some ⟨[.active, .configured], [.activate]⟩ ∧ l.thread.Started stays
  | .any => l.manager = none → l.thread = .absent

/-- The phase in which an operation may run. -/
def LoopOp.pre : LoopOp → Phase
  | .spawn => .gone
  | .waitConfigured => .fresh
  | .setActivate => .armed
  | .waitActive => .going
  | .interrupt | .setTerminate | .waitTerminated | .reset => .any

/-- The phase that an operation leads to. -/
def LoopOp.post : LoopOp → Phase
  | .spawn => .fresh
  | .waitConfigured => .ready
  | .setActivate => .going
  | .waitActive => .up
  | .interrupt | .setTerminate | .waitTerminated => .any
  | .reset => .gone

/-- The first phase is a case of the second. -/
def Phase.le (a b : Phase) : Bool :=
  a = b || b = .any || (a = .armed && b = .ready) || (a = .up && b = .going)

/-- The operations lead from one phase to the other. -/
def Leads : Phase → List LoopOp → Phase → Bool
  | a, [], b => a.le b
  | a, op :: ops, b => a.le op.pre && Leads op.post ops b

variable {stays} {phase : Phase} {l l' : ManagedLoop β}

theorem Holds.any (h : Holds stays phase l) : Holds stays .any l := by
  intro hnone
  cases phase with
  | gone => exact h.2
  | fresh =>
    obtain ⟨hm, -⟩ | ⟨hm, -⟩ := h <;> rw [hm] at hnone <;> cases hnone
  | ready =>
    rw [h.1] at hnone
    cases hnone
  | armed =>
    rw [h.1] at hnone
    cases hnone
  | going =>
    obtain ⟨-, ⟨hm, -⟩ | ⟨hm, -⟩⟩ := h <;> rw [hm] at hnone <;> cases hnone
  | up =>
    rw [h.2.1] at hnone
    cases hnone
  | any => exact h hnone

theorem Holds.mono {a b : Phase} (hle : a.le b = true) (h : Holds stays a l) :
    Holds stays b l := by
  simp only [Phase.le, Bool.or_eq_true, Bool.and_eq_true, decide_eq_true_eq] at hle
  obtain ((rfl | rfl) | ⟨rfl, rfl⟩) | ⟨rfl, rfl⟩ := hle
  · exact h
  · exact h.any
  · exact ⟨h.1, h.2.1⟩
  · exact ⟨h.1, .inr h.2⟩

/-- An operation in its phase does not throw, and it leads to the next phase. -/
theorem LoopOp.run_holds {op : LoopOp} {r : Except LoopError (ManagedLoop β)}
    (h : Holds stays op.pre l) (hrun : op.run l = some r) :
    ∃ l', r = .ok l' ∧ Holds stays op.post l' := by
  cases op with
  | spawn =>
    simp only [LoopOp.run, h.1, Option.some.injEq] at hrun
    exact ⟨_, hrun.symm, .inl ⟨rfl, rfl⟩⟩
  | waitConfigured =>
    obtain ⟨hm, ht⟩ | ⟨hm, ht⟩ := h
    · simp [LoopOp.run, ManagedLoop.waitFor, hm, ThreadManager.Reached] at hrun
    · simp only [LoopOp.run, ManagedLoop.waitFor, hm] at hrun
      obtain rfl := Option.some.inj hrun
      exact ⟨l, rfl, hm, ht⟩
  | setActivate =>
    obtain ⟨hm, ht, hstop⟩ := h
    simp only [LoopOp.run, hm, Option.some.injEq] at hrun
    exact ⟨_, hrun.symm, hstop, .inl ⟨rfl, .inl ht⟩⟩
  | waitActive =>
    obtain ⟨hstop, ⟨hm, -⟩ | ⟨hm, ht⟩⟩ := h
    · simp [LoopOp.run, ManagedLoop.waitFor, hm, ThreadManager.Reached] at hrun
    · simp only [LoopOp.run, ManagedLoop.waitFor, hm] at hrun
      obtain rfl := Option.some.inj hrun
      exact ⟨l, rfl, hstop, hm, ht⟩
  | interrupt =>
    obtain rfl := Option.some.inj hrun
    exact ⟨_, rfl, h⟩
  | setTerminate =>
    cases hm : l.manager with
    | none =>
      simp only [LoopOp.run, hm, Option.some.injEq] at hrun
      exact ⟨_, hrun.symm, h⟩
    | some m =>
      simp only [LoopOp.run, hm, Option.some.injEq] at hrun
      exact ⟨_, hrun.symm, fun hnone => by cases hnone⟩
  | waitTerminated =>
    cases hm : l.manager with
    | none =>
      simp only [LoopOp.run, hm, Option.some.injEq] at hrun
      exact ⟨_, hrun.symm, h⟩
    | some m =>
      simp only [LoopOp.run, ManagedLoop.waitFor, hm] at hrun
      split at hrun
      · obtain rfl := Option.some.inj hrun
        exact ⟨_, rfl, h⟩
      · cases hrun
  | reset =>
    cases hm : l.manager with
    | none =>
      simp only [LoopOp.run, hm, Option.some.injEq] at hrun
      exact ⟨_, hrun.symm, hm, h hm⟩
    | some m =>
      cases ht : l.thread with
      | done =>
        simp only [LoopOp.run, hm, ht, Option.some.injEq] at hrun
        exact ⟨_, hrun.symm, rfl, rfl⟩
      | _ => simp [LoopOp.run, hm, ht] at hrun

/-- An operation raises the flag, or leaves flag and thread as they are, or finds no thread in the
loop and leaves none there. -/
theorem LoopOp.run_cases {op : LoopOp} (hany : Holds stays .any l)
    (h : op.run l = some (.ok l')) : Holds stays .any l' ∧
      (op = .interrupt ∧ l' = { l with stop := true } ∨
        op ≠ .interrupt ∧ l'.stop = l.stop ∧ (l'.thread = l.thread ∨
          (l.thread = .absent ∨ l.thread = .done) ∧
            (l'.thread = .starting ∨ l'.thread = .absent))) := by
  cases op with
  | spawn =>
    simp only [LoopOp.run] at h
    split at h
    · rename_i hnone
      cases h
      exact ⟨fun hm => (by cases hm),
        .inr ⟨by decide, rfl, .inr ⟨.inl (hany hnone), .inl rfl⟩⟩⟩
    · cases h
  | waitConfigured =>
    obtain rfl := ManagedLoop.eq_of_waitFor h
    exact ⟨hany, .inr ⟨by decide, rfl, .inl rfl⟩⟩
  | setActivate =>
    simp only [LoopOp.run] at h
    split at h <;> cases h
    exact ⟨fun hm => (by cases hm), .inr ⟨by decide, rfl, .inl rfl⟩⟩
  | waitActive =>
    obtain rfl := ManagedLoop.eq_of_waitFor h
    exact ⟨hany, .inr ⟨by decide, rfl, .inl rfl⟩⟩
  | interrupt =>
    cases h
    exact ⟨hany, .inl ⟨rfl, rfl⟩⟩
  | setTerminate =>
    simp only [LoopOp.run] at h
    split at h <;> cases h
    · exact ⟨fun hm => (by cases hm), .inr ⟨by decide, rfl, .inl rfl⟩⟩
    · exact ⟨hany, .inr ⟨by decide, rfl, .inl rfl⟩⟩
  | waitTerminated =>
    simp only [LoopOp.run] at h
    split at h
    · obtain rfl := ManagedLoop.eq_of_waitFor h
      exact ⟨hany, .inr ⟨by decide, rfl, .inl rfl⟩⟩
    · cases h
      exact ⟨hany, .inr ⟨by decide, rfl, .inl rfl⟩⟩
  | reset =>
    simp only [LoopOp.run] at h
    split at h
    · rename_i hdone
      cases h
      exact ⟨fun _ => rfl, .inr ⟨by decide, rfl, .inr ⟨.inr hdone, .inr rfl⟩⟩⟩
    · cases h
    · cases h
      exact ⟨hany, .inr ⟨by decide, rfl, .inl rfl⟩⟩

/-- The thread keeps every phase. -/
theorem holds_threadStep {entry : β} (hentry : stays entry) (h : Holds stays phase l)
    (hstep : l.threadStep entry = some l') : Holds stays phase l' := by
  obtain ⟨manager, thread, stop⟩ := l
  cases phase with
  | gone =>
    obtain ⟨rfl, rfl⟩ := h
    cases hstep
  | fresh =>
    obtain ⟨rfl, rfl⟩ | ⟨rfl, rfl⟩ := h
    · obtain rfl := Option.some.inj hstep
      exact .inr ⟨rfl, rfl⟩
    · cases hstep
  | ready =>
    obtain ⟨rfl, rfl⟩ := h
    cases hstep
  | armed =>
    obtain ⟨rfl, rfl, -⟩ := h
    cases hstep
  | going =>
    obtain ⟨rfl, ⟨rfl, rfl | rfl⟩ | ⟨rfl, ⟨point, rfl, -⟩ | rfl⟩⟩ := h
    · obtain rfl := Option.some.inj hstep
      exact ⟨rfl, .inl ⟨rfl, .inr rfl⟩⟩
    · obtain rfl := Option.some.inj hstep
      exact ⟨rfl, .inr ⟨rfl, .inl ⟨entry, rfl, hentry⟩⟩⟩
    · cases hstep
    · cases hstep
  | up =>
    obtain ⟨rfl, rfl, ⟨point, rfl, -⟩ | rfl⟩ := h <;> cases hstep
  | any =>
    intro hnone
    cases manager with
    | none => cases hstep
    | some m =>
      cases thread with
      | starting =>
        obtain rfl := Option.some.inj hstep
        cases hnone
      | waitActivate =>
        simp only [ManagedLoop.threadStep] at hstep
        split at hstep
        · obtain rfl := Option.some.inj hstep
          cases hnone
        · split at hstep
          · obtain rfl := Option.some.inj hstep
            cases hnone
          · cases hstep
      | activating =>
        obtain rfl := Option.some.inj hstep
        cases hnone
      | exiting =>
        obtain rfl := Option.some.inj hstep
        cases hnone
      | _ => cases hstep

/-- A step inside the loop keeps every phase, if it leaves a clear flag clear and the loop only by
an exception. -/
theorem holds_inside {point : β} (h : Holds stays phase l) (hthread : l.thread = .inside point)
    (hmanager : l'.manager = l.manager)
    (hstays : l.stop = false → stays point → l'.stop = false ∧ l'.thread.Started stays) :
    Holds stays phase l' := by
  cases phase with
  | gone =>
    rw [h.2] at hthread
    cases hthread
  | fresh =>
    obtain ⟨-, ht⟩ | ⟨-, ht⟩ := h <;> rw [ht] at hthread <;> cases hthread
  | ready =>
    rw [h.2] at hthread
    cases hthread
  | armed =>
    rw [h.2.1] at hthread
    cases hthread
  | going =>
    obtain ⟨hstop, ⟨-, ht | ht⟩ | ⟨hm, ⟨q, hq, hstay⟩ | hc⟩⟩ := h
    · rw [ht] at hthread
      cases hthread
    · rw [ht] at hthread
      cases hthread
    · rw [hthread] at hq
      obtain rfl := LoopThread.inside.inj hq
      obtain ⟨hstop', hstarted⟩ := hstays hstop hstay
      exact ⟨hstop', .inr ⟨hmanager.trans hm, hstarted⟩⟩
    · rw [hc] at hthread
      cases hthread
  | up =>
    obtain ⟨hstop, hm, ⟨q, hq, hstay⟩ | hc⟩ := h
    · rw [hthread] at hq
      obtain rfl := LoopThread.inside.inj hq
      obtain ⟨hstop', hstarted⟩ := hstays hstop hstay
      exact ⟨hstop', hmanager.trans hm, hstarted⟩
    · rw [hc] at hthread
      cases hthread
  | any =>
    intro hnone
    rw [hmanager] at hnone
    have habsent := h hnone
    rw [hthread] at habsent
    cases habsent

end Loop

end Sem.Ports

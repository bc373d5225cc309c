import Sem.Ports.SubscriberPort

/-!
# Ports that run have their loops

A port that was activated has its loops running and its stop flags clear, unless a flag that was
raised earlier is still up: `ProcessLoop` takes its flag down only when it leaves by it, and
`TickLoop` never does.

* `LifecycleInv`: the loops are where the handlers can go on from, and a flag that is up was
  raised where no loop clears it, or is about to be cleared.
* `ready_of_reachBy`: in runs that activate a port only while no such flag was raised, a port that
  runs has its loops.
-/

namespace Sem.Ports

namespace SubscriberPort

/-- What is promised of a port that runs: its loops were started, and were not told to stop. -/
structure Ready (p : SubscriberPort) : Prop where
  process : p.process.thread.Started ProcessPoint.Stays ∧ p.process.stop = false
  tick : p.kind = .periodic →
    p.tick.thread.Started TickPoint.Stays ∧ p.tick.stop = false

/-- An activation that takes effect finds that every stop flag raised so far was raised where its
loop clears it. -/
def Activatable (p : SubscriberPort) : Action → Prop
  | .request .activate => p.machine.state = .configured → p.missed = false
  | _ => True

instance (p : SubscriberPort) : (a : Action) → Decidable (p.Activatable a)
  | .request .activate => inferInstanceAs (Decidable (_ → _))
  | .request .configure | .request .passivate | .request .terminate => .isTrue trivial
  | .handler | .process _ | .tick | .receive | .enqueue _ | .setMaxQueueSize _ => .isTrue trivial

/-! ## What a handler still has to do -/

/-- The phase of the loops of a port in this state. -/
def State.phase : State → Phase
  | .notConfigured => .gone
  | .configured => .ready
  | .running => .up
  | .notRunning => .any

/-- The operations on one loop. -/
def opsOn (loop : LoopName) (ops : List HandlerOp) : List LoopOp :=
  (ops.filter (·.loop = loop)).map HandlerOp.op

/-- The operations that are left of the request in progress. -/
def opsLeft (p : SubscriberPort) (loop : LoopName) : List LoopOp :=
  match p.machine.pending with
  | none => []
  | some pending => opsOn loop pending.ops

/-- The state that the request in progress leads to. -/
def target (p : SubscriberPort) : State :=
  match p.machine.pending with
  | none => p.machine.state
  | some pending => pending.newState

/-- The phase that the handlers leave a loop in; a subscriber port has no `TickLoop`. -/
def targetPhase (p : SubscriberPort) : LoopName → Phase
  | .process => State.phase p.target
  | .tick => if p.kind = .periodic then State.phase p.target else .gone

theorem opsOn_cons_self (loop : LoopName) (op : LoopOp) (ops : List HandlerOp) :
    opsOn loop (⟨loop, op⟩ :: ops) = op :: opsOn loop ops := by
  simp [opsOn]

theorem opsOn_cons_ne {loop other : LoopName} (h : other ≠ loop) (op : LoopOp)
    (ops : List HandlerOp) : opsOn loop (⟨other, op⟩ :: ops) = opsOn loop ops := by
  simp [opsOn, h]

/-- The operations of a transition on one loop. -/
def loopOps (t : Transition) : List LoopOp := (handleLoop .process t).map HandlerOp.op

theorem opsOn_handle_process (kind : PortKind) (t : Transition) :
    opsOn .process (kind.handle t) = loopOps t := by
  cases kind <;> cases t <;> rfl

theorem opsOn_handle_tick (kind : PortKind) (t : Transition) :
    opsOn .tick (kind.handle t) = if kind = .periodic then loopOps t else [] := by
  cases kind <;> cases t <;> rfl

/-- A request finds the loops in the phase that its operations need; an activation also needs the
stop flag clear. -/
theorem leads_loopOps {state newState : State} {t : Transition} (h : state.next t = some newState)
    (ht : t ≠ .activate) : Leads (State.phase state) (loopOps t) (State.phase newState) = true := by
  cases state <;> cases t <;> first | exact absurd rfl ht | (cases h <;> rfl)

theorem leads_activate : Leads .armed (loopOps .activate) (State.phase .running) = true := rfl

/-- The loops are where the rest of the handler needs them, and every stop flag that is up was
raised where its loop does not clear it, or is about to be cleared. -/
structure LifecycleInv (p : SubscriberPort) : Prop where
  process : ∃ phase, Holds ProcessPoint.Stays phase p.process ∧
    Leads phase (p.opsLeft .process) (p.targetPhase .process) = true
  tick : ∃ phase, Holds TickPoint.Stays phase p.tick ∧
    Leads phase (p.opsLeft .tick) (p.targetPhase .tick) = true
  staleProcess : p.process.stop = true →
    p.missed = true ∨ p.clears .process = true ∨ p.process.thread = .crashed
  staleTick : p.tick.stop = true → p.missed = true

theorem lifecycleInv_start (kind : PortKind) (callback : Bool) :
    LifecycleInv (start kind callback) where
  process := ⟨.gone, ⟨rfl, rfl⟩, rfl⟩
  tick := ⟨.gone, ⟨rfl, rfl⟩, by cases kind <;> rfl⟩
  staleProcess h := by cases h
  staleTick h := by cases h

variable {p p' : SubscriberPort}

/-- A port that runs has its loops. -/
theorem LifecycleInv.ready (h : LifecycleInv p) (hrun : p.machine.state = .running)
    (hidle : p.machine.pending = none) : Ready p := by
  obtain ⟨phase, hphase, hleads⟩ := h.process
  have hops : ∀ loop, p.opsLeft loop = [] := fun loop => by rw [opsLeft, hidle]
  have htarget : p.target = .running := by rw [target, hidle, ← hrun]
  rw [hops, targetPhase, htarget] at hleads
  obtain ⟨hstop, -, hstarted⟩ := hphase.mono hleads
  refine ⟨⟨hstarted, hstop⟩, fun hkind => ?_⟩
  obtain ⟨phase, hphase, hleads⟩ := h.tick
  rw [hops, targetPhase, htarget, if_pos hkind] at hleads
  obtain ⟨hstop, -, hstarted⟩ := hphase.mono hleads
  exact ⟨hstarted, hstop⟩

/-- A step that touches neither the request nor the loops. -/
theorem LifecycleInv.congr (h : LifecycleInv p) (hkind : p'.kind = p.kind)
    (hmachine : p'.machine = p.machine) (hprocess : p'.process = p.process)
    (htick : p'.tick = p.tick) (hmissed : p'.missed = p.missed) : LifecycleInv p' := by
  have hops : ∀ loop, p'.opsLeft loop = p.opsLeft loop := fun loop => by
    rw [opsLeft, opsLeft, hmachine]
  have htarget : ∀ loop, p'.targetPhase loop = p.targetPhase loop := by
    intro loop
    cases loop <;> simp only [targetPhase, target, hmachine, hkind]
  refine ⟨?_, ?_, ?_, ?_⟩
  · rw [hprocess, hops, htarget]
    exact h.process
  · rw [htick, hops, htarget]
    exact h.tick
  · rw [hprocess, hmissed, clears, hprocess]
    exact h.staleProcess
  · rw [htick, hmissed]
    exact h.staleTick

/-! ## Steps -/

/-- A request hands its operations to the handler. -/
theorem LifecycleInv.begin (h : LifecycleInv p) {t : Transition} {newState : State} {a : Phase}
    (hprocess : Holds ProcessPoint.Stays a p.process)
    (htick : Holds TickPoint.Stays (if p.kind = .periodic then a else .gone) p.tick)
    (hleads : Leads a (loopOps t) (State.phase newState) = true) :
    LifecycleInv { p with machine := { p.machine with
      transition := some t, pending := some ⟨newState, p.kind.handle t⟩ } } := by
  refine ⟨⟨a, hprocess, ?_⟩, ⟨_, htick, ?_⟩, h.staleProcess, h.staleTick⟩
  · show Leads a (opsOn .process (p.kind.handle t)) (State.phase newState) = true
    rw [opsOn_handle_process]
    exact hleads
  · show Leads (if p.kind = .periodic then a else .gone) (opsOn .tick (p.kind.handle t))
      (if p.kind = .periodic then State.phase newState else .gone) = true
    rw [opsOn_handle_tick]
    by_cases hkind : p.kind = .periodic
    · rw [if_pos hkind, if_pos hkind, if_pos hkind]
      exact hleads
    · rw [if_neg hkind, if_neg hkind, if_neg hkind]
      rfl

/-- Where no thread is in a loop, a flag that is up was raised where its loop does not clear it. -/
theorem LifecycleInv.stop_eq_false (h : LifecycleInv p) (hmissed : p.missed = false)
    (hthread : p.process.thread = .waitActivate) :
    p.process.stop = false ∧ p.tick.stop = false := by
  constructor
  · by_contra hstop
    obtain hm | hc | hcrash := h.staleProcess (eq_true_of_ne_false hstop)
    · rw [hmissed] at hm
      cases hm
    · rw [clears, hthread] at hc
      cases hc
    · rw [hthread] at hcrash
      cases hcrash
  · by_contra hstop
    have hm := h.staleTick (eq_true_of_ne_false hstop)
    rw [hmissed] at hm
    cases hm

theorem LifecycleInv.request (h : LifecycleInv p) {t : Transition}
    (hok : p.Activatable (.request t)) {m : StateMachine HandlerOp}
    (hrequest : p.machine.request p.kind.handle t = some m) :
    LifecycleInv { p with machine := m } := by
  rw [StateMachine.request] at hrequest
  split at hrequest
  · cases hrequest
  · rename_i hidle
    split at hrequest
    · obtain rfl := Option.some.inj hrequest
      exact h
    · rename_i newState hnext
      obtain rfl := Option.some.inj hrequest
      have hops : ∀ loop, p.opsLeft loop = [] := fun loop => by rw [opsLeft, hidle]
      have htarget : p.target = p.machine.state := by rw [target, hidle]
      obtain ⟨phase, hphase, hleads⟩ := h.process
      rw [hops, targetPhase, htarget] at hleads
      have hprocess := hphase.mono hleads
      obtain ⟨phase', hphase', hleads'⟩ := h.tick
      rw [hops, targetPhase, htarget] at hleads'
      have htick := hphase'.mono hleads'
      by_cases ht : t = .activate
      · subst ht
        -- the loops wait to be activated, where no flag of theirs can be up
        have hstate : p.machine.state = .configured := by
          cases hs : p.machine.state <;> rw [hs] at hnext <;> first | rfl | cases hnext
        obtain rfl : State.running = newState := by
          rw [hstate] at hnext
          exact Option.some.inj hnext
        rw [hstate] at hprocess htick
        obtain ⟨hstop, hstop'⟩ := h.stop_eq_false (hok hstate) hprocess.2
        refine h.begin (a := .armed) ⟨hprocess.1, hprocess.2, hstop⟩ ?_ leads_activate
        by_cases hkind : p.kind = .periodic
        · rw [if_pos hkind] at htick ⊢
          exact ⟨htick.1, htick.2, hstop'⟩
        · rw [if_neg hkind] at htick ⊢
          exact htick
      · exact h.begin hprocess htick (leads_loopOps hnext ht)

/-- An operation of the handler is done. -/
theorem LifecycleInv.runOp (h : LifecycleInv p) {newState : State} {op : HandlerOp}
    {ops : List HandlerOp} (hpending : p.machine.pending = some ⟨newState, op :: ops⟩)
    {r : Except LoopError SubscriberPort} (hrun : p.runOp op = some r) :
    ∃ q, r = .ok q ∧
      LifecycleInv { q with machine := { q.machine with pending := some ⟨newState, ops⟩ } } := by
  obtain ⟨phase, hphase, hleads⟩ := h.process
  obtain ⟨phase', hphase', hleads'⟩ := h.tick
  have htarget : p.target = newState := by rw [target, hpending]
  simp only [opsLeft, hpending, targetPhase, htarget] at hleads hleads'
  obtain ⟨loop, op⟩ := op
  cases loop with
  | process =>
    rw [opsOn_cons_self] at hleads
    rw [opsOn_cons_ne (by decide)] at hleads'
    obtain ⟨hle, hrest⟩ := Bool.and_eq_true_iff.mp hleads
    simp only [SubscriberPort.runOp, Option.map_eq_some_iff] at hrun
    obtain ⟨r, hr, rfl⟩ := hrun
    obtain ⟨l', rfl, hpost⟩ := LoopOp.run_holds (hphase.mono hle) hr
    refine ⟨_, rfl, ⟨_, hpost, hrest⟩, ⟨_, hphase', hleads'⟩, fun hstop => ?_, fun hstop => ?_⟩
    · obtain ⟨-, ⟨rfl, rfl⟩ | ⟨hne, hsame, hthread⟩⟩ := LoopOp.run_cases hphase.any hr
      · cases hc : p.clears .process with
        | true => exact .inr (.inl hc)
        | false => exact .inl (by simp)
      · have hold := h.staleProcess (hsame ▸ hstop)
        simp only [hne, decide_false, Bool.false_and, Bool.or_false]
        obtain hthread | ⟨hthread | hthread, -⟩ := hthread
        · rw [clears] at hold ⊢
          simp only [hthread]
          exact hold
        · rw [clears, hthread] at hold
          exact hold.imp_right fun hbad => by obtain hbad | hbad := hbad <;> cases hbad
        · rw [clears, hthread] at hold
          exact hold.imp_right fun hbad => by obtain hbad | hbad := hbad <;> cases hbad
    · rw [h.staleTick hstop]
      rfl
  | tick =>
    rw [opsOn_cons_ne (by decide)] at hleads
    rw [opsOn_cons_self] at hleads'
    obtain ⟨hle, hrest⟩ := Bool.and_eq_true_iff.mp hleads'
    simp only [SubscriberPort.runOp, Option.map_eq_some_iff] at hrun
    obtain ⟨r, hr, rfl⟩ := hrun
    obtain ⟨l', rfl, hpost⟩ := LoopOp.run_holds (hphase'.mono hle) hr
    refine ⟨_, rfl, ⟨_, hphase, hleads⟩, ⟨_, hpost, hrest⟩, fun hstop => ?_, fun hstop => ?_⟩
    · exact (h.staleProcess hstop).imp_left fun hm => by rw [hm]; rfl
    · obtain ⟨-, ⟨rfl, rfl⟩ | ⟨hne, hsame, -⟩⟩ := LoopOp.run_cases hphase'.any hr
      · simp [clears]
      · rw [h.staleTick (hsame ▸ hstop)]
        rfl

/-- The handler's next step. -/
theorem LifecycleInv.handlerStep (h : LifecycleInv p) (hstep : p.handlerStep = some p') :
    LifecycleInv p' := by
  rw [SubscriberPort.handlerStep] at hstep
  split at hstep
  · cases hstep
  · rename_i newState hpending
    obtain rfl := Option.some.inj hstep
    rw [StateMachine.finish]
    split
    · exact ⟨h.process, h.tick, h.staleProcess, h.staleTick⟩
    · obtain ⟨phase, hphase, hleads⟩ := h.process
      obtain ⟨phase', hphase', hleads'⟩ := h.tick
      simp only [opsLeft, hpending, targetPhase, target] at hleads hleads'
      exact ⟨⟨phase, hphase, hleads⟩, ⟨phase', hphase', hleads'⟩, h.staleProcess, h.staleTick⟩
  · rename_i newState op ops hpending
    rw [Option.map_eq_some_iff] at hstep
    obtain ⟨r, hr, rfl⟩ := hstep
    obtain ⟨q, rfl, hq⟩ := h.runOp hpending hr
    exact hq

/-- A step of the thread of `ProcessLoop` that keeps the phases, and clears the flag or leaves it to
be cleared. -/
theorem LifecycleInv.withProcess (h : LifecycleInv p) (hkind : p'.kind = p.kind)
    (hmachine : p'.machine = p.machine) (htick : p'.tick = p.tick) (hmissed : p'.missed = p.missed)
    (hphases : ∀ phase, Holds ProcessPoint.Stays phase p.process →
      Holds ProcessPoint.Stays phase p'.process)
    (hstop : p'.process.stop = true → p.process.stop = true)
    (hclears : p'.process.stop = true → p.clears .process = true ∨ p.process.thread = .crashed →
      p'.clears .process = true ∨ p'.process.thread = .crashed) : LifecycleInv p' := by
  have hops : ∀ loop, p'.opsLeft loop = p.opsLeft loop := fun loop => by
    rw [opsLeft, opsLeft, hmachine]
  have htarget : ∀ loop, p'.targetPhase loop = p.targetPhase loop := by
    intro loop
    cases loop <;> simp only [targetPhase, target, hmachine, hkind]
  obtain ⟨phase, hphase, hleads⟩ := h.process
  refine ⟨⟨phase, hphases phase hphase, ?_⟩, ?_, fun hup => ?_, ?_⟩
  · rw [hops, htarget]
    exact hleads
  · rw [htick, hops, htarget]
    exact h.tick
  · rw [hmissed]
    exact (h.staleProcess (hstop hup)).imp_right (hclears hup)
  · rw [htick, hmissed]
    exact h.staleTick

theorem LifecycleInv.processStep (h : LifecycleInv p) {outcome : Outcome}
    (hstep : p.processStep outcome = some p') : LifecycleInv p' := by
  rw [SubscriberPort.processStep] at hstep
  split at hstep
  · rename_i point hthread
    have hinside : ∀ {q : SubscriberPort}, q.process.manager = p.process.manager →
        (p.process.stop = false → point.Stays →
          q.process.stop = false ∧ q.process.thread.Started ProcessPoint.Stays) →
        ∀ phase, Holds ProcessPoint.Stays phase p.process →
          Holds ProcessPoint.Stays phase q.process := fun hm hs phase hphase =>
      holds_inside hphase hthread hm hs
    cases point with
    | wait =>
      simp only [processInside] at hstep
      split at hstep
      · obtain rfl := Option.some.inj hstep
        refine h.withProcess rfl rfl rfl rfl (hinside rfl fun hstop _ => ⟨rfl, .inl ⟨_, rfl, ?_⟩⟩)
          (fun hup => by cases hup) fun hup => by cases hup
        simp [ProcessPoint.Stays, hstop]
      · cases hstep
    | next running =>
      simp only [processInside] at hstep
      split at hstep
      · obtain rfl := Option.some.inj hstep
        refine h.withProcess rfl rfl rfl rfl (hinside rfl fun hstop hstay => ⟨hstop, .inl ?_⟩) id
          fun _ hold => ?_
        · exact ⟨.wait, if_pos hstay, trivial⟩
        · obtain hold | hold := hold
          · have hrunning : running = true := by
              rw [clears, hthread] at hold
              exact hold
            subst hrunning
            exact .inl rfl
          · rw [hthread] at hold
            cases hold
      · split at hstep
        · obtain rfl := Option.some.inj hstep
          refine h.withProcess rfl rfl rfl rfl
            (hinside rfl fun hstop hstay => ⟨hstop, .inl ⟨_, rfl, hstay⟩⟩) id fun _ hold => ?_
          simpa [clears, hthread] using hold
        · obtain rfl := Option.some.inj hstep
          refine h.withProcess rfl rfl rfl rfl
            (hinside rfl fun hstop hstay => ⟨hstop, .inl ⟨_, rfl, hstay⟩⟩) id fun _ hold => ?_
          simpa [clears, hthread] using hold
    | call running message =>
      simp only [processInside] at hstep
      split at hstep
      · obtain rfl := Option.some.inj hstep
        exact h.withProcess rfl rfl rfl rfl (hinside rfl fun hstop _ => ⟨hstop, .inr rfl⟩) id
          fun _ _ => .inr rfl
      · obtain rfl := Option.some.inj hstep
        refine h.withProcess rfl rfl rfl rfl
          (hinside rfl fun hstop hstay => ⟨hstop, .inl ⟨_, rfl, hstay⟩⟩) id fun _ hold => ?_
        simpa [clears, hthread] using hold
    | processed running =>
      obtain rfl := Option.some.inj hstep
      refine h.withProcess rfl rfl rfl rfl
        (hinside rfl fun hstop hstay => ⟨hstop, .inl ⟨_, rfl, hstay⟩⟩) id fun _ hold => ?_
      simpa [clears, hthread] using hold
  · rename_i hthread
    rw [Option.map_eq_some_iff] at hstep
    obtain ⟨l, hl, rfl⟩ := hstep
    have hstop : l.stop = p.process.stop := by
      rw [ManagedLoop.threadStep] at hl
      split at hl <;> try split at hl <;> try split at hl
      all_goals cases hl
      all_goals rfl
    have hentry : ProcessPoint.Stays .wait := trivial
    refine h.withProcess rfl rfl rfl rfl (fun phase hphase => holds_threadStep hentry hphase hl)
      (fun hup => hstop ▸ hup) fun _ hold => ?_
    -- outside of the loop nothing clears the flag, and a thread that crashed takes no step
    obtain hold | hold := hold
    · rw [clears] at hold
      split at hold
      · rename_i point hpoint
        exact absurd hpoint (hthread _)
      all_goals first | exact absurd ‹_› (hthread _) | cases hold
    · simp [ManagedLoop.threadStep, hold] at hl

/-- A step of the thread of `TickLoop`, which leaves its flag as it is. -/
theorem LifecycleInv.withTick (h : LifecycleInv p) (hkind : p'.kind = p.kind)
    (hmachine : p'.machine = p.machine) (hprocess : p'.process = p.process)
    (hmissed : p'.missed = p.missed)
    (hphases : ∀ phase, Holds TickPoint.Stays phase p.tick → Holds TickPoint.Stays phase p'.tick)
    (hstop : p'.tick.stop = p.tick.stop) : LifecycleInv p' := by
  have hops : ∀ loop, p'.opsLeft loop = p.opsLeft loop := fun loop => by
    rw [opsLeft, opsLeft, hmachine]
  have htarget : ∀ loop, p'.targetPhase loop = p.targetPhase loop := by
    intro loop
    cases loop <;> simp only [targetPhase, target, hmachine, hkind]
  obtain ⟨phase, hphase, hleads⟩ := h.tick
  refine ⟨?_, ⟨phase, hphases phase hphase, ?_⟩, ?_, ?_⟩
  · rw [hprocess, hops, htarget]
    exact h.process
  · rw [hops, htarget]
    exact hleads
  · rw [hprocess, hmissed, clears, hprocess]
    exact h.staleProcess
  · rw [hstop, hmissed]
    exact h.staleTick

theorem LifecycleInv.tickStep (h : LifecycleInv p) (hstep : p.tickStep = some p') :
    LifecycleInv p' := by
  rw [SubscriberPort.tickStep] at hstep
  split at hstep
  · rename_i point hthread
    obtain rfl := Option.some.inj hstep
    cases point with
    | wait =>
      rw [tickInside]
      split
      · rename_i hup
        refine h.withTick rfl rfl rfl rfl (fun phase hphase => ?_) rfl
        exact holds_inside hphase hthread rfl fun hclear => by rw [hup] at hclear; cases hclear
      · refine h.withTick rfl rfl rfl rfl (fun phase hphase => ?_) rfl
        exact holds_inside hphase hthread rfl fun hclear _ => ⟨hclear, .inl ⟨_, rfl, trivial⟩⟩
    | enqueue message =>
      refine h.withTick (by simp [tickInside]) (by simp [tickInside]) (by simp [tickInside])
        (by simp [tickInside]) (fun phase hphase => ?_) rfl
      exact holds_inside hphase hthread rfl fun hclear _ => ⟨hclear, .inl ⟨_, rfl, trivial⟩⟩
  · rw [Option.map_eq_some_iff] at hstep
    obtain ⟨l, hl, rfl⟩ := hstep
    have hstop : l.stop = p.tick.stop := by
      rw [ManagedLoop.threadStep] at hl
      split at hl <;> try split at hl <;> try split at hl
      all_goals cases hl
      all_goals rfl
    have hentry : TickPoint.Stays .wait := trivial
    exact h.withTick rfl rfl rfl rfl (fun phase hphase => holds_threadStep hentry hphase hl) hstop

/-! ## Runs -/

theorem inductiveBy_lifecycleInv (kind : PortKind) (callback : Bool) :
    (system kind callback).InductiveBy Activatable LifecycleInv where
  init := by
    rintro p rfl
    exact lifecycleInv_start kind callback
  step := by
    intro p a p' h hok hstep
    cases a with
    | request t =>
      obtain ⟨m, hm, rfl⟩ := Option.map_eq_some_iff.mp hstep
      exact h.request hok hm
    | handler => exact h.handlerStep hstep
    | process outcome => exact h.processStep hstep
    | tick => exact h.tickStep hstep
    | receive =>
      obtain rfl := Option.some.inj hstep
      exact h.congr rfl rfl rfl rfl rfl
    | enqueue message =>
      replace hstep : (if message ∈ p.arriving then _ else none) = some p' := hstep
      split at hstep
      · obtain rfl := Option.some.inj hstep
        exact h.congr (by simp) (by simp) (by simp) (by simp) (by simp)
      · cases hstep
    | setMaxQueueSize size =>
      obtain rfl := Option.some.inj hstep
      exact h.congr rfl rfl rfl rfl rfl

/-- A port that runs has its loops, in every run that activates it only while no stop flag was
raised where its loop does not clear it. -/
theorem ready_of_reachBy {kind : PortKind} {callback : Bool} {p : SubscriberPort}
    (h : (system kind callback).ReachBy Activatable p) (hrun : p.machine.state = .running)
    (hidle : p.machine.pending = none) : Ready p :=
  ((inductiveBy_lifecycleInv kind callback).reach h).ready hrun hidle

/-- `Configure` of a subscriber port, with the steps of its thread. -/
def configureRun : List Action :=
  [.request .configure, .handler, .process .returns, .handler, .handler, .handler]

/-- `Activate`. -/
def activateRun : List Action :=
  [.request .activate, .handler, .process .returns, .process .returns, .handler, .handler, .handler]

/-- A first activation. -/
theorem ready_of_reachBy_first : ∃ p, Lts.runBy step Activatable (start .subscriber true)
    (configureRun ++ activateRun) = some p ∧ Ready p := by
  obtain ⟨p, hp, hrun, hidle⟩ : ∃ p, Lts.runBy step Activatable (start .subscriber true)
      (configureRun ++ activateRun) = some p ∧ p.machine.state = .running ∧
        p.machine.pending = none := ⟨_, rfl, rfl, rfl⟩
  exact ⟨p, hp, ready_of_reachBy (Lts.reachBy_of_runBy hp) hrun hidle⟩

/-- `Terminate` before any activation; the thread never sees the flag. -/
def terminateRun : List Action :=
  [.request .terminate, .handler, .handler, .process .returns, .process .returns, .handler,
    .handler, .handler, .handler]

/-- A port that was terminated before its first activation is activated with the flag up. -/
theorem not_ready_of_terminated : ∃ p, Lts.run step (start .subscriber true)
    (configureRun ++ terminateRun ++ configureRun ++ activateRun) = some p ∧
      p.machine.state = .running ∧ p.machine.pending = none ∧ ¬ Ready p :=
  ⟨_, rfl, rfl, rfl, fun h => by cases h.process.2⟩

end SubscriberPort

end Sem.Ports

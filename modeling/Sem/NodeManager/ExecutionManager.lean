import Sem.Lib.Run
import Sem.Lib.Table
import Sem.Lib.Xml

/-!
# The start-up of an experiment, at the master

The master knows the slaves of its experiment from the control message. Each slave asks for its
configuration, reports that it is configured or why not, and reports at its end that it is
terminated. The execution loop waits for a promise, which the master settles when it counts the
slaves after each change. All requests are handled under `slave_state_mutex_`, one at a time.

Heartbeat times and the promise that ends the execution play no part in this. The map of late
joiners is never filled.

* `step`: one request, or `Terminate`.
* `promiseLawful_of_reachBy`: the promise is settled once, rightly, and in time, in every run in which no
  slave terminates too early and no report comes too late (`Clean`).
* `Inv.clean`: the condition is needed at every step.
-/

namespace Sem.NodeManager

open Xml (Text)

/-- `SlaveState`. -/
inductive SlaveState
  | offline | registered | configured | terminated | error
  deriving DecidableEq, Repr

/-- A container of the control message; nothing here looks at more than its id. -/
structure Container where
  id : Text
  configuration : Text
  deriving DecidableEq, Repr

/-- A node of the control message, with its containers. -/
structure Node where
  ipAddress : Text
  name : Text
  containers : List Container
  deriving DecidableEq, Repr

/-- The reply to a slave that starts up. -/
structure SlaveStartupReply where
  hostName : Text
  configuration : Container
  deriving DecidableEq, Repr

/-- What `execute_promise_` is settled with. -/
inductive Settlement
  | value
  | slavesHaveErrors (count : ℕ)
  | shutdown
  deriving DecidableEq, Repr

/-- The exceptions of the handlers. -/
inductive Exception
  /-- "not in experiment" -/
  | notInExperiment
  /-- "not in correct state" -/
  | incorrectState
  /-- `std::future_errc::promise_already_satisfied` -/
  | promiseAlreadySatisfied
  deriving DecidableEq, Repr

/-- The states of the slaves, and the promise that the experiment may be executed. -/
structure ExecutionManager where
  controlMessage : List Node
  slaveStatus : Table Text SlaveState
  executePromise : Option Settlement
  /-- History: each time the promise was settled, with the states of the slaves then. -/
  settlements : List (Settlement × Table Text SlaveState)
  /-- History: a request changed the state of a slave and threw then. -/
  threw : Bool

/-- The requests of slaves, and the end of the experiment. -/
inductive Action
  | slaveStartup (ip containerId : Text)
  | slaveConfigured (ip containerId : Text) (success : Bool)
  | slaveTerminated (ip containerId : Text)
  | slaveHeartbeat (ip containerId : Text)
  | terminate
  deriving DecidableEq, Repr

/-- `GetSlaveKey`. -/
def getSlaveKey (ip containerId : Text) : Text := ip ++ '_' :: containerId

namespace ExecutionManager

/-- `slave_status_` in `RequestDeployment`, which throws when a key comes twice. -/
def requestDeployment (controlMessage : List Node) : Option (Table Text SlaveState) :=
  (controlMessage.flatMap fun node =>
    node.containers.map fun container => getSlaveKey node.ipAddress container.id).foldlM
    (fun slaves key => if key ∈ slaves then none else some (slaves.insert key .offline)) ∅

/-- `set_value` and `set_exception` of `execute_promise_`. -/
def settle (m : ExecutionManager) (x : Settlement) : Except Exception ExecutionManager :=
  match m.executePromise with
  | none => .ok { m with
      executePromise := some x
      settlements := (x, m.slaveStatus) :: m.settlements }
  | some _ => .error .promiseAlreadySatisfied

/-- `GetSlaveStateCount`. -/
def getSlaveStateCount (m : ExecutionManager) (state : SlaveState) : ℕ :=
  m.slaveStatus.values.count state

/-- `HandleSlaveStateChange`: the promise is settled once all slaves are configured or in error. -/
def handleSlaveStateChange (m : ExecutionManager) : Except Exception ExecutionManager :=
  if m.getSlaveStateCount .configured = m.slaveStatus.values.length then m.settle .value
  else if m.getSlaveStateCount .configured + m.getSlaveStateCount .error =
      m.slaveStatus.values.length then
    m.settle (.slavesHaveErrors (m.getSlaveStateCount .error))
  else .ok m

/-- What is left when a handler returns or throws. -/
abbrev Handled (α : Type) := ExecutionManager × Except Exception α

/-- `SetSlaveState`: the state is changed, whatever becomes of the promise. -/
def setSlaveState (m : ExecutionManager) (key : Text) (state : SlaveState) : Handled Unit :=
  let changed := { m with slaveStatus := m.slaveStatus.adjust key fun _ => state }
  match changed.handleSlaveStateChange with
  | .ok m => (m, .ok ())
  | .error ex => (changed, .error ex)

/-- The containers of the control message that are the slave's. -/
def containersOf (controlMessage : List Node) (ip containerId : Text) : List SlaveStartupReply :=
  controlMessage.flatMap fun node =>
    if ip = node.ipAddress then
      (node.containers.filter fun container => decide (containerId = container.id)).map
        fun container => ⟨node.name, container⟩
    else []

/-- The loops of `HandleSlaveStartup` over the containers. -/
def assign (key : Text) : ExecutionManager → List SlaveStartupReply → Option SlaveStartupReply →
    Handled (Option SlaveStartupReply)
  | m, [], reply => (m, .ok reply)
  | m, found :: rest, _ =>
    match m.setSlaveState key .registered with
    | (m, .ok _) => assign key m rest (some found)
    | (m, .error ex) => (m, .error ex)

/-- `HandleSlaveStartup`: a slave that is offline gets its container. -/
def handleSlaveStartup (m : ExecutionManager) (ip containerId : Text) :
    Handled (Option SlaveStartupReply) :=
  match m.slaveStatus.lookup (getSlaveKey ip containerId) with
  | none => (m, .error .notInExperiment)
  | some .offline => assign (getSlaveKey ip containerId) m
      (containersOf m.controlMessage ip containerId) none
  | some _ => (m, .error .incorrectState)

/-- `HandleSlaveConfigured`. -/
def handleSlaveConfigured (m : ExecutionManager) (ip containerId : Text) (success : Bool) :
    Handled Unit :=
  match m.slaveStatus.lookup (getSlaveKey ip containerId) with
  | none => (m, .error .notInExperiment)
  | some .registered =>
    m.setSlaveState (getSlaveKey ip containerId) (if success then .configured else .error)
  | some _ => (m, .error .incorrectState)

/-- `HandleSlaveTerminated`. -/
def handleSlaveTerminated (m : ExecutionManager) (ip containerId : Text) : Handled Unit :=
  match m.slaveStatus.lookup (getSlaveKey ip containerId) with
  | none => (m, .error .notInExperiment)
  | some _ => m.setSlaveState (getSlaveKey ip containerId) .terminated

/-- `SetSlaveAlive` changes a heartbeat time only. -/
def handleSlaveHeartbeat (m : ExecutionManager) (ip containerId : Text) : Handled Unit :=
  match m.slaveStatus.lookup (getSlaveKey ip containerId) with
  | none => (m, .error .notInExperiment)
  | some _ => (m, .ok ())

/-- `Terminate`, as far as `execute_promise_` goes: a promise that is settled stays so. -/
def terminate (m : ExecutionManager) : ExecutionManager :=
  match m.settle .shutdown with
  | .ok m => m
  | .error _ => m

/-- The manager after a request, with a note of an exception that came after a change. -/
def note {α : Type} (handled : Handled α) : ExecutionManager :=
  match handled.2 with
  | .error .promiseAlreadySatisfied => { handled.1 with threw := true }
  | _ => handled.1

/-- One request; an exception of a handler leaves what it has changed. -/
def step (m : ExecutionManager) : Action → Option ExecutionManager
  | .slaveStartup ip containerId => some (note (m.handleSlaveStartup ip containerId))
  | .slaveConfigured ip containerId success =>
    some (note (m.handleSlaveConfigured ip containerId success))
  | .slaveTerminated ip containerId => some (note (m.handleSlaveTerminated ip containerId))
  | .slaveHeartbeat ip containerId => some (note (m.handleSlaveHeartbeat ip containerId))
  | .terminate => some m.terminate

/-- The master when its slaves are known. -/
def start (controlMessage : List Node) (slaves : Table Text SlaveState) : ExecutionManager :=
  ⟨controlMessage, slaves, none, [], false⟩

/-- The master of an experiment, once `RequestDeployment` has found its slaves. -/
def system (controlMessage : List Node) (slaves : Table Text SlaveState) :
    Lts ExecutionManager Action :=
  Lts.ofFun (start controlMessage slaves) step

/-! ## The law of the promise -/

/-- A slave that has not reported yet. -/
def Pending (state : SlaveState) : Prop := state = .offline ∨ state = .registered

instance (state : SlaveState) : Decidable (Pending state) :=
  inferInstanceAs (Decidable (_ ∨ _))

/-- The promise is settled at most once, with a value only when every slave is configured, and as
soon as no slave can report any more; and no change of a slave's state throws. -/
structure Lawful (m : ExecutionManager) : Prop where
  once : m.settlements.length ≤ 1
  value : ∀ slaves, (.value, slaves) ∈ m.settlements → ∀ state ∈ slaves.values, state = .configured
  settled : (∀ state ∈ m.slaveStatus.values, ¬Pending state) → m.settlements ≠ []
  safe : m.threw = false

/-- The states of the other slaves. -/
def others (m : ExecutionManager) (key : Text) : List SlaveState :=
  Table.values (m.slaveStatus.erase key)

/-- A slave's report comes in time: another slave is still waited for, or the promise is settled if
and only if a slave has terminated, be it this one. -/
def InTime (m : ExecutionManager) (key : Text) (state : SlaveState) : Prop :=
  (∃ other ∈ m.others key, Pending other) ∨
    (m.executePromise ≠ none ↔ state = .terminated ∨ .terminated ∈ m.others key)

instance (m : ExecutionManager) (key : Text) (state : SlaveState) :
    Decidable (m.InTime key state) :=
  inferInstanceAs (Decidable (_ ∨ _))

/-- Every report that changes the state of a slave comes in time. -/
def Clean (m : ExecutionManager) : Action → Prop
  | .slaveConfigured ip containerId success =>
    m.slaveStatus.lookup (getSlaveKey ip containerId) = some .registered →
      m.InTime (getSlaveKey ip containerId) (if success then .configured else .error)
  | .slaveTerminated ip containerId =>
    getSlaveKey ip containerId ∈ m.slaveStatus → m.InTime (getSlaveKey ip containerId) .terminated
  | .slaveStartup _ _ | .slaveHeartbeat _ _ | .terminate => True

instance (m : ExecutionManager) : ∀ a, Decidable (m.Clean a)
  | .slaveConfigured _ _ _ => inferInstanceAs (Decidable (_ → _))
  | .slaveTerminated _ _ => inferInstanceAs (Decidable (_ → _))
  | .slaveStartup _ _ | .slaveHeartbeat _ _ | .terminate => inferInstanceAs (Decidable True)

/-! ## One request -/

variable {m m' : ExecutionManager} {key : Text} {state : SlaveState}

/-- A slave that has reported how its configuration went, and not terminated. -/
def Reported (state : SlaveState) : Prop := state = .configured ∨ state = .error

/-- The states after a change: the new one and those of the other slaves. -/
theorem mem_values_adjust (h : key ∈ m.slaveStatus) {s : SlaveState} :
    s ∈ (m.slaveStatus.adjust key fun _ => state).values ↔ s = state ∨ s ∈ m.others key := by
  obtain ⟨v, hv⟩ := Table.mem_iff_lookup.mp h
  rw [Table.mem_values, others, Table.mem_values]
  constructor
  · rintro ⟨k, hk⟩
    rw [Table.lookup_adjust] at hk
    by_cases hkey : k = key
    · subst hkey
      rw [if_pos rfl, hv] at hk
      exact .inl (Option.some.inj hk).symm
    · rw [if_neg hkey] at hk
      exact .inr ⟨k, by rw [Table.lookup_erase, if_neg hkey, hk]⟩
  · rintro (rfl | ⟨k, hk⟩)
    · exact ⟨key, by rw [Table.lookup_adjust, if_pos rfl, hv]; rfl⟩
    · rw [Table.lookup_erase] at hk
      by_cases hkey : k = key
      · rw [if_pos hkey] at hk
        cases hk
      · rw [if_neg hkey] at hk
        exact ⟨k, by rw [Table.lookup_adjust, if_neg hkey, hk]⟩

theorem count_configured_eq {l : List SlaveState} :
    l.count .configured = l.length ↔ ∀ s ∈ l, s = .configured := by
  rw [List.count_eq_length]
  exact forall₂_congr fun _ _ => eq_comm

/-- The second comparison holds when no slave is in one of the three other states. -/
theorem count_reported_eq {l : List SlaveState} :
    l.count .configured + l.count .error = l.length ↔ ∀ s ∈ l, Reported s := by
  have hbound : ∀ l : List SlaveState, l.count .configured + l.count .error ≤ l.length := by
    intro l
    induction l with
    | nil => simp
    | cons s l ih => cases s <;> simp <;> omega
  induction l with
  | nil => simp
  | cons s l ih =>
    have := hbound l
    cases s <;> simp [Reported] <;> grind [Reported]

/-- The promise is settled when no slave is offline, registered or terminated. -/
theorem handleSlaveStateChange_cases (m : ExecutionManager) :
    ((∀ s ∈ m.slaveStatus.values, Reported s) ∧
      ∃ x, m.handleSlaveStateChange = m.settle x ∧
        (x = .value → ∀ s ∈ m.slaveStatus.values, s = .configured)) ∨
    ((¬∀ s ∈ m.slaveStatus.values, Reported s) ∧ m.handleSlaveStateChange = .ok m) := by
  unfold handleSlaveStateChange getSlaveStateCount
  split
  · next heq =>
    have hconfigured := count_configured_eq.mp heq
    exact .inl ⟨fun s hs => .inl (hconfigured s hs), .value, rfl, fun _ => hconfigured⟩
  · split
    · next heq =>
      exact .inl ⟨count_reported_eq.mp heq, _, rfl, fun hx => nomatch hx⟩
    · next hne => exact .inr ⟨fun h => hne (count_reported_eq.mpr h), rfl⟩

/-- What becomes of the manager when the state of a slave is set: only a slave that reports as the
last one has the promise settled, and that throws when it is settled already. -/
inductive Changed (m : ExecutionManager) (key : Text) (state : SlaveState) :
    ExecutionManager → Prop
  | quiet (hopen : ¬(Reported state ∧ ∀ s ∈ m.others key, Reported s)) :
    Changed m key state { m with slaveStatus := m.slaveStatus.adjust key fun _ => state }
  | settled (x : Settlement) (hall : Reported state ∧ ∀ s ∈ m.others key, Reported s)
      (hunsettled : m.executePromise = none)
      (hvalue : x = .value → ∀ s ∈ (m.slaveStatus.adjust key fun _ => state).values,
        s = .configured) :
    Changed m key state { m with
      slaveStatus := m.slaveStatus.adjust key fun _ => state
      executePromise := some x
      settlements := (x, m.slaveStatus.adjust key fun _ => state) :: m.settlements }
  | threw (hall : Reported state ∧ ∀ s ∈ m.others key, Reported s)
      (hsettled : m.executePromise ≠ none) :
    Changed m key state { m with
      slaveStatus := m.slaveStatus.adjust key fun _ => state
      threw := true }

theorem changed_setSlaveState (h : key ∈ m.slaveStatus) :
    Changed m key state (note (m.setSlaveState key state)) := by
  have hreported : (∀ s ∈ (m.slaveStatus.adjust key fun _ => state).values, Reported s) ↔
      Reported state ∧ ∀ s ∈ m.others key, Reported s := by
    simp only [mem_values_adjust h, forall_eq_or_imp]
  rw [setSlaveState]
  obtain ⟨hall, x, hx, hvalue⟩ | ⟨hopen, hx⟩ := handleSlaveStateChange_cases
    { m with slaveStatus := m.slaveStatus.adjust key fun _ => state }
  · simp only [hx]
    by_cases hpromise : m.executePromise = none
    · simp only [settle, hpromise, note]
      exact .settled x (hreported.mp hall) hpromise hvalue
    · obtain ⟨y, hy⟩ := Option.ne_none_iff_exists'.mp hpromise
      simp only [settle, hy, note]
      exact hy ▸ .threw (hreported.mp hall) hpromise
  · simp only [hx, note]
    exact .quiet fun h => hopen (hreported.mpr h)

/-! ## The invariant -/

/-- The law, with what ties the promise to its history. -/
structure Inv (m : ExecutionManager) : Prop extends m.Lawful where
  promise : m.executePromise = none ↔ m.settlements = []

theorem SlaveState.pending_or (s : SlaveState) : Pending s ∨ Reported s ∨ s = .terminated := by
  cases s <;> simp [Pending, Reported]

theorem Reported.not_pending {s : SlaveState} (h : Reported s) : ¬Pending s := by
  rcases h with rfl | rfl <;> simp [Pending]

theorem terminated_of_open {l : List SlaveState} (hstate : ¬Pending state)
    (hothers : ∀ s ∈ l, ¬Pending s) (hopen : ¬(Reported state ∧ ∀ s ∈ l, Reported s)) :
    state = .terminated ∨ .terminated ∈ l := by
  have hstates : ∀ s, ¬Pending s → s ≠ .terminated → Reported s := by
    intro s hpending hne
    rcases SlaveState.pending_or s with h | h | h
    · exact absurd h hpending
    · exact h
    · exact absurd h hne
  by_contra hcon
  rw [not_or] at hcon
  refine hopen ⟨hstates _ hstate hcon.1, fun s hs => hstates s (hothers s hs) ?_⟩
  rintro rfl
  exact hcon.2 hs

theorem not_terminated_of_reported {l : List SlaveState}
    (hall : Reported state ∧ ∀ s ∈ l, Reported s) : ¬(state = .terminated ∨ .terminated ∈ l) := by
  rintro (rfl | hmem)
  · exact absurd hall.1 (by simp [Reported])
  · exact absurd (hall.2 _ hmem) (by simp [Reported])

/-- A report keeps the law when it comes in time; a slave that registers cannot settle anything. -/
theorem Inv.changed (hi : m.Inv) (hkey : key ∈ m.slaveStatus) (hc : Changed m key state m')
    (h : Pending state ∨ m.InTime key state) : m'.Inv := by
  cases hc with
  | quiet hopen =>
    refine ⟨⟨hi.once, hi.value, fun hnone hempty => ?_, hi.safe⟩, hi.promise⟩
    have hstate : ¬Pending state := hnone state ((mem_values_adjust hkey).mpr (.inl rfl))
    have hothers : ∀ s ∈ m.others key, ¬Pending s :=
      fun s hs => hnone s ((mem_values_adjust hkey).mpr (.inr hs))
    rcases h with hpending | ⟨s, hs, hpending⟩ | hiff
    · exact hstate hpending
    · exact hothers s hs hpending
    · exact hiff.mpr (terminated_of_open hstate hothers hopen) (hi.promise.mpr hempty)
  | settled x hall hunsettled hvalue =>
    have hempty := hi.promise.mp hunsettled
    refine ⟨⟨by simp [hempty], ?_, fun _ => by simp, hi.safe⟩, by simp⟩
    intro slaves hmem
    simp only [hempty, List.mem_singleton, Prod.mk.injEq] at hmem
    obtain ⟨hx, rfl⟩ := hmem
    exact hvalue hx.symm
  | threw hall hsettled =>
    exfalso
    rcases h with hpending | ⟨s, hs, hpending⟩ | hiff
    · exact hall.1.not_pending hpending
    · exact (hall.2 s hs).not_pending hpending
    · exact not_terminated_of_reported hall (hiff.mp hsettled)

/-- A report that keeps the law came in time. -/
theorem Inv.inTime (hi : m.Inv) (hkey : key ∈ m.slaveStatus) (hc : Changed m key state m')
    (hstate : ¬Pending state) (hl : m'.Lawful) : m.InTime key state := by
  by_cases hpending : ∃ other ∈ m.others key, Pending other
  · exact .inl hpending
  · simp only [not_exists, not_and] at hpending
    refine .inr ?_
    cases hc with
    | quiet hopen =>
      have hsettled : m.executePromise ≠ none := by
        intro hnone
        refine hl.settled (fun s hs => ?_) (hi.promise.mp hnone)
        rcases (mem_values_adjust hkey).mp hs with rfl | hs
        · exact hstate
        · exact hpending s hs
      exact iff_of_true hsettled (terminated_of_open hstate hpending hopen)
    | settled x hall hunsettled =>
      exact iff_of_false (not_not.mpr hunsettled) (not_terminated_of_reported hall)
    | threw => exact absurd hl.safe (by simp)

theorem setSlaveState_registered (h : key ∈ m.slaveStatus) :
    m.setSlaveState key .registered =
      ({ m with slaveStatus := m.slaveStatus.adjust key fun _ => .registered }, .ok ()) := by
  rw [setSlaveState]
  obtain ⟨hall, -⟩ | ⟨-, hx⟩ := handleSlaveStateChange_cases
    { m with slaveStatus := m.slaveStatus.adjust key fun _ => .registered }
  · exact absurd (hall _ ((mem_values_adjust h).mpr (.inl rfl))) (by simp [Reported])
  · simp only [hx]

/-- A slave is registered without an exception. -/
theorem Inv.assign {l : List SlaveStartupReply} {reply : Option SlaveStartupReply} (hi : m.Inv)
    (hkey : key ∈ m.slaveStatus) : (note (assign key m l reply)).Inv := by
  induction l generalizing m reply with
  | nil => exact hi
  | cons found l ih =>
    rw [ExecutionManager.assign, setSlaveState_registered hkey]
    refine ih ?_ (Table.mem_adjust.mpr hkey)
    have hc := @changed_setSlaveState _ _ .registered hkey
    rw [setSlaveState_registered hkey] at hc
    exact hi.changed hkey hc (.inl (.inr rfl))

theorem Inv.terminate (hi : m.Inv) : m.terminate.Inv := by
  unfold ExecutionManager.terminate settle
  cases hpromise : m.executePromise with
  | none =>
    have hempty := hi.promise.mp hpromise
    exact ⟨⟨by simp [hempty], by simp [hempty], fun _ => by simp, hi.safe⟩, by simp⟩
  | some x => exact hi

theorem Inv.step (hi : m.Inv) {a : Action} (ha : m.Clean a) (h : m.step a = some m') : m'.Inv := by
  cases a with
  | slaveStartup ip containerId =>
    obtain rfl := Option.some.inj h
    unfold handleSlaveStartup
    split
    · exact hi
    · next hlookup => exact hi.assign (Table.mem_of_lookup hlookup)
    · exact hi
  | slaveConfigured ip containerId success =>
    obtain rfl := Option.some.inj h
    unfold handleSlaveConfigured
    split
    · exact hi
    · next hlookup =>
      have hkey := Table.mem_of_lookup hlookup
      exact hi.changed hkey (changed_setSlaveState hkey) (.inr (ha hlookup))
    · exact hi
  | slaveTerminated ip containerId =>
    obtain rfl := Option.some.inj h
    unfold handleSlaveTerminated
    split
    · exact hi
    · next hlookup =>
      have hkey := Table.mem_of_lookup hlookup
      exact hi.changed hkey (changed_setSlaveState hkey) (.inr (ha hkey))
  | slaveHeartbeat ip containerId =>
    obtain rfl := Option.some.inj h
    unfold handleSlaveHeartbeat
    split <;> exact hi
  | terminate =>
    obtain rfl := Option.some.inj h
    exact hi.terminate

/-- The condition on a report is needed: it keeps the law only in time. -/
theorem Inv.clean (hi : m.Inv) {a : Action} (h : m.step a = some m') (hl : m'.Lawful) :
    m.Clean a := by
  cases a with
  | slaveConfigured ip containerId success =>
    intro hlookup
    obtain rfl := Option.some.inj h
    have hkey := Table.mem_of_lookup hlookup
    unfold handleSlaveConfigured at hl
    simp only [hlookup] at hl
    refine hi.inTime hkey (changed_setSlaveState hkey) ?_ hl
    cases success <;> simp [Pending]
  | slaveTerminated ip containerId =>
    intro hkey
    obtain rfl := Option.some.inj h
    obtain ⟨state, hlookup⟩ := Table.mem_iff_lookup.mp hkey
    unfold handleSlaveTerminated at hl
    simp only [hlookup] at hl
    exact hi.inTime hkey (changed_setSlaveState hkey) (by simp [Pending]) hl
  | slaveStartup | slaveHeartbeat | terminate => trivial

/-! ## What a request leaves alone -/

theorem note_slaveStatus {α : Type} (handled : Handled α) :
    (note handled).slaveStatus = handled.1.slaveStatus := by
  unfold note
  split <;> rfl

theorem note_controlMessage {α : Type} (handled : Handled α) :
    (note handled).controlMessage = handled.1.controlMessage := by
  unfold note
  split <;> rfl

/-- Whatever becomes of the promise, only the state of the slave changes. -/
theorem setSlaveState_frame (m : ExecutionManager) (key : Text) (state : SlaveState) :
    (m.setSlaveState key state).1.slaveStatus = m.slaveStatus.adjust key (fun _ => state) ∧
      (m.setSlaveState key state).1.controlMessage = m.controlMessage := by
  rw [setSlaveState]
  obtain ⟨-, x, hx, -⟩ | ⟨-, hx⟩ := handleSlaveStateChange_cases
    { m with slaveStatus := m.slaveStatus.adjust key fun _ => state }
  · simp only [hx, settle]
    cases m.executePromise <;> exact ⟨rfl, rfl⟩
  · simp only [hx, and_self]

/-! ## Runs -/

/-- The loops of `RequestDeployment`, from some table on. -/
theorem foldlM_insert_offline {keys : List Text} {t t' : Table Text SlaveState}
    (h : keys.foldlM (fun slaves key =>
      if key ∈ slaves then none else some (slaves.insert key SlaveState.offline)) t = some t') :
    keys.Nodup ∧ (∀ key ∈ keys, key ∉ t) ∧ (∀ key, key ∈ t ∨ key ∈ keys → key ∈ t') ∧
      ∀ state ∈ t'.values, state = .offline ∨ state ∈ t.values := by
  induction keys generalizing t with
  | nil =>
    obtain rfl := Option.some.inj h
    exact ⟨List.nodup_nil, by simp, by simp, fun _ => .inr⟩
  | cons key keys ih =>
    rw [List.foldlM_cons] at h
    by_cases hkey : key ∈ t
    · rw [if_pos hkey] at h
      cases h
    · rw [if_neg hkey] at h
      obtain ⟨hnodup, hnot, hmem, hvalues⟩ := ih h
      simp only [AList.mem_insert, not_or] at hnot
      refine ⟨List.nodup_cons.mpr ⟨fun hmem => (hnot key hmem).1 rfl, hnodup⟩, ?_, ?_, ?_⟩
      · intro k hk
        rcases List.mem_cons.mp hk with rfl | hk
        · exact hkey
        · exact (hnot k hk).2
      · intro k hk
        apply hmem
        simp only [AList.mem_insert, List.mem_cons] at hk ⊢
        tauto
      · intro state hstate
        have := hvalues state hstate
        rw [Table.values_insert hkey, List.mem_cons] at this
        tauto

/-- Every slave starts offline, the keys are distinct, and no container of the control message is
left out. -/
theorem requestDeployment_spec {controlMessage : List Node} {slaves : Table Text SlaveState}
    (h : requestDeployment controlMessage = some slaves) :
    (controlMessage.flatMap fun node =>
        node.containers.map fun container => getSlaveKey node.ipAddress container.id).Nodup ∧
      (∀ key, slaves.lookup key = none ∨ slaves.lookup key = some .offline) ∧
      ∀ node ∈ controlMessage, ∀ container ∈ node.containers,
        slaves.lookup (getSlaveKey node.ipAddress container.id) = some .offline := by
  obtain ⟨hnodup, -, hmem, hvalues⟩ := foldlM_insert_offline h
  have hoffline : ∀ key, slaves.lookup key = none ∨ slaves.lookup key = some .offline := by
    intro key
    cases hlookup : slaves.lookup key with
    | none => exact .inl rfl
    | some state =>
      obtain rfl | hempty := hvalues state (Table.mem_values.mpr ⟨key, hlookup⟩)
      · exact .inr rfl
      · cases hempty
  refine ⟨hnodup, hoffline, fun node hnode container hcontainer => ?_⟩
  have hkey := hmem (getSlaveKey node.ipAddress container.id) (.inr (List.mem_flatMap.mpr
    ⟨node, hnode, List.mem_map.mpr ⟨container, hcontainer, rfl⟩⟩))
  obtain ⟨state, hstate⟩ := Table.mem_iff_lookup.mp hkey
  exact (hoffline _).resolve_left (by simp [hstate])

variable {controlMessage : List Node} {slaves : Table Text SlaveState}

theorem inv_start (hslaves : requestDeployment controlMessage = some slaves)
    (hcontainer : ∃ node ∈ controlMessage, node.containers ≠ []) :
    (start controlMessage slaves).Inv := by
  obtain ⟨-, -, hoffline⟩ := requestDeployment_spec hslaves
  obtain ⟨node, hnode, hne⟩ := hcontainer
  obtain ⟨container, hcontainer⟩ := List.exists_mem_of_ne_nil _ hne
  refine ⟨⟨by simp [start], by simp [start], fun hnone => ?_, rfl⟩, by simp [start]⟩
  have hvalue := Table.mem_values.mpr ⟨_, hoffline node hnode container hcontainer⟩
  exact absurd (.inl rfl) (hnone .offline hvalue)

/-- One node with two containers. -/
def twoSlaves : List Node := [⟨['n'], [], [⟨['1'], []⟩, ⟨['2'], []⟩]⟩]

/-- `slave_status_` of the two. -/
def twoSlavesStatus : Table Text SlaveState := (requestDeployment twoSlaves).getD ∅

/-- Two slaves, of which one terminates before the other is configured: nobody is waited for any
more and the promise is not settled. -/
theorem not_forall_lawful : ¬∀ controlMessage slaves m,
    requestDeployment controlMessage = some slaves →
    (∃ node ∈ controlMessage, node.containers ≠ []) →
    (system controlMessage slaves).Reach m → m.Lawful := by
  intro h
  have hrun : (Lts.run step (start twoSlaves twoSlavesStatus)
      [.slaveStartup ['n'] ['1'], .slaveConfigured ['n'] ['1'] true, .slaveTerminated ['n'] ['1'],
        .slaveStartup ['n'] ['2'], .slaveConfigured ['n'] ['2'] true]).any (fun m =>
      decide ((∀ state ∈ m.slaveStatus.values, ¬Pending state) ∧ m.settlements = [])) = true := by
    decide +kernel
  obtain ⟨m, hm, hlate⟩ := Option.any_eq_true _ _ |>.mp hrun
  obtain ⟨hnone, hempty⟩ := of_decide_eq_true hlate
  have hlawful := h twoSlaves twoSlavesStatus m rfl ⟨_, List.mem_singleton_self _, by simp⟩
    (Lts.reach_of_run hm)
  exact hlawful.settled hnone hempty

/-- In every run in which the reports come in time, the promise is settled at most once, with a
value only when all are configured, and as soon as nobody can report any more. -/
theorem promiseLawful_of_reachBy (hslaves : requestDeployment controlMessage = some slaves)
    (hcontainer : ∃ node ∈ controlMessage, node.containers ≠ [])
    (h : (system controlMessage slaves).ReachBy Clean m) : m.Lawful := by
  have hinv : (system controlMessage slaves).InductiveBy Clean Inv :=
    ⟨fun hinit => hinit ▸ inv_start hslaves hcontainer, fun hi ha hstep => hi.step ha hstep⟩
  exact (hinv.reach h).toLawful

/-- A run in which a slave terminates late enough. -/
theorem promiseLawful_of_reachBy_twoSlaves : ∃ m : ExecutionManager,
    m.slaveStatus.lookup (getSlaveKey ['n'] ['1']) = some .terminated ∧
      m.settlements.length = 1 ∧ m.Lawful := by
  have hrun : (Lts.runBy step Clean (start twoSlaves twoSlavesStatus)
      [.slaveStartup ['n'] ['1'], .slaveConfigured ['n'] ['1'] true,
        .slaveStartup ['n'] ['2'], .slaveConfigured ['n'] ['2'] true,
        .slaveTerminated ['n'] ['1'], .terminate]).any (fun m =>
      decide (m.slaveStatus.lookup (getSlaveKey ['n'] ['1']) = some .terminated ∧
        m.settlements.length = 1)) = true := by
    decide +kernel
  obtain ⟨m, hm, hend⟩ := Option.any_eq_true _ _ |>.mp hrun
  obtain ⟨hterminated, hlength⟩ := of_decide_eq_true hend
  exact ⟨m, hterminated, hlength,
    promiseLawful_of_reachBy rfl ⟨_, List.mem_singleton_self _, by simp⟩ (Lts.reachBy_of_runBy hm)⟩

end ExecutionManager

end Sem.NodeManager

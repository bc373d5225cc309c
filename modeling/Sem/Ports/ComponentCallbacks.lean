import Sem.Lib.Run
import Sem.Lib.Table
import Sem.Lib.Xml

/-!
# The callbacks of a component

A component keeps the callbacks of its ports in two maps: one has the types of a callback, the other
one its function. `RemoveCallback` takes a callback out of the second one only.

* `lawful_iff`: the maps have the same keys, and every callback is found and can be registered again,
  exactly if none was removed.
* `not_lawful`: a callback that is removed.
-/

namespace Sem.Ports

open Xml (Text)

universe u v

/-- `CallbackWrapper`, with what `typeid` gives for its types. -/
structure CallbackWrapper (TypeInfo : Type u) (Fn : Type v) where
  requestType : TypeInfo
  replyType : TypeInfo
  callbackFn : Fn
  deriving DecidableEq, Repr

/-- What the functions throw. -/
inductive CallbackError
  | alreadyRegistered (portName : Text)
  | noMatchingCallback (portName : Text)
  /-- `std::out_of_range` -/
  | outOfRange
  deriving DecidableEq, Repr

/-- The part of `Component` that its callbacks are. -/
structure ComponentCallbacks (TypeInfo : Type u) (Fn : Type v) where
  callbackFunctions : Table Text (CallbackWrapper TypeInfo Fn)
  callbackTypeHash : Table Text (TypeInfo × TypeInfo)

namespace ComponentCallbacks

variable {TypeInfo : Type u} {Fn : Type v}

/-- A component without callbacks. -/
def empty : ComponentCallbacks TypeInfo Fn := ⟨∅, ∅⟩

/-- `AddCallback`, for a wrapper of these types. -/
def addCallback (c : ComponentCallbacks TypeInfo Fn) (portName : Text)
    (callback : CallbackWrapper TypeInfo Fn) :
    Except CallbackError (ComponentCallbacks TypeInfo Fn) :=
  if portName ∈ c.callbackTypeHash ∨ portName ∈ c.callbackFunctions then
    .error (.alreadyRegistered portName)
  else .ok
    { callbackFunctions := c.callbackFunctions.insert portName callback
      callbackTypeHash :=
        c.callbackTypeHash.insert portName (callback.requestType, callback.replyType) }

/-- `RemoveCallback` -/
def removeCallback (c : ComponentCallbacks TypeInfo Fn) (portName : Text) :
    Bool × ComponentCallbacks TypeInfo Fn :=
  if portName ∈ c.callbackFunctions then
    (true, { c with callbackFunctions := c.callbackFunctions.erase portName })
  else (false, c)

variable [DecidableEq TypeInfo]

/-- `GotCallback` -/
def gotCallback (c : ComponentCallbacks TypeInfo Fn) (portName : Text)
    (requestType replyType : TypeInfo) : Bool :=
  match c.callbackTypeHash.lookup portName with
  | some value => value.1 = requestType && value.2 = replyType
  | none => false

/-- `GetCallback` -/
def getCallback (c : ComponentCallbacks TypeInfo Fn) (portName : Text)
    (requestType replyType : TypeInfo) : Except CallbackError (CallbackWrapper TypeInfo Fn) :=
  if c.gotCallback portName requestType replyType then
    match c.callbackFunctions.lookup portName with
    | some callback => .ok callback
    | none => .error .outOfRange
  else .error (.noMatchingCallback portName)

end ComponentCallbacks

/-! ## Runs -/

/-- A component with its history. -/
structure CallbackRun (TypeInfo : Type u) (Fn : Type v) where
  component : ComponentCallbacks TypeInfo Fn
  /-- The callback that was last added under a name and not removed since. -/
  registered : Text → Option (CallbackWrapper TypeInfo Fn)
  /-- The names whose callback was removed. -/
  removed : List Text

/-- The two calls. -/
inductive CallbackCall (TypeInfo : Type u) (Fn : Type v)
  | addCallback (portName : Text) (callback : CallbackWrapper TypeInfo Fn)
  | removeCallback (portName : Text)

namespace CallbackRun

variable {TypeInfo : Type u} {Fn : Type v}

/-- Before the first call. -/
def start : CallbackRun TypeInfo Fn := ⟨.empty, fun _ => none, []⟩

/-- One call; an exception leaves everything as it was. -/
def step (s : CallbackRun TypeInfo Fn) : CallbackCall TypeInfo Fn → CallbackRun TypeInfo Fn
  | .addCallback portName callback =>
    match s.component.addCallback portName callback with
    | .error _ => s
    | .ok component => { s with
        component := component
        registered := Function.update s.registered portName (some callback) }
  | .removeCallback portName =>
    match s.component.removeCallback portName with
    | (false, _) => s
    | (true, component) =>
      { component := component
        registered := Function.update s.registered portName none
        removed := portName :: s.removed }

variable (TypeInfo Fn) in
/-- The calls of `AddCallback` and `RemoveCallback` on a new component. -/
def system : Lts (CallbackRun TypeInfo Fn) (CallbackCall TypeInfo Fn) :=
  .ofFun start fun s call => some (s.step call)

variable [DecidableEq TypeInfo]

/-- What is promised of the callbacks. -/
structure Lawful (s : CallbackRun TypeInfo Fn) : Prop where
  sameKeys : ∀ portName,
    portName ∈ s.component.callbackTypeHash ↔ portName ∈ s.component.callbackFunctions
  getCallback : ∀ portName requestType replyType callback,
    s.component.getCallback portName requestType replyType = .ok callback ↔
      s.registered portName = some callback ∧
        callback.requestType = requestType ∧ callback.replyType = replyType
  addCallback : ∀ portName callback, s.registered portName = none →
    ∃ component, s.component.addCallback portName callback = .ok component

end CallbackRun

/-! ## The invariant -/

namespace CallbackRun

variable {TypeInfo : Type u} {Fn : Type v} {s s' : CallbackRun TypeInfo Fn}
  {call : CallbackCall TypeInfo Fn}

/-- The functions are what is registered, and the types those of what ever was: until a callback is
removed they are the same. -/
structure Books (s : CallbackRun TypeInfo Fn) : Prop where
  functions : ∀ portName, s.component.callbackFunctions.lookup portName = s.registered portName
  types : ∀ portName, portName ∉ s.removed →
    s.component.callbackTypeHash.lookup portName =
      (s.registered portName).map fun callback => (callback.requestType, callback.replyType)
  stale : ∀ portName ∈ s.removed,
    portName ∈ s.component.callbackTypeHash ∧ portName ∉ s.component.callbackFunctions

theorem books_start : (start : CallbackRun TypeInfo Fn).Books where
  functions _ := rfl
  types _ _ := rfl
  stale _ h := absurd h List.not_mem_nil

theorem Books.addCallback (h : s.Books) {portName : Text} {callback : CallbackWrapper TypeInfo Fn}
    (htypes : portName ∉ s.component.callbackTypeHash)
    (hfunctions : portName ∉ s.component.callbackFunctions) :
    (s.step (.addCallback portName callback)).Books := by
  have hstep : s.step (.addCallback portName callback) =
      { s with
        component :=
          { callbackFunctions := s.component.callbackFunctions.insert portName callback
            callbackTypeHash := s.component.callbackTypeHash.insert portName
              (callback.requestType, callback.replyType) }
        registered := Function.update s.registered portName (some callback) } := by
    simp only [step, ComponentCallbacks.addCallback, htypes, hfunctions, or_self, if_false]
  rw [hstep]
  refine ⟨fun p => ?_, fun p hp => ?_, fun p hp => ?_⟩
  · by_cases heq : p = portName
    · subst heq
      simp
    · simp [heq, h.functions p]
  · by_cases heq : p = portName
    · subst heq
      simp
    · simp [heq, h.types p hp]
  · obtain ⟨hmem, hnotMem⟩ := h.stale p hp
    have hne : p ≠ portName := fun heq => htypes (heq ▸ hmem)
    simp [hmem, hnotMem, hne]

theorem Books.removeCallback (h : s.Books) {portName : Text}
    (hmem : portName ∈ s.component.callbackFunctions) :
    (s.step (.removeCallback portName)).Books := by
  have hstep : s.step (.removeCallback portName) =
      { component := { s.component with
          callbackFunctions := s.component.callbackFunctions.erase portName }
        registered := Function.update s.registered portName none
        removed := portName :: s.removed } := by
    simp only [step, ComponentCallbacks.removeCallback, hmem, if_true]
  rw [hstep]
  refine ⟨fun p => ?_, fun p hp => ?_, fun p hp => ?_⟩
  · by_cases heq : p = portName
    · subst heq
      simp
    · simp [heq, h.functions p]
  · obtain ⟨hne, hp⟩ := not_or.mp (mt List.mem_cons.mpr hp)
    simp [hne, h.types p hp]
  · obtain rfl | hp := List.mem_cons.mp hp
    · -- the types were there, as the callback was never removed before
      have hnotMem : p ∉ s.removed := fun hp => (h.stale p hp).2 hmem
      obtain ⟨callback, hlookup⟩ := Table.mem_iff_lookup.mp hmem
      have htypes := h.types p hnotMem
      rw [← h.functions p, hlookup] at htypes
      exact ⟨Table.mem_of_lookup htypes, by simp⟩
    · obtain ⟨hp, hnotMem⟩ := h.stale p hp
      exact ⟨hp, by simp [hnotMem]⟩

theorem Books.step (h : s.Books) (call : CallbackCall TypeInfo Fn) : (s.step call).Books := by
  cases call with
  | addCallback portName callback =>
    by_cases hmem : portName ∈ s.component.callbackTypeHash ∨
        portName ∈ s.component.callbackFunctions
    · have hstep : s.step (.addCallback portName callback) = s := by
        simp only [CallbackRun.step, ComponentCallbacks.addCallback, hmem, if_true]
      rwa [hstep]
    · obtain ⟨htypes, hfunctions⟩ := not_or.mp hmem
      exact h.addCallback htypes hfunctions
  | removeCallback portName =>
    by_cases hmem : portName ∈ s.component.callbackFunctions
    · exact h.removeCallback hmem
    · have hstep : s.step (.removeCallback portName) = s := by
        simp only [CallbackRun.step, ComponentCallbacks.removeCallback, hmem, if_false]
      rwa [hstep]

theorem books_of_reach (h : (system TypeInfo Fn).Reach s) : s.Books := by
  refine Lts.InductiveBy.reach ⟨?_, ?_⟩ h
  · rintro s rfl
    exact books_start
  · intro s call s' hs _ hstep
    obtain rfl : s.step call = s' := Option.some.inj hstep
    exact hs.step call

variable [DecidableEq TypeInfo]

theorem Books.lawful (h : s.Books) (hremoved : s.removed = []) : s.Lawful := by
  have htypes : ∀ portName, s.component.callbackTypeHash.lookup portName =
      (s.registered portName).map fun callback => (callback.requestType, callback.replyType) :=
    fun portName => h.types portName (by simp [hremoved])
  have hmem : ∀ portName, portName ∈ s.component.callbackTypeHash ↔
      portName ∈ s.component.callbackFunctions := by
    intro portName
    rw [Table.mem_iff_lookup, Table.mem_iff_lookup, htypes, h.functions]
    cases s.registered portName <;> simp
  refine ⟨hmem, fun portName requestType replyType callback => ?_, fun portName callback hnone => ?_⟩
  · simp only [ComponentCallbacks.getCallback, ComponentCallbacks.gotCallback, htypes, h.functions]
    cases s.registered portName with
    | none => simp
    | some found =>
      by_cases hfound : found.requestType = requestType ∧ found.replyType = replyType
      · simp only [Option.map_some, hfound, decide_true, Bool.and_self, if_true,
          Except.ok.injEq, Option.some.injEq]
        exact ⟨fun heq => ⟨heq, heq ▸ hfound⟩, fun heq => heq.1⟩
      · have hgot : (decide (found.requestType = requestType) &&
            decide (found.replyType = replyType)) = false := by simpa using hfound
        simp only [Option.map_some, hgot, Bool.false_eq_true, if_false, Option.some.injEq,
          false_iff, reduceCtorEq]
        rintro ⟨rfl, htype⟩
        exact hfound htype
  · have hfunctions : portName ∉ s.component.callbackFunctions := by
      rw [Table.mem_iff_lookup, h.functions, hnone]
      simp
    have hboth : ¬ (portName ∈ s.component.callbackTypeHash ∨
        portName ∈ s.component.callbackFunctions) := by
      rw [hmem, or_self]
      exact hfunctions
    exact ⟨_, if_neg hboth⟩

/-- **The callbacks are as promised exactly if none was removed.** -/
theorem lawful_iff (h : (system TypeInfo Fn).Reach s) : s.Lawful ↔ s.removed = [] := by
  refine ⟨fun hlawful => ?_, (books_of_reach h).lawful⟩
  rw [List.eq_nil_iff_forall_not_mem]
  intro portName hmem
  obtain ⟨htypes, hfunctions⟩ := (books_of_reach h).stale portName hmem
  exact hfunctions ((hlawful.sameKeys portName).mp htypes)

/-- The callback of a periodic port. -/
def tick : CallbackWrapper ℕ Unit := ⟨1, 0, ()⟩

/-- To remove what is not there leaves the callbacks as promised, to remove one that is does not. -/
theorem lawful_iff_removed :
    (((start : CallbackRun ℕ Unit).step (.addCallback "tick".toList tick)).step
      (.removeCallback "tock".toList)).Lawful ∧
    ¬ ((((start : CallbackRun ℕ Unit).step (.addCallback "tick".toList tick)).step
      (.removeCallback "tock".toList)).step (.removeCallback "tick".toList)).Lawful := by
  have hstart : (system ℕ Unit).Reach start := .init rfl
  have hadded := hstart.next (CallbackCall.addCallback "tick".toList tick) rfl
  have hother := hadded.next (CallbackCall.removeCallback "tock".toList) rfl
  have hremoved := hother.next (CallbackCall.removeCallback "tick".toList) rfl
  exact ⟨(lawful_iff hother).mpr rfl, fun hlawful =>
    absurd ((lawful_iff hremoved).mp hlawful) (by decide +kernel)⟩

/-- A callback that was removed cannot be registered again. -/
theorem not_lawful : ∃ s : CallbackRun ℕ Unit, (system ℕ Unit).Reach s ∧
    s.registered "tick".toList = none ∧
    s.component.addCallback "tick".toList tick = .error (.alreadyRegistered "tick".toList) ∧
    ¬ s.Lawful := by
  let s : CallbackRun ℕ Unit :=
    (start.step (.addCallback "tick".toList tick)).step (.removeCallback "tick".toList)
  have hadded : (system ℕ Unit).Reach (start.step (.addCallback "tick".toList tick)) :=
    Lts.Reach.next (.init rfl) (.addCallback "tick".toList tick) rfl
  have hreach : (system ℕ Unit).Reach s := hadded.next (.removeCallback "tick".toList) rfl
  have hnone : s.registered "tick".toList = none := by decide +kernel
  have hadd : s.component.addCallback "tick".toList tick =
      .error (.alreadyRegistered "tick".toList) := rfl
  refine ⟨s, hreach, hnone, hadd, fun hlawful => ?_⟩
  obtain ⟨component, hok⟩ := hlawful.addCallback _ tick hnone
  rw [hadd] at hok
  cases hok

end CallbackRun

end Sem.Ports

import Sem.Lib.Run
import Sem.Lib.Table
import Mathlib.Data.List.Basic

/-!
# Event dispatcher

Events are submitted on some threads and given to a callback on another, the dispatch thread,
unless somebody waits for an event with its id. All operations and each turn of the dispatch
thread run under one mutex, so a run is an interleaving of them.

* `exactlyOnce_of_reach`: an event goes to the promise that is outstanding for its id, or else
  into the queue, from which the callback gets the events in order, and gets them all while the
  dispatcher runs.
* `terminated_and_overlooked`: an event without a callback ends the dispatch thread, and a request
  made after its event overlooks it.
-/

namespace Sem.FftAccel

/-- Where the dispatch thread is. -/
inductive DispatchThread
  /-- It reads `should_continue_running_`. -/
  | head
  /-- It is about to take the mutex. -/
  | turn
  /-- It waits for `event_occurred_`. -/
  | waiting
  /-- It was notified, and is about to look at the queue. -/
  | notified
  | finished
  /-- An exception left the loop. -/
  | terminated
  deriving DecidableEq, Repr

/-- `notify_one` and `notify_all`, for the only thread that waits. -/
def DispatchThread.notify : DispatchThread → DispatchThread
  | .waiting => .notified
  | t => t

/-- The errors of the dispatcher's functions. -/
inductive DispatcherError
  | callbackNotValid | promiseNotStored
  deriving DecidableEq, Repr

/-- `single_thread_dispatcher`, with callbacks in `κ` and promises in `π`. -/
structure Dispatcher (Id Data κ π : Type) where
  registeredCallback : Option κ
  eventQueue : List (Id × Data)
  promiseMap : Table Id π
  shouldContinueRunning : Bool
  thread : DispatchThread

namespace Dispatcher

variable {Id Data κ π : Type} [DecidableEq Id]

/-- The constructor. -/
def start : Dispatcher Id Data κ π := ⟨none, [], ∅, true, .head⟩

/-- `stop`: the thread is told to end and woken. -/
def stop (d : Dispatcher Id Data κ π) : Dispatcher Id Data κ π :=
  { d with shouldContinueRunning := false, thread := d.thread.notify }

/-- `submit_event`: the promise that is given the data. -/
def submitEvent (d : Dispatcher Id Data κ π) (id : Id) (data : Data) :
    Option π × Dispatcher Id Data κ π :=
  match d.promiseMap.lookup id with
  | some promise => (some promise, { d with promiseMap := d.promiseMap.erase id })
  | none =>
    (none, { d with eventQueue := d.eventQueue ++ [(id, data)], thread := d.thread.notify })

/-- `register_callback`; an empty function is refused. -/
def registerCallback (d : Dispatcher Id Data κ π) (callback : Option κ) :
    Except DispatcherError Unit × Dispatcher Id Data κ π :=
  match callback with
  | none => (.error .callbackNotValid, d)
  | some callback => (.ok (), { d with registeredCallback := some callback })

/-- `request_event`, which makes `promise` if it can be stored. -/
def requestEvent (d : Dispatcher Id Data κ π) (id : Id) (promise : π) :
    Except DispatcherError Unit × Dispatcher Id Data κ π :=
  if id ∈ d.promiseMap then (.error .promiseNotStored, d)
  else (.ok (), { d with promiseMap := d.promiseMap.insert id promise })

/-- One step of `run_dispatch_loop`: the call that is made. The callback returns. -/
def dispatchStep (d : Dispatcher Id Data κ π) :
    Option (Option (κ × Id × Data) × Dispatcher Id Data κ π) :=
  match d.thread with
  | .head => some (none, { d with thread := if d.shouldContinueRunning then .turn else .finished })
  | .turn =>
    match d.eventQueue with
    | event :: rest =>
      match d.registeredCallback with
      | some callback =>
        some (some (callback, event), { d with eventQueue := rest, thread := .head })
      | none => some (none, { d with thread := .terminated })
    | [] => some (none, { d with thread := if d.shouldContinueRunning then .waiting else .head })
  | .notified =>
    if d.eventQueue ≠ [] ∨ ¬ d.shouldContinueRunning then some (none, { d with thread := .head })
    else some (none, { d with thread := .waiting })
  | .waiting | .finished | .terminated => none

end Dispatcher

/-! ## Runs -/

section Runs

variable (Id Data κ : Type) [DecidableEq Id]

/-- A submission, with the request that was outstanding for its id. -/
structure Submission where
  id : Id
  data : Data
  outstanding : Option ℕ

/-- A call of `request_event`: whether its promise was stored, and what the promise was given. -/
structure EventRequest where
  id : Id
  granted : Bool
  given : List Data

/-- A dispatcher, with what happened to it, the oldest first. A promise is named by the number of
its request. -/
structure DispatcherRun where
  dispatcher : Dispatcher Id Data κ ℕ
  submitted : List (Submission Id Data)
  requests : List (EventRequest Id Data)
  called : List (κ × Id × Data)

/-- The calls from outside, and the steps of the thread. -/
inductive DispatcherAction
  | submitEvent (id : Id) (data : Data)
  | requestEvent (id : Id)
  | registerCallback (callback : Option κ)
  | stop
  /-- A step of the dispatch thread. -/
  | dispatch
  /-- A wake-up that nobody asked for. -/
  | wake

end Runs

/-- The steps of the thread. -/
def DispatcherAction.isDispatch {Id Data κ : Type} : DispatcherAction Id Data κ → Bool
  | .dispatch => true
  | _ => false

section Waiting

variable {Id Data : Type} [DecidableEq Id]

/-- The request waits for an event with this id. -/
def EventRequest.WaitsFor (r : EventRequest Id Data) (id : Id) : Prop :=
  r.id = id ∧ r.granted = true ∧ r.given = []

instance (r : EventRequest Id Data) (id : Id) : Decidable (r.WaitsFor id) :=
  inferInstanceAs (Decidable (_ ∧ _ ∧ _))

end Waiting

namespace DispatcherRun

variable {Id Data κ : Type} [DecidableEq Id]

/-- A dispatcher to which nothing has happened. -/
def start : DispatcherRun Id Data κ := ⟨.start, [], [], []⟩

/-- The request that is outstanding for the id. -/
def outstanding (requests : List (EventRequest Id Data)) (id : Id) : Option ℕ :=
  requests.findIdx? fun r => r.WaitsFor id

/-- One action. An exception that leaves the dispatch thread ends the process. -/
def step (s : DispatcherRun Id Data κ) (a : DispatcherAction Id Data κ) :
    Option (DispatcherRun Id Data κ) :=
  if s.dispatcher.thread = .terminated then none
  else match a with
  | .submitEvent id data =>
    let (promise, dispatcher) := s.dispatcher.submitEvent id data
    some { s with
      dispatcher := dispatcher
      submitted := s.submitted ++ [⟨id, data, outstanding s.requests id⟩]
      requests := match promise with
        | some n => s.requests.modify n fun r => { r with given := r.given ++ [data] }
        | none => s.requests }
  | .requestEvent id =>
    let (result, dispatcher) := s.dispatcher.requestEvent id s.requests.length
    some { s with
      dispatcher := dispatcher
      requests := s.requests ++ [⟨id, result.toBool, []⟩] }
  | .registerCallback callback =>
    some { s with dispatcher := (s.dispatcher.registerCallback callback).2 }
  | .stop => some { s with dispatcher := s.dispatcher.stop }
  | .dispatch => do
    let (call, dispatcher) ← s.dispatcher.dispatchStep
    pure { s with dispatcher := dispatcher, called := s.called ++ call.toList }
  | .wake => some { s with dispatcher := { s.dispatcher with thread := s.dispatcher.thread.notify } }

/-- The runs of a dispatcher. -/
def system (Id Data κ : Type) [DecidableEq Id] :
    Lts (DispatcherRun Id Data κ) (DispatcherAction Id Data κ) := .ofFun start step

/-- What is promised of events. -/
structure ExactlyOnce (s : DispatcherRun Id Data κ) : Prop where
  /-- The callback is given, in order, what no request was outstanding for; the rest of it is
  queued. -/
  toCallback : s.called.map (·.2) ++ s.dispatcher.eventQueue =
    (s.submitted.filter (·.outstanding.isNone)).map fun e => (e.id, e.data)
  /-- A request is given what was submitted while it was outstanding. -/
  toPromise : ∀ (n : ℕ) (r : EventRequest Id Data), s.requests[n]? = some r →
    r.given = (s.submitted.filter fun e => e.outstanding = some n).map Submission.data
  /-- A request that was outstanding for an event is one for its id. -/
  sameId : ∀ e ∈ s.submitted, ∀ n, e.outstanding = some n →
    ∃ r, s.requests[n]? = some r ∧ r.id = e.id ∧ r.granted = true
  /-- No promise is set twice. -/
  once : ∀ r ∈ s.requests, r.given.length ≤ 1
  /-- While the dispatcher runs, the dispatch thread does not sleep on a queued event. -/
  awake : s.dispatcher.shouldContinueRunning = true → s.dispatcher.eventQueue ≠ [] →
    s.dispatcher.thread ≠ .terminated → s.dispatcher.dispatchStep.isSome
  /-- With a callback, the steps of the dispatch thread give everything that is queued to it before
  `stop`, whatever else happens in between. -/
  delivers : s.dispatcher.shouldContinueRunning = true →
    s.dispatcher.registeredCallback.isSome = true →
    ∀ actions s', Lts.run step s actions = some s' → .stop ∉ actions →
      2 * s.dispatcher.eventQueue.length + 1 ≤ actions.countP (·.isDispatch) →
      s.called.map (·.2) ++ s.dispatcher.eventQueue <+: s'.called.map (·.2)

/-! ## The invariant -/

/-- The promises in the map are those of the requests that wait, and the dispatch thread sleeps
only when there is nothing to do. -/
structure Inv (s : DispatcherRun Id Data κ) : Prop where
  waits : ∀ (n : ℕ) (r : EventRequest Id Data), s.requests[n]? = some r → r.granted = true →
    r.given = [] → s.dispatcher.promiseMap.lookup r.id = some n
  promises : ∀ id n, s.dispatcher.promiseMap.lookup id = some n →
    ∃ r, s.requests[n]? = some r ∧ r.WaitsFor id
  asleep : s.dispatcher.thread = .waiting →
    s.dispatcher.eventQueue = [] ∧ s.dispatcher.shouldContinueRunning = true
  stopped : s.dispatcher.thread = .finished → s.dispatcher.shouldContinueRunning = false
  toCallback : s.called.map (·.2) ++ s.dispatcher.eventQueue =
    (s.submitted.filter (·.outstanding.isNone)).map fun e => (e.id, e.data)
  toPromise : ∀ (n : ℕ) (r : EventRequest Id Data), s.requests[n]? = some r →
    r.given = (s.submitted.filter fun e => e.outstanding = some n).map Submission.data
  sameId : ∀ e ∈ s.submitted, ∀ n, e.outstanding = some n →
    ∃ r, s.requests[n]? = some r ∧ r.id = e.id ∧ r.granted = true
  once : ∀ (n : ℕ) (r : EventRequest Id Data), s.requests[n]? = some r → r.given.length ≤ 1

variable {s s' : DispatcherRun Id Data κ}

theorem inv_start : Inv (start : DispatcherRun Id Data κ) where
  waits _ _ h := by cases h
  promises _ _ h := by cases h
  asleep h := by cases h
  stopped h := by cases h
  toCallback := rfl
  toPromise _ _ h := by cases h
  sameId _ h := by cases h
  once _ _ h := by cases h

/-- The request that is outstanding for an id has its promise in the map. -/
theorem Inv.outstanding_eq (h : Inv s) (id : Id) :
    outstanding s.requests id = s.dispatcher.promiseMap.lookup id := by
  rw [outstanding]
  cases hfind : s.requests.findIdx? fun r => r.WaitsFor id with
  | none =>
    cases hlookup : s.dispatcher.promiseMap.lookup id with
    | none => rfl
    | some n =>
      obtain ⟨r, hr, hwait⟩ := h.promises id n hlookup
      have hnot := List.findIdx?_eq_none_iff.mp hfind r (List.mem_of_getElem? hr)
      exact absurd hwait (by simpa using hnot)
  | some n =>
    obtain ⟨hn, hwait, -⟩ := List.findIdx?_eq_some_iff_getElem.mp hfind
    obtain ⟨hid, hgranted, hgiven⟩ := of_decide_eq_true hwait
    rw [← hid]
    exact (h.waits n _ (List.getElem?_eq_getElem hn) hgranted hgiven).symm

theorem Inv.awake (h : Inv s) (hrun : s.dispatcher.shouldContinueRunning = true)
    (hqueue : s.dispatcher.eventQueue ≠ []) (halive : s.dispatcher.thread ≠ .terminated) :
    s.dispatcher.dispatchStep.isSome := by
  rw [Dispatcher.dispatchStep]
  cases hthread : s.dispatcher.thread with
  | head => rfl
  | turn =>
    cases hq : s.dispatcher.eventQueue with
    | nil => exact absurd hq hqueue
    | cons event rest => cases s.dispatcher.registeredCallback <;> rfl
  | waiting => exact absurd (h.asleep hthread).1 hqueue
  | notified =>
    simp only
    split <;> rfl
  | finished =>
    rw [h.stopped hthread] at hrun
    cases hrun
  | terminated => exact absurd hthread halive

/-- A step that touches neither events nor requests. -/
theorem Inv.of_thread (h : Inv s) {d : Dispatcher Id Data κ ℕ}
    (hpromises : d.promiseMap = s.dispatcher.promiseMap)
    (hqueue : d.eventQueue = s.dispatcher.eventQueue)
    (hasleep : d.thread = .waiting → d.eventQueue = [] ∧ d.shouldContinueRunning = true)
    (hstopped : d.thread = .finished → d.shouldContinueRunning = false) :
    Inv { s with dispatcher := d } where
  waits := by
    rw [hpromises]
    exact h.waits
  promises := by
    rw [hpromises]
    exact h.promises
  asleep := hasleep
  stopped := hstopped
  toCallback := by
    rw [hqueue]
    exact h.toCallback
  toPromise := h.toPromise
  sameId := h.sameId
  once := h.once

theorem notify_ne_waiting (t : DispatchThread) : t.notify ≠ .waiting := by
  cases t <;> decide

theorem notify_eq_finished {t : DispatchThread} (h : t.notify = .finished) : t = .finished := by
  cases t <;> first | rfl | cases h

/-- What no request is outstanding for is queued. -/
theorem Inv.enqueue (h : Inv s) (id : Id) (data : Data) :
    Inv { s with
      dispatcher := { s.dispatcher with
        eventQueue := s.dispatcher.eventQueue ++ [(id, data)]
        thread := s.dispatcher.thread.notify }
      submitted := s.submitted ++ [⟨id, data, none⟩] } where
  waits := h.waits
  promises := h.promises
  asleep hthread := absurd hthread (notify_ne_waiting _)
  stopped hthread := h.stopped (notify_eq_finished hthread)
  toCallback := by
    rw [← List.append_assoc, h.toCallback, List.filter_append, List.map_append]
    rfl
  toPromise n r hr := by
    rw [h.toPromise n r hr, List.filter_append, List.map_append]
    simp
  sameId := by
    intro e he n hn
    obtain he | he := List.mem_append.mp he
    · exact h.sameId e he n hn
    · obtain rfl := List.mem_singleton.mp he
      cases hn
  once := h.once

/-- What a request is outstanding for is given to it. -/
theorem Inv.give (h : Inv s) {id : Id} {data : Data} {n : ℕ}
    (hlookup : s.dispatcher.promiseMap.lookup id = some n) :
    Inv { s with
      dispatcher := { s.dispatcher with promiseMap := s.dispatcher.promiseMap.erase id }
      submitted := s.submitted ++ [⟨id, data, some n⟩]
      requests := s.requests.modify n fun r => { r with given := r.given ++ [data] } } := by
  obtain ⟨r₀, hr₀, hid, hgranted, hgiven⟩ := h.promises id n hlookup
  have hself : (s.requests.modify n fun r => { r with given := r.given ++ [data] })[n]? =
      some { r₀ with given := [data] } := by
    rw [List.getElem?_modify, hr₀]
    simp [hgiven]
  have hother : ∀ m, m ≠ n → (s.requests.modify n fun r =>
      { r with given := r.given ++ [data] })[m]? = s.requests[m]? := by
    intro m hm
    rw [List.getElem?_modify]
    cases s.requests[m]? <;> simp [Ne.symm hm]
  refine
    { waits := fun m r hr hg he => ?_, promises := fun id' m hm => ?_, asleep := h.asleep
      stopped := h.stopped, toCallback := ?_, toPromise := fun m r hr => ?_
      sameId := fun e he m hm => ?_, once := fun m r hr => ?_ }
  · by_cases hmn : m = n
    · subst hmn
      obtain rfl := Option.some.inj (hself.symm.trans hr)
      cases he
    · rw [hother m hmn] at hr
      have hlook := h.waits m r hr hg he
      rw [Table.lookup_erase, if_neg]
      · exact hlook
      · rintro rfl
        rw [hlookup] at hlook
        exact hmn (Option.some.inj hlook).symm
  · rw [Table.lookup_erase] at hm
    by_cases heq : id' = id
    · rw [if_pos heq] at hm
      cases hm
    · rw [if_neg heq] at hm
      obtain ⟨r, hr, hwait⟩ := h.promises id' m hm
      have hmn : m ≠ n := by
        rintro rfl
        obtain rfl := Option.some.inj (hr₀.symm.trans hr)
        exact heq (hwait.1.symm.trans hid)
      exact ⟨r, by rw [hother m hmn, hr], hwait⟩
  · rw [h.toCallback, List.filter_append, List.map_append]
    simp
  · rw [List.filter_append, List.map_append]
    by_cases hmn : m = n
    · subst hmn
      obtain rfl := Option.some.inj (hself.symm.trans hr)
      rw [← h.toPromise m r₀ hr₀, hgiven]
      simp
    · rw [hother m hmn] at hr
      rw [h.toPromise m r hr]
      simp [Ne.symm hmn]
  · have hkept : ∀ r, s.requests[m]? = some r → ∃ r', (s.requests.modify n fun r =>
        { r with given := r.given ++ [data] })[m]? = some r' ∧ r'.id = r.id ∧
          r'.granted = r.granted := by
      intro r hr
      by_cases hmn : m = n
      · subst hmn
        obtain rfl := Option.some.inj (hr₀.symm.trans hr)
        exact ⟨_, hself, rfl, rfl⟩
      · exact ⟨r, by rw [hother m hmn, hr], rfl, rfl⟩
    obtain he | he := List.mem_append.mp he
    · obtain ⟨r, hr, hrid, hrg⟩ := h.sameId e he m hm
      obtain ⟨r', hr', hid', hg'⟩ := hkept r hr
      exact ⟨r', hr', hid'.trans hrid, hg'.trans hrg⟩
    · obtain rfl := List.mem_singleton.mp he
      obtain rfl := Option.some.inj hm
      obtain ⟨r', hr', hid', hg'⟩ := hkept r₀ hr₀
      exact ⟨r', hr', hid'.trans hid, hg'.trans hgranted⟩
  · by_cases hmn : m = n
    · subst hmn
      obtain rfl := Option.some.inj (hself.symm.trans hr)
      exact Nat.le_refl 1
    · rw [hother m hmn] at hr
      exact h.once m r hr

/-- One more request, which nothing was submitted for yet. -/
theorem Inv.append (h : Inv s) {d : Dispatcher Id Data κ ℕ} {r : EventRequest Id Data}
    (hgiven : r.given = []) (hqueue : d.eventQueue = s.dispatcher.eventQueue)
    (hrunning : d.shouldContinueRunning = s.dispatcher.shouldContinueRunning)
    (hthread : d.thread = s.dispatcher.thread)
    (hwaits : r.granted = true → d.promiseMap.lookup r.id = some s.requests.length)
    (hold : ∀ id n, s.dispatcher.promiseMap.lookup id = some n → d.promiseMap.lookup id = some n)
    (hnew : ∀ id n, d.promiseMap.lookup id = some n →
      s.dispatcher.promiseMap.lookup id = some n ∨
        n = s.requests.length ∧ r.WaitsFor id) :
    Inv { s with dispatcher := d, requests := s.requests ++ [r] } := by
  have hlast : ∀ {m : ℕ} {q : EventRequest Id Data}, (s.requests ++ [r])[m]? = some q →
      s.requests[m]? = some q ∨ m = s.requests.length ∧ q = r := by
    intro m q hq
    by_cases hm : m < s.requests.length
    · rw [List.getElem?_append_left hm] at hq
      exact .inl hq
    · rw [List.getElem?_append_right (by omega), List.getElem?_singleton] at hq
      split at hq
      · exact .inr ⟨by omega, (Option.some.inj hq).symm⟩
      · cases hq
  have hkept : ∀ {m : ℕ} {q : EventRequest Id Data}, s.requests[m]? = some q →
      (s.requests ++ [r])[m]? = some q := by
    intro m q hq
    rw [List.getElem?_append_left (List.getElem?_eq_some_iff.mp hq).1, hq]
  refine
    { waits := fun m q hq hg he => ?_, promises := fun id m hm => ?_, asleep := ?_, stopped := ?_
      toCallback := ?_, toPromise := fun m q hq => ?_, sameId := fun e he m hm => ?_
      once := fun m q hq => ?_ }
  · obtain hq | ⟨rfl, rfl⟩ := hlast hq
    · exact hold _ _ (h.waits m q hq hg he)
    · exact hwaits hg
  · obtain hm | ⟨rfl, hwait⟩ := hnew id m hm
    · obtain ⟨q, hq, hwait⟩ := h.promises id m hm
      exact ⟨q, hkept hq, hwait⟩
    · exact ⟨r, by simp, hwait⟩
  · rw [hthread, hqueue, hrunning]
    exact h.asleep
  · rw [hthread, hrunning]
    exact h.stopped
  · rw [hqueue]
    exact h.toCallback
  · obtain hq | ⟨rfl, rfl⟩ := hlast hq
    · exact h.toPromise m q hq
    · have hnone : (s.submitted.filter fun e => e.outstanding = some s.requests.length) = [] := by
        rw [List.filter_eq_nil_iff]
        intro e he hout
        obtain ⟨q', hq', -⟩ := h.sameId e he _ (of_decide_eq_true hout)
        have hlt := (List.getElem?_eq_some_iff.mp hq').1
        omega
      rw [hgiven, hnone]
      rfl
  · obtain ⟨q, hq, hid⟩ := h.sameId e he m hm
    exact ⟨q, hkept hq, hid⟩
  · obtain hq | ⟨rfl, rfl⟩ := hlast hq
    · exact h.once m q hq
    · rw [hgiven]
      exact Nat.zero_le 1

/-- A request that is refused, or whose promise is stored. -/
theorem Inv.requestEvent (h : Inv s) (id : Id) :
    Inv { s with
      dispatcher := (s.dispatcher.requestEvent id s.requests.length).2
      requests := s.requests ++
        [⟨id, (s.dispatcher.requestEvent id s.requests.length).1.toBool, []⟩] } := by
  rw [Dispatcher.requestEvent]
  by_cases hmem : id ∈ s.dispatcher.promiseMap
  · rw [if_pos hmem]
    exact h.append rfl rfl rfl rfl (fun hg => by cases hg) (fun _ _ hn => hn) fun _ _ hn => .inl hn
  · rw [if_neg hmem]
    have hnone : s.dispatcher.promiseMap.lookup id = none := AList.lookup_eq_none.mpr hmem
    refine h.append rfl rfl rfl rfl (fun _ => AList.lookup_insert _) (fun id' n hn => ?_)
      fun id' n hn => ?_
    · rw [Table.lookup_insert, if_neg]
      · exact hn
      · rintro rfl
        rw [hnone] at hn
        cases hn
    · rw [Table.lookup_insert] at hn
      by_cases heq : id' = id
      · rw [if_pos heq] at hn
        exact .inr ⟨(Option.some.inj hn).symm, heq.symm, rfl, rfl⟩
      · rw [if_neg heq] at hn
        exact .inl hn

/-- A step of the dispatch thread. -/
theorem Inv.dispatch (h : Inv s) {call : Option (κ × Id × Data)} {d : Dispatcher Id Data κ ℕ}
    (hstep : s.dispatcher.dispatchStep = some (call, d)) :
    Inv { s with dispatcher := d, called := s.called ++ call.toList } := by
  rw [Dispatcher.dispatchStep] at hstep
  cases hthread : s.dispatcher.thread with
  | head =>
    simp only [hthread, Option.some.injEq, Prod.mk.injEq] at hstep
    obtain ⟨rfl, rfl⟩ := hstep
    rw [Option.toList_none, List.append_nil]
    refine h.of_thread rfl rfl (fun hw => ?_) fun hf => ?_
    · by_cases hrun : s.dispatcher.shouldContinueRunning = true <;> simp [hrun] at hw
    · by_cases hrun : s.dispatcher.shouldContinueRunning = true <;> simp [hrun] at hf ⊢
  | turn =>
    simp only [hthread] at hstep
    cases hqueue : s.dispatcher.eventQueue with
    | nil =>
      simp only [hqueue, Option.some.injEq, Prod.mk.injEq] at hstep
      obtain ⟨rfl, rfl⟩ := hstep
      rw [Option.toList_none, List.append_nil]
      refine h.of_thread rfl hqueue.symm (fun hw => ?_) fun hf => ?_
      · by_cases hrun : s.dispatcher.shouldContinueRunning = true
        · exact ⟨rfl, hrun⟩
        · simp [hrun] at hw
      · by_cases hrun : s.dispatcher.shouldContinueRunning = true <;> simp [hrun] at hf
    | cons event rest =>
      simp only [hqueue] at hstep
      cases hcallback : s.dispatcher.registeredCallback with
      | none =>
        simp only [hcallback, Option.some.injEq, Prod.mk.injEq] at hstep
        obtain ⟨rfl, rfl⟩ := hstep
        rw [Option.toList_none, List.append_nil]
        exact h.of_thread rfl hqueue.symm (fun hw => by cases hw) fun hf => by cases hf
      | some callback =>
        simp only [hcallback, Option.some.injEq, Prod.mk.injEq] at hstep
        obtain ⟨rfl, rfl⟩ := hstep
        exact
          { waits := h.waits, promises := h.promises, asleep := fun hw => by cases hw
            stopped := fun hf => by cases hf
            toCallback := by
              rw [← h.toCallback, hqueue]
              simp
            toPromise := h.toPromise, sameId := h.sameId, once := h.once }
  | waiting => simp only [hthread] at hstep; cases hstep
  | notified =>
    simp only [hthread] at hstep
    split at hstep
    · simp only [Option.some.injEq, Prod.mk.injEq] at hstep
      obtain ⟨rfl, rfl⟩ := hstep
      rw [Option.toList_none, List.append_nil]
      exact h.of_thread rfl rfl (fun hw => by cases hw) fun hf => by cases hf
    · rename_i hidle
      obtain ⟨hempty, hrun⟩ := not_or.mp hidle
      simp only [Option.some.injEq, Prod.mk.injEq] at hstep
      obtain ⟨rfl, rfl⟩ := hstep
      rw [Option.toList_none, List.append_nil]
      exact h.of_thread rfl rfl (fun _ => ⟨Classical.not_not.mp hempty, Classical.not_not.mp hrun⟩)
        fun hf => by cases hf
  | finished => simp only [hthread] at hstep; cases hstep
  | terminated => simp only [hthread] at hstep; cases hstep

theorem inductive_inv : (system Id Data κ).InductiveBy (fun _ _ => True) Inv where
  init := by
    rintro s rfl
    exact inv_start
  step := by
    intro s a s' h _ hstep
    replace hstep : step s a = some s' := hstep
    unfold step at hstep
    split at hstep
    · cases hstep
    · cases a with
      | submitEvent id data =>
        have hout := h.outstanding_eq id
        cases hlookup : s.dispatcher.promiseMap.lookup id with
        | none =>
          rw [hlookup] at hout
          simp only [Dispatcher.submitEvent, hlookup, hout, Option.some.injEq] at hstep
          exact hstep ▸ h.enqueue id data
        | some n =>
          rw [hlookup] at hout
          simp only [Dispatcher.submitEvent, hlookup, hout, Option.some.injEq] at hstep
          exact hstep ▸ h.give hlookup
      | requestEvent id =>
        obtain rfl := Option.some.inj hstep
        exact h.requestEvent id
      | registerCallback callback =>
        obtain rfl := Option.some.inj hstep
        cases callback with
        | none => exact h
        | some callback => exact h.of_thread rfl rfl h.asleep h.stopped
      | stop =>
        obtain rfl := Option.some.inj hstep
        exact h.of_thread rfl rfl (fun hw => absurd hw (notify_ne_waiting _)) fun _ => rfl
      | dispatch =>
        cases hd : s.dispatcher.dispatchStep with
        | none => simp [hd] at hstep
        | some result =>
          obtain ⟨call, d⟩ := result
          simp only [hd, Option.bind_eq_bind, Option.bind_some] at hstep
          obtain rfl := Option.some.inj hstep
          exact h.dispatch hd
      | wake =>
        obtain rfl := Option.some.inj hstep
        exact h.of_thread rfl rfl (fun hw => absurd hw (notify_ne_waiting _)) fun hf =>
          h.stopped (notify_eq_finished hf)

/-! ## Delivery -/

/-- The steps of the dispatch thread to its next call, while there is an event. -/
def toCall : DispatchThread → ℕ
  | .turn => 1
  | .head => 2
  | _ => 3

theorem toCall_notify (t : DispatchThread) : toCall t.notify = toCall t := by
  cases t <;> rfl

/-- The steps of the dispatch thread that `n` calls are away at most. -/
def distance (n : ℕ) (s : DispatcherRun Id Data κ) : ℕ :=
  if n ≤ s.called.length then 0
  else 2 * (n - s.called.length - 1) + toCall s.dispatcher.thread

/-- What `s` had for the callback is there for it, or with it, later. -/
structure Serving (s t : DispatcherRun Id Data κ) : Prop where
  inv : Inv t
  running : t.dispatcher.shouldContinueRunning = true
  callback : t.dispatcher.registeredCallback.isSome = true
  later : s.called.map (·.2) ++ s.dispatcher.eventQueue <+:
    t.called.map (·.2) ++ t.dispatcher.eventQueue

variable {t t' : DispatcherRun Id Data κ}

theorem Serving.length_le (h : Serving s t) :
    s.called.length + s.dispatcher.eventQueue.length ≤
      t.called.length + t.dispatcher.eventQueue.length := by
  simpa using h.later.length_le

/-- The dispatch thread comes closer to the calls that are due. -/
theorem Serving.dispatch (h : Serving s t) {call : Option (κ × Id × Data)}
    {d : Dispatcher Id Data κ ℕ} (hstep : t.dispatcher.dispatchStep = some (call, d)) :
    Serving s { t with dispatcher := d, called := t.called ++ call.toList } ∧
      distance (s.called.length + s.dispatcher.eventQueue.length)
          { t with dispatcher := d, called := t.called ++ call.toList } ≤
        distance (s.called.length + s.dispatcher.eventQueue.length) t - 1 := by
  have hinv := h.inv.dispatch hstep
  have hle := h.length_le
  have hrun := h.running
  have hcallback := h.callback
  have hlater := h.later
  rw [Dispatcher.dispatchStep] at hstep
  cases hthread : t.dispatcher.thread with
  | head =>
    simp only [hthread, hrun, if_true, Option.some.injEq, Prod.mk.injEq] at hstep
    obtain ⟨rfl, rfl⟩ := hstep
    refine ⟨⟨hinv, rfl, hcallback, by simpa using hlater⟩, ?_⟩
    simp only [distance, hthread, toCall, Option.toList_none, List.append_nil]
    split <;> omega
  | turn =>
    simp only [hthread] at hstep
    cases hqueue : t.dispatcher.eventQueue with
    | nil =>
      simp only [hqueue, hrun, if_true, Option.some.injEq, Prod.mk.injEq] at hstep
      obtain ⟨rfl, rfl⟩ := hstep
      rw [hqueue, List.length_nil] at hle
      refine ⟨⟨hinv, rfl, hcallback, by simpa [hqueue] using hlater⟩, ?_⟩
      simp only [distance, Option.toList_none, List.append_nil]
      split <;> omega
    | cons event rest =>
      obtain ⟨callback, hcallback'⟩ := Option.isSome_iff_exists.mp hcallback
      simp only [hqueue, hcallback', Option.some.injEq, Prod.mk.injEq] at hstep
      obtain ⟨rfl, rfl⟩ := hstep
      refine ⟨⟨hinv, hrun, rfl, by simpa [hqueue] using hlater⟩, ?_⟩
      simp only [distance, hthread, toCall, Option.toList_some, List.length_append,
        List.length_cons, List.length_nil]
      split <;> split <;> omega
  | notified =>
    simp only [hthread] at hstep
    split at hstep
    · simp only [Option.some.injEq, Prod.mk.injEq] at hstep
      obtain ⟨rfl, rfl⟩ := hstep
      refine ⟨⟨hinv, hrun, hcallback, by simpa using hlater⟩, ?_⟩
      simp only [distance, hthread, toCall, Option.toList_none, List.append_nil]
      split <;> omega
    · rename_i hidle
      have hqueue : t.dispatcher.eventQueue = [] := Classical.not_not.mp (not_or.mp hidle).1
      simp only [Option.some.injEq, Prod.mk.injEq] at hstep
      obtain ⟨rfl, rfl⟩ := hstep
      rw [hqueue, List.length_nil] at hle
      refine ⟨⟨hinv, hrun, hcallback, by simpa using hlater⟩, ?_⟩
      simp only [distance, Option.toList_none, List.append_nil]
      split <;> omega
  | waiting | finished | terminated =>
    simp only [hthread] at hstep
    cases hstep

/-- Any action but `stop`. -/
theorem Serving.step (h : Serving s t) {a : DispatcherAction Id Data κ} (ha : a ≠ .stop)
    (hstep : step t a = some t') : Serving s t' ∧
      distance (s.called.length + s.dispatcher.eventQueue.length) t' ≤
        distance (s.called.length + s.dispatcher.eventQueue.length) t - a.isDispatch.toNat := by
  have hinv : Inv t' := inductive_inv.step h.inv trivial hstep
  unfold DispatcherRun.step at hstep
  split at hstep
  · cases hstep
  · cases a with
    | submitEvent id data =>
      cases hlookup : t.dispatcher.promiseMap.lookup id with
      | none =>
        simp only [Dispatcher.submitEvent, hlookup, Option.some.injEq] at hstep
        subst hstep
        refine ⟨⟨hinv, h.running, h.callback, ?_⟩, ?_⟩
        · show _ <+: _ ++ (t.dispatcher.eventQueue ++ [(id, data)])
          rw [← List.append_assoc]
          exact h.later.trans (List.prefix_append _ _)
        · simp only [distance, toCall_notify]
          exact Nat.le_refl _
      | some n =>
        simp only [Dispatcher.submitEvent, hlookup, Option.some.injEq] at hstep
        subst hstep
        exact ⟨⟨hinv, h.running, h.callback, h.later⟩, Nat.le_refl _⟩
    | requestEvent id =>
      simp only [Dispatcher.requestEvent] at hstep
      split at hstep
      · obtain rfl := Option.some.inj hstep
        exact ⟨⟨hinv, h.running, h.callback, h.later⟩, Nat.le_refl _⟩
      · obtain rfl := Option.some.inj hstep
        exact ⟨⟨hinv, h.running, h.callback, h.later⟩, Nat.le_refl _⟩
    | registerCallback callback =>
      obtain rfl := Option.some.inj hstep
      cases callback with
      | none => exact ⟨⟨hinv, h.running, h.callback, h.later⟩, Nat.le_refl _⟩
      | some callback => exact ⟨⟨hinv, h.running, rfl, h.later⟩, Nat.le_refl _⟩
    | stop => exact absurd rfl ha
    | dispatch =>
      obtain ⟨⟨call, d⟩, hd, hstep⟩ := Option.bind_eq_some_iff.mp hstep
      obtain rfl := Option.some.inj hstep
      exact h.dispatch hd
    | wake =>
      obtain rfl := Option.some.inj hstep
      refine ⟨⟨hinv, h.running, h.callback, h.later⟩, ?_⟩
      simp only [distance, toCall_notify]
      exact Nat.le_refl _

/-- What is queued is with the callback after enough steps of the dispatch thread. -/
theorem Inv.delivers (h : Inv s) (hrun : s.dispatcher.shouldContinueRunning = true)
    (hcallback : s.dispatcher.registeredCallback.isSome = true)
    {actions : List (DispatcherAction Id Data κ)}
    (hactions : Lts.run DispatcherRun.step s actions = some s') (hstop : .stop ∉ actions)
    (hmany : 2 * s.dispatcher.eventQueue.length + 1 ≤ actions.countP (·.isDispatch)) :
    s.called.map (·.2) ++ s.dispatcher.eventQueue <+: s'.called.map (·.2) := by
  obtain ⟨hserving, hle⟩ := Lts.runBy_potential
    (fun hserving (ha : _ ≠ DispatcherAction.stop) _ hstep => Serving.step hserving ha hstep)
    (Serving.mk h hrun hcallback List.prefix_rfl)
    (fun a ha heq => hstop (heq ▸ ha)) hactions
  have hcalled : s.called.length + s.dispatcher.eventQueue.length ≤ s'.called.length := by
    have hthree : ∀ t, 1 ≤ toCall t ∧ toCall t ≤ 3 := fun t => by cases t <;> decide
    have hs := hthree s.dispatcher.thread
    have hs' := hthree s'.dispatcher.thread
    unfold distance at hle
    split at hle <;> split at hle <;> omega
  exact List.prefix_of_prefix_length_le hserving.later (List.prefix_append _ _)
    (by simpa using hcalled)

theorem Inv.exactlyOnce (h : Inv s) : ExactlyOnce s where
  toCallback := h.toCallback
  toPromise := h.toPromise
  sameId := h.sameId
  once r hr := by
    obtain ⟨n, hn⟩ := List.mem_iff_getElem?.mp hr
    exact h.once n r hn
  awake := h.awake
  delivers hrun hcallback _ _ := h.delivers hrun hcallback

/-- Every event is given away once, to the request that is outstanding for its id or, in order, to
the callback. -/
theorem exactlyOnce_of_reach (h : (system Id Data κ).Reach s) : ExactlyOnce s :=
  (inductive_inv.reach h).exactlyOnce

/-- A request, its event, and an event for the callback. -/
theorem exactlyOnce_of_reach_two : ∃ s, Lts.run step (start : DispatcherRun ℕ ℕ Unit)
    [.registerCallback (some ()), .requestEvent 0, .submitEvent 0 7, .submitEvent 1 8,
      .dispatch, .dispatch] = some s ∧ s.called = [((), 1, 8)] ∧ ExactlyOnce s := by
  obtain ⟨s, hs, hcalled⟩ : ∃ s, Lts.run step (start : DispatcherRun ℕ ℕ Unit)
      [.registerCallback (some ()), .requestEvent 0, .submitEvent 0 7, .submitEvent 1 8,
        .dispatch, .dispatch] = some s ∧ s.called = [((), 1, 8)] := ⟨_, rfl, rfl⟩
  exact ⟨s, hs, hcalled, exactlyOnce_of_reach (Lts.reach_of_run hs)⟩

/-- An event without a callback ends the dispatch thread, and a request overlooks the event that
is queued. -/
theorem terminated_and_overlooked :
    (∃ s, Lts.run step (start : DispatcherRun ℕ ℕ Unit)
      [.submitEvent 0 7, .dispatch, .dispatch] = some s ∧
        s.dispatcher.thread = .terminated ∧ s.dispatcher.eventQueue = [(0, 7)]) ∧
    ∃ s, Lts.run step (start : DispatcherRun ℕ ℕ Unit)
      [.registerCallback (some ()), .submitEvent 0 7, .requestEvent 0, .dispatch, .dispatch] =
        some s ∧ s.requests[0]?.map EventRequest.given = some [] ∧ s.called = [((), 0, 7)] :=
  ⟨⟨_, rfl, rfl, rfl⟩, _, rfl, rfl, rfl⟩

end DispatcherRun

end Sem.FftAccel

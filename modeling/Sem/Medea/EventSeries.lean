import Sem.Lib.Decimal
import Sem.Lib.FirstByKey
import Sem.Lib.Xml

/-!
# Event series of the charts

A series holds events of one class, of a port, of a worker, of a marker or of the hardware, of which
it asks their kind, id and time (`ChartEvent`). Polling receives the same events
again and again, and `addEvent` skips an event if one with the same id text is in the series.

* `addReplies_eq`: after any replies the series has the first event of each id.
* `keepsAll_iff`: every event is there, once, exactly if no two different ones have the same id.
* `portLifecycle_keepsAll`: the lifecycle events of one port always are. The ids of the other kinds
  leave out fields (`PortEvent.getID_eq_iff`), or put two numbers next to each other
  (`WorkloadEvent.getID_eq_iff`).
-/

namespace Sem.Medea

open Xml (Text)

/-- `QString::number` -/
abbrev number : Int → Text := intText

/-- `AggServerResponse::LifecycleType` -/
inductive LifecycleType
  | noType | configure | activate | passivate | terminate
  deriving DecidableEq, Repr

/-- `PortLifecycleEvent::getTypeString` -/
def LifecycleType.getTypeString : LifecycleType → Text
  | .configure => "CONFIGURE".toList
  | .activate => "ACTIVATE".toList
  | .passivate => "PASSIVATE".toList
  | .terminate => "TERMINATE".toList
  | .noType => "UNKNOWN".toList

/-- `AggServerResponse::PortEvent::PortEventType`. -/
inductive PortEventType
  | unknown | sent | received | startedFunc | finishedFunc | ignored | exception | message
  deriving DecidableEq, Repr

/-- `PortEvent::getTypeString` -/
def PortEventType.getTypeString : PortEventType → Text
  | .sent => "SENT".toList
  | .ignored => "IGNORED".toList
  | .message => "MESSAGE".toList
  | .received => "RECEIVED".toList
  | .exception => "EXCEPTION".toList
  | .startedFunc => "STARTED_FUNC".toList
  | .finishedFunc => "FINISHED_FUNC".toList
  | .unknown => "UNKNOWN".toList

/-- `AggServerResponse::WorkloadEvent::WorkloadEventType`. -/
inductive WorkloadEventType
  | unknown | started | finished | message | warning | errorEvent | marker
  deriving DecidableEq, Repr

/-- Times are in milliseconds; `graphmlId` is that of the port. -/
structure PortLifecycleEvent where
  graphmlId : Text
  type : LifecycleType
  time : Int
  deriving DecidableEq

/-- The id that `PortLifecycleEvent` is constructed with. -/
def PortLifecycleEvent.getID (e : PortLifecycleEvent) : Text :=
  e.graphmlId ++ e.type.getTypeString ++ number e.time

/-- `graphmlId` is that of the port. -/
structure PortEvent where
  graphmlId : Text
  sequenceNum : ℕ
  type : PortEventType
  message : Text
  time : Int
  deriving DecidableEq

/-- The id that `PortEvent` is constructed with. -/
def PortEvent.getID (e : PortEvent) : Text :=
  e.graphmlId ++ e.type.getTypeString ++ number e.time

/-- `graphmlId` and `path` are those of the worker instance. -/
structure WorkloadEvent where
  graphmlId : Text
  path : Text
  type : WorkloadEventType
  workloadID : ℕ
  time : Int
  functionName : Text
  args : Text
  logLevel : ℕ
  deriving DecidableEq

/-- The id that `WorkloadEvent` is constructed with. -/
def WorkloadEvent.getID (e : WorkloadEvent) : Text :=
  e.graphmlId ++ number e.workloadID ++ number e.time

/-- `graphmlId` is that of the component instance. -/
structure MarkerEvent where
  graphmlId : Text
  markerName : Text
  markerID : Int
  time : Int
  deriving DecidableEq

/-- The id that `MarkerEvent` is constructed with. -/
def MarkerEvent.getID (e : MarkerEvent) : Text :=
  e.graphmlId ++ e.markerName ++ number e.time

/-- `MEDEA::ChartDataKind`, of the events with series. -/
inductive ChartDataKind
  | portLifecycle | workload | cpuUtilisation | memoryUtilisation | marker | portEvent
  | networkUtilisation | gpuComputeUtilisation | gpuMemoryUtilisation | gpuTemperature
  deriving DecidableEq, Repr

/-- `MEDEA::Event`: what the series ask of the events of a class. -/
class ChartEvent (E : Type) where
  getKind : E → ChartDataKind
  getID : E → Text
  getTimeMS : E → Int

/-- An event of the ports, the workers and the markers. -/
inductive Event
  | portLifecycle (event : PortLifecycleEvent)
  | workload (event : WorkloadEvent)
  | marker (event : MarkerEvent)
  | portEvent (event : PortEvent)
  deriving DecidableEq

namespace Event

/-- The kind is that of the event's class. -/
def getKind : Event → ChartDataKind
  | .portLifecycle _ => .portLifecycle
  | .workload _ => .workload
  | .marker _ => .marker
  | .portEvent _ => .portEvent

/-- The id that the event has been constructed with. -/
def getID : Event → Text
  | .portLifecycle event => event.getID
  | .workload event => event.getID
  | .marker event => event.getID
  | .portEvent event => event.getID

/-- The time of the event in milliseconds. -/
def getTimeMS : Event → Int
  | .portLifecycle event => event.time
  | .workload event => event.time
  | .marker event => event.time
  | .portEvent event => event.time

end Event

instance : ChartEvent Event := ⟨Event.getKind, Event.getID, Event.getTimeMS⟩

/-- The class whose `addEvent` it is. -/
def ChartDataKind.seriesName : ChartDataKind → Text
  | .portLifecycle => "PortLifecycleEventSeries".toList
  | .workload => "WorkloadEventSeries".toList
  | .cpuUtilisation => "CPUUtilisationEventSeries".toList
  | .memoryUtilisation => "MemoryUtilisationEventSeries".toList
  | .marker => "MarkerEventSeries".toList
  | .portEvent => "PortEventSeries".toList
  | .networkUtilisation => "NetworkUtilisationEventSeries".toList
  | .gpuComputeUtilisation => "GPUComputeUtilisationSeries".toList
  | .gpuMemoryUtilisation => "GPUMemoryUtilisationSeries".toList
  | .gpuTemperature => "GPUTemperatureSeries".toList

/-- `MEDEA::EventSeries`, of the events of a class. -/
structure EventSeries (E : Type) where
  kind : ChartDataKind
  events : List E
  eventIds : List Text
  minTime : Int
  maxTime : Int

namespace EventSeries

open ChartEvent (getKind getID getTimeMS)

variable {E : Type} [ChartEvent E]

/-- A series when it is constructed, at this time. -/
def empty (kind : ChartDataKind) (currentMSecs : Int) : EventSeries E :=
  ⟨kind, [], [], currentMSecs, 0⟩

/-- `contains`: an event with the id is in the series. -/
def contains (s : EventSeries E) (event : E) : Bool := s.eventIds.contains (getID event)

/-- `updateTimeRange`. -/
def updateTimeRange (s : EventSeries E) (time : Int) : EventSeries E :=
  { s with minTime := min time s.minTime, maxTime := max time s.maxTime }

/-- `addEventToList`: the events stand in the order in which they are added. -/
def addEventToList (s : EventSeries E) (event : E) : Except Text (EventSeries E) :=
  if s.contains event then
    .error "MEDEA::EventSeries::addEventToList - Cannot add an already existing event".toList
  else
    .ok ({ s with
      events := s.events ++ [event]
      eventIds := s.eventIds ++ [getID event] }.updateTimeRange (getTimeMS event))

/-- `addEvent` of the series that keep no more than their events. The series of the markers and of
the hardware do the same with their events. -/
def addEvent (s : EventSeries E) (event : E) : Except Text (EventSeries E) :=
  if getKind event ≠ s.kind then
    .error (s.kind.seriesName ++ "::addEvent - Invalid event kind.".toList)
  else if ¬ s.contains event then s.addEventToList event
  else .ok s

/-- The events of a reply, one after another. -/
def addEvents (s : EventSeries E) (events : List E) : Except Text (EventSeries E) :=
  events.foldlM addEvent s

/-- The replies, one after another. -/
def addReplies (s : EventSeries E) (replies : List (List E)) : Except Text (EventSeries E) :=
  replies.foldlM addEvents s

/-- No reply fails, and the series holds every event received, each once. -/
def KeepsAll (kind : ChartDataKind) (currentMSecs : Int) (replies : List (List E)) : Prop :=
  ∃ s, (empty kind currentMSecs).addReplies replies = .ok s ∧ s.events.Nodup ∧
    ∀ event, event ∈ s.events ↔ event ∈ replies.flatten

/-! ## What a series holds -/

/-- The series of a kind, with the ids of its events. -/
structure Lists (kind : ChartDataKind) (events : List E) (s : EventSeries E) : Prop where
  kind_eq : s.kind = kind
  events_eq : s.events = events
  eventIds_eq : s.eventIds = events.map getID

variable {kind : ChartDataKind} {s s' : EventSeries E} {events : List E} {event : E}

theorem lists_empty (kind : ChartDataKind) (currentMSecs : Int) :
    Lists kind [] (empty kind currentMSecs : EventSeries E) := ⟨rfl, rfl, rfl⟩

/-- An event is added unless there is one with its id. -/
theorem Lists.addEvent (h : Lists kind events s) (hkind : getKind event = kind) :
    ∃ s', s.addEvent event = .ok s' ∧ Lists kind (addNew getID events event) s' := by
  have hcontains : s.contains event = decide (getID event ∈ events.map getID) := by
    rw [contains, h.eventIds_eq, List.contains_eq_mem]
  have hsame : ¬ getKind event ≠ s.kind := by
    rw [h.kind_eq]
    exact not_not.mpr hkind
  unfold EventSeries.addEvent addNew
  rw [if_neg hsame]
  by_cases hmem : getID event ∈ events.map getID
  · rw [if_pos hmem, if_neg (by rw [hcontains]; simpa using hmem)]
    exact ⟨s, rfl, h⟩
  · rw [if_neg hmem, if_pos (by rw [hcontains]; simpa using hmem)]
    unfold addEventToList
    rw [if_neg (by rw [hcontains]; simpa using hmem)]
    refine ⟨_, rfl, h.kind_eq, ?_, ?_⟩
    · show s.events ++ [event] = events ++ [event]
      rw [h.events_eq]
    · show s.eventIds ++ [getID event] = (events ++ [event]).map getID
      rw [h.eventIds_eq, List.map_append]
      rfl

theorem Lists.addEvents (h : Lists kind events s) {received : List E}
    (hkind : ∀ event ∈ received, getKind event = kind) :
    ∃ s', s.addEvents received = .ok s' ∧ Lists kind (addAll getID events received) s' := by
  induction received generalizing s events with
  | nil => exact ⟨s, rfl, h⟩
  | cons event received ih =>
    obtain ⟨s₁, hs₁, h₁⟩ := h.addEvent (hkind event List.mem_cons_self)
    obtain ⟨s₂, hs₂, h₂⟩ := ih h₁ fun event hmem => hkind event (List.mem_cons_of_mem _ hmem)
    refine ⟨s₂, ?_, h₂⟩
    unfold EventSeries.addEvents at hs₂ ⊢
    rw [List.foldlM_cons, hs₁]
    exact hs₂

/-- However the events are spread over the replies, the first of each id is added. -/
theorem Lists.addReplies (h : Lists kind events s) {replies : List (List E)}
    (hkind : ∀ reply ∈ replies, ∀ event ∈ reply, getKind event = kind) :
    ∃ s', s.addReplies replies = .ok s' ∧
      Lists kind (addAll getID events replies.flatten) s' := by
  induction replies generalizing s events with
  | nil => exact ⟨s, rfl, h⟩
  | cons reply replies ih =>
    obtain ⟨s₁, hs₁, h₁⟩ := h.addEvents (hkind reply List.mem_cons_self)
    obtain ⟨s₂, hs₂, h₂⟩ := ih h₁ fun reply hmem => hkind reply (List.mem_cons_of_mem _ hmem)
    refine ⟨s₂, ?_, ?_⟩
    · unfold EventSeries.addReplies at hs₂ ⊢
      rw [List.foldlM_cons, hs₁]
      exact hs₂
    · rwa [List.flatten_cons, addAll_append]

/-- After any replies, the series has the first event of each id. -/
theorem addReplies_eq (currentMSecs : Int) {replies : List (List E)}
    (hkind : ∀ reply ∈ replies, ∀ event ∈ reply, getKind event = kind) :
    ∃ s, (empty kind currentMSecs).addReplies replies = .ok s ∧
      s.events = addAll getID [] replies.flatten := by
  obtain ⟨s, hs, h⟩ := (lists_empty kind currentMSecs).addReplies hkind
  exact ⟨s, hs, h.events_eq⟩

/-- No event is missing among the first ones of each id. -/
theorem keepsAll_iff_mem (currentMSecs : Int) {replies : List (List E)}
    (hkind : ∀ reply ∈ replies, ∀ event ∈ reply, getKind event = kind) :
    KeepsAll kind currentMSecs replies ↔
      ∀ event, event ∈ addAll getID [] replies.flatten ↔ event ∈ replies.flatten := by
  obtain ⟨s, hs, hevents⟩ := addReplies_eq currentMSecs hkind
  rw [← hevents]
  constructor
  · rintro ⟨s', hs', -, hmem⟩
    rw [hs] at hs'
    obtain rfl := Except.ok.inj hs'
    exact hmem
  · intro hmem
    refine ⟨s, hs, ?_, hmem⟩
    rw [hevents]
    exact nodup_addAll _ _

/-- Every event is in the series once, exactly if no two different ones have the same id. -/
theorem keepsAll_iff (currentMSecs : Int) {replies : List (List E)}
    (hkind : ∀ reply ∈ replies, ∀ event ∈ reply, getKind event = kind) :
    KeepsAll kind currentMSecs replies ↔
      ∀ event ∈ replies.flatten, ∀ event' ∈ replies.flatten,
        getID event = getID event' → event = event' :=
  (keepsAll_iff_mem currentMSecs hkind).trans mem_addAll_iff

/-- The second poll has an event more than the first one. -/
theorem keepsAll_iff_polled :
    let first := Event.portEvent ⟨"5".toList, 1, .sent, [], 1000⟩
    let second := Event.portEvent ⟨"5".toList, 2, .sent, [], 1500⟩
    KeepsAll .portEvent 2000 [[first], [first, second]] := by
  intro first second
  have hmem : ∀ event ∈ [[first], [first, second]].flatten, event = first ∨ event = second := by
    simp
  refine (keepsAll_iff 2000 fun reply hreply event hevent => ?_).mpr ?_
  · rcases hmem event (List.mem_flatten.mpr ⟨reply, hreply, hevent⟩) with rfl | rfl <;> rfl
  · have hne : first.getID ≠ second.getID := by decide +kernel
    intro event hevent event' hevent' hid
    rcases hmem event hevent with rfl | rfl <;> rcases hmem event' hevent' with rfl | rfl
    · rfl
    · exact absurd hid hne
    · exact absurd hid.symm hne
    · rfl

/-- A workload that starts and finishes in the same millisecond, and two port events. -/
theorem not_keepsAll :
    let started : WorkloadEvent := ⟨"7".toList, "path".toList, .started, 3, 1000, "f".toList, [], 0⟩
    let sent : PortEvent := ⟨"5".toList, 1, .sent, [], 1000⟩
    let finished := { started with type := .finished }
    ¬ KeepsAll .workload 2000 [[Event.workload started, .workload finished]] ∧
      ¬ KeepsAll .portEvent 2000
        [[Event.portEvent sent], [.portEvent { sent with sequenceNum := 2 }]] ∧
      ¬ ∀ kind currentMSecs (replies : List (List Event)),
        (∀ reply ∈ replies, ∀ event ∈ reply, event.getKind = kind) →
          KeepsAll kind currentMSecs replies := by
  intro started sent finished
  -- of the two events only the first is in the series
  have hskipped : ∀ {kind} {replies : List (List Event)} {event : Event},
      (∀ reply ∈ replies, ∀ event ∈ reply, event.getKind = kind) → event ∈ replies.flatten →
      event ∉ addAll Event.getID [] replies.flatten → ¬ KeepsAll kind 2000 replies := by
    intro kind replies event hkind hmem hnotMem h
    exact hnotMem (((keepsAll_iff_mem 2000 hkind).mp h event).mpr hmem)
  have hworkload : ¬ KeepsAll .workload 2000 [[Event.workload started, .workload finished]] :=
    @hskipped _ _ (.workload finished) (by simp [Event.getKind]) (by simp) (by decide +kernel)
  have hport : ¬ KeepsAll .portEvent 2000
      [[Event.portEvent sent], [.portEvent { sent with sequenceNum := 2 }]] :=
    @hskipped _ _ (.portEvent { sent with sequenceNum := 2 }) (by simp [Event.getKind])
      (by simp) (by decide +kernel)
  refine ⟨hworkload, hport, fun h => hworkload (h _ _ _ ?_)⟩
  simp [Event.getKind]

end EventSeries

/-! ## Which events have the same id -/

/-- Texts none of which is the beginning of another one can be told from what follows them. -/
theorem append_inj_of_prefixFree {T : Type} {text : T → Text}
    (hfree : ∀ t t', text t <+: text t' → t = t') {t t' : T} {a b : Text}
    (h : text t ++ a = text t' ++ b) : t = t' ∧ a = b := by
  have ht : text t <+: text t' ++ b := h ▸ List.prefix_append _ _
  have heq : t = t' := by
    rcases List.prefix_or_prefix_of_prefix ht (List.prefix_append _ _) with hprefix | hprefix
    · exact hfree t t' hprefix
    · exact (hfree t' t hprefix).symm
  subst heq
  exact ⟨rfl, List.append_cancel_left h⟩

theorem LifecycleType.prefixFree :
    ∀ t t' : LifecycleType, t.getTypeString <+: t'.getTypeString → t = t' := by
  intro t t'
  cases t <;> cases t' <;> decide +kernel

theorem PortEventType.prefixFree :
    ∀ t t' : PortEventType, t.getTypeString <+: t'.getTypeString → t = t' := by
  intro t t'
  cases t <;> cases t' <;> decide +kernel

/-- The id of a lifecycle event has all its fields. -/
theorem PortLifecycleEvent.getID_eq_iff {e e' : PortLifecycleEvent}
    (hport : e.graphmlId = e'.graphmlId) : e.getID = e'.getID ↔ e = e' := by
  constructor
  · intro h
    unfold getID at h
    rw [hport, List.append_assoc, List.append_assoc] at h
    obtain ⟨htype, htime⟩ :=
      append_inj_of_prefixFree LifecycleType.prefixFree (List.append_cancel_left h)
    have htime' := intText_injective htime
    cases e
    cases e'
    simp_all
  · rintro rfl
    rfl

/-- The id of a port event leaves out the sequence number and the message. -/
theorem PortEvent.getID_eq_iff {e e' : PortEvent} (hport : e.graphmlId = e'.graphmlId) :
    e.getID = e'.getID ↔ e.type = e'.type ∧ e.time = e'.time := by
  unfold getID
  rw [hport, List.append_assoc, List.append_assoc, List.append_cancel_left_eq]
  constructor
  · intro h
    obtain ⟨htype, htime⟩ := append_inj_of_prefixFree PortEventType.prefixFree h
    exact ⟨htype, intText_injective htime⟩
  · rintro ⟨htype, htime⟩
    rw [htype, htime]

/-- The id of a workload event leaves out the type, the function and its arguments, and has the
workload and the time next to each other. -/
theorem WorkloadEvent.getID_eq_iff {e e' : WorkloadEvent} (hworker : e.graphmlId = e'.graphmlId) :
    e.getID = e'.getID ↔
      number e.workloadID ++ number e.time = number e'.workloadID ++ number e'.time := by
  unfold getID
  rw [hworker, List.append_assoc, List.append_assoc, List.append_cancel_left_eq]

/-- The id of a marker event leaves out the marker's id. -/
theorem MarkerEvent.getID_eq_iff {e e' : MarkerEvent} (hinst : e.graphmlId = e'.graphmlId)
    (hname : e.markerName = e'.markerName) : e.getID = e'.getID ↔ e.time = e'.time := by
  unfold getID
  rw [hinst, hname, List.append_cancel_left_eq]
  exact ⟨fun h => intText_injective h, fun h => by rw [h]⟩

/-- The lifecycle events of one port are all kept. -/
theorem EventSeries.portLifecycle_keepsAll (currentMSecs : Int) (port : Text)
    (replies : List (List PortLifecycleEvent))
    (hport : ∀ reply ∈ replies, ∀ event ∈ reply, event.graphmlId = port) :
    KeepsAll .portLifecycle currentMSecs (replies.map (·.map Event.portLifecycle)) := by
  have hevent : ∀ event ∈ (replies.map (·.map Event.portLifecycle)).flatten,
      ∃ e : PortLifecycleEvent, e.graphmlId = port ∧ event = .portLifecycle e := by
    intro event h
    obtain ⟨reply, hreply, hmem⟩ := List.mem_flatten.mp h
    obtain ⟨events, hevents, rfl⟩ := List.mem_map.mp hreply
    obtain ⟨e, he, rfl⟩ := List.mem_map.mp hmem
    exact ⟨e, hport events hevents e he, rfl⟩
  refine (keepsAll_iff_mem currentMSecs fun reply hreply event hmem => ?_).mpr
    (mem_addAll_iff.mpr ?_)
  · obtain ⟨e, -, rfl⟩ := hevent event (List.mem_flatten.mpr ⟨reply, hreply, hmem⟩)
    rfl
  · intro event h event' h' hid
    obtain ⟨e, he, rfl⟩ := hevent event h
    obtain ⟨e', he', rfl⟩ := hevent event' h'
    rw [(PortLifecycleEvent.getID_eq_iff (he.trans he'.symm)).mp hid]

end Sem.Medea

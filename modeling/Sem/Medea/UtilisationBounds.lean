import Sem.Lib.NumberTexts
import Sem.Lib.Records
import Sem.Medea.EventSeries

/-!
# Bounds of a utilisation series

The series of the hardware metrics keep the least and the greatest value of their events and send
each new one to the chart. The values are finite doubles.

* `addEvent_toEventSeries`: the events are those of `EventSeries.addEvent`.
* `Keeps.store`: the five series of single values keep their bounds.
* `Tracks.store`: the network series keeps the lesser value of its first event and the greater
  one of its newest.
* `utilisationBounds_iff`: when the bounds, and the values that have been sent last, are those of the
  events.
-/

namespace Sem.Medea

open Xml (Text)
open Lib

/-! ## The series -/

/-- `DBL_MAX` -/
def dblMax : ℚ := (2 ^ 53 - 1) * 2 ^ 971

/-- A double that is not negative. -/
def Magnitude := { v : ℚ // 0 ≤ v ∧ v ≤ dblMax }

/-- Times are in milliseconds; the numbers of bytes are not negative. -/
inductive UtilisationEvent
  | cpu (hostname : Text) (utilisation : Magnitude) (time : ℤ)
  | memory (hostname : Text) (utilisation : Magnitude) (time : ℤ)
  | network (hostname interfaceMacAddress : Text) (bytesSent bytesReceived : ℕ) (time : ℤ)
  | gpuCompute (hostname deviceName : Text) (utilisation : Magnitude) (time : ℤ)
  | gpuMemory (hostname deviceName : Text) (utilisation : Magnitude) (time : ℤ)
  | gpuTemperature (hostname deviceName : Text) (temperature : Magnitude) (time : ℤ)

namespace UtilisationEvent

/-- The kind is that of the event's class. -/
def getKind : UtilisationEvent → ChartDataKind
  | cpu .. => .cpuUtilisation
  | memory .. => .memoryUtilisation
  | network .. => .networkUtilisation
  | gpuCompute .. => .gpuComputeUtilisation
  | gpuMemory .. => .gpuMemoryUtilisation
  | gpuTemperature .. => .gpuTemperature

/-- The id that the event has been constructed with. -/
def getID : UtilisationEvent → Text
  | cpu hostname _ time => hostname ++ number time
  | memory hostname _ time => hostname ++ number time
  | network hostname interfaceMacAddress _ _ time =>
    hostname ++ interfaceMacAddress ++ number time
  | gpuCompute hostname deviceName _ time => hostname ++ deviceName ++ number time
  | gpuMemory hostname deviceName _ time => hostname ++ deviceName ++ number time
  | gpuTemperature hostname deviceName _ time => hostname ++ deviceName ++ number time

/-- The time of the event in milliseconds. -/
def getTimeMS : UtilisationEvent → ℤ
  | cpu _ _ time => time
  | memory _ _ time => time
  | network _ _ _ _ time => time
  | gpuCompute _ _ _ time => time
  | gpuMemory _ _ _ time => time
  | gpuTemperature _ _ _ time => time

end UtilisationEvent

instance : ChartEvent UtilisationEvent :=
  ⟨UtilisationEvent.getKind, UtilisationEvent.getID, UtilisationEvent.getTimeMS⟩

/-- The bounds, and the values that `minYValueChanged` and `maxYValueChanged` have been emitted with
last. -/
structure UtilisationSeries extends EventSeries UtilisationEvent where
  minUtilisation : ℚ
  maxUtilisation : ℚ
  minYValue : Option ℚ
  maxYValue : Option ℚ

/-- The conversion of a number of bytes. -/
def toDouble (bytes : ℕ) : ℚ := roundMagnitude bytes

namespace UtilisationSeries

/-- A series when it is constructed, at this time. -/
def empty (kind : ChartDataKind) (currentMSecs : ℤ) : UtilisationSeries :=
  ⟨EventSeries.empty kind currentMSecs, dblMax, 0, none, none⟩

/-- A new minimum is set and sent. -/
def setMin (s : UtilisationSeries) (v : ℚ) : UtilisationSeries :=
  { s with minUtilisation := v, minYValue := some v }

/-- A new maximum is set and sent. -/
def setMax (s : UtilisationSeries) (v : ℚ) : UtilisationSeries :=
  { s with maxUtilisation := v, maxYValue := some v }

/-- The minimum, with one more value. -/
def lowerMin (s : UtilisationSeries) (v : ℚ) : UtilisationSeries :=
  if v < s.minUtilisation then s.setMin v else s

/-- The maximum, with one more value. -/
def raiseMax (s : UtilisationSeries) (v : ℚ) : UtilisationSeries :=
  if v > s.maxUtilisation then s.setMax v else s

/-- The bounds with a single value. -/
def addValue (s : UtilisationSeries) (utilisation : Magnitude) : UtilisationSeries :=
  (s.lowerMin utilisation.val).raiseMax utilisation.val

/-- The bounds with the bytes of a network event. -/
def addBytes (s : UtilisationSeries) (bytesSent bytesReceived : ℕ) : UtilisationSeries :=
  (if s.events = [] then s.setMin (toDouble (min bytesSent bytesReceived)) else s).setMax
    (toDouble (max bytesSent bytesReceived))

/-- What the classes do with the bounds before they add the event. -/
def addBounds (s : UtilisationSeries) : UtilisationEvent → UtilisationSeries
  | .cpu _ utilisation _ => s.addValue utilisation
  | .memory _ utilisation _ => s.addValue utilisation
  | .network _ _ bytesSent bytesReceived _ => s.addBytes bytesSent bytesReceived
  | .gpuCompute _ _ utilisation _ => s.addValue utilisation
  | .gpuMemory _ _ utilisation _ => s.addValue utilisation
  | .gpuTemperature _ _ temperature _ => s.addValue temperature

/-- `addEvent` of the six series. -/
def addEvent (s : UtilisationSeries) (event : UtilisationEvent) : Except Text UtilisationSeries :=
  if event.getKind ≠ s.kind then
    .error (s.kind.seriesName ++ "::addEvent - Invalid event kind.".toList)
  else if ¬ s.contains event then do
    let s := s.addBounds event
    let series ← s.toEventSeries.addEventToList event
    return { s with toEventSeries := series }
  else .ok s

/-- The events one after another. -/
def addEvents (s : UtilisationSeries) (events : List UtilisationEvent) :
    Except Text UtilisationSeries :=
  events.foldlM addEvent s

end UtilisationSeries

/-! ## What the bounds are for -/

/-- The values of an event, as doubles. -/
def UtilisationEvent.values : UtilisationEvent → List ℚ
  | .cpu _ utilisation _ => [utilisation.val]
  | .memory _ utilisation _ => [utilisation.val]
  | .network _ _ bytesSent bytesReceived _ => [toDouble bytesSent, toDouble bytesReceived]
  | .gpuCompute _ _ utilisation _ => [utilisation.val]
  | .gpuMemory _ _ utilisation _ => [utilisation.val]
  | .gpuTemperature _ _ temperature _ => [temperature.val]

/-- The values of the events. -/
def valuesOf (events : List UtilisationEvent) : Set ℚ := {v | v ∈ events.flatMap (·.values)}

/-- The bounds are those of the events, and have been sent. -/
structure UtilisationSeries.BoundsHold (s : UtilisationSeries) : Prop where
  min : IsLeast (valuesOf s.events) s.minUtilisation
  max : IsGreatest (valuesOf s.events) s.maxUtilisation
  minSent : s.minYValue = some s.minUtilisation
  maxSent : s.maxYValue = some s.maxUtilisation

/-- The events that are not skipped. -/
def storedSamples (events : List UtilisationEvent) : List UtilisationEvent :=
  addAll UtilisationEvent.getID [] events

/-- No value is below the lesser one of the first event. -/
def FirstLeast (events : List UtilisationEvent) : Prop :=
  ∀ hostname address bytesSent bytesReceived time,
    events.head? = some (.network hostname address bytesSent bytesReceived time) →
      ∀ v ∈ valuesOf events, toDouble (min bytesSent bytesReceived) ≤ v

/-- No value is above the greater one of the last event. -/
def LastGreatest (events : List UtilisationEvent) : Prop :=
  ∀ hostname address bytesSent bytesReceived time,
    events.getLast? = some (.network hostname address bytesSent bytesReceived time) →
      ∀ v ∈ valuesOf events, v ≤ toDouble (max bytesSent bytesReceived)

/-- When the bounds of a series with these events hold. The values that the bounds of a single
value start with are never sent. -/
def BoundsCondition (kind : ChartDataKind) (events : List UtilisationEvent) : Prop :=
  if kind = .networkUtilisation then FirstLeast events ∧ LastGreatest events
  else (∃ v ∈ valuesOf events, v ≠ 0) ∧ ∃ v ∈ valuesOf events, v ≠ dblMax

/-! ## The run -/

namespace UtilisationSeries

variable {s : UtilisationSeries} {kind : ChartDataKind} {currentMSecs : ℤ}
  {events : List UtilisationEvent} {event : UtilisationEvent}

/-- What `addEvent` does with an event that is not in the series. -/
def store (s : UtilisationSeries) (event : UtilisationEvent) : UtilisationSeries :=
  { s.addBounds event with
    toEventSeries := { s.toEventSeries with
      events := s.events ++ [event]
      eventIds := s.eventIds ++ [event.getID] }.updateTimeRange event.getTimeMS }

/-- Changes of the bounds leave everything else as it is. -/
theorem addBounds_frame (s : UtilisationSeries) (event : UtilisationEvent) :
    (s.addBounds event).toEventSeries = s.toEventSeries := by
  have hvalue : ∀ v, (s.addValue v).toEventSeries = s.toEventSeries := by
    intro v
    unfold addValue raiseMax lowerMin
    split <;> split <;> rfl
  cases event with
  | network =>
    simp only [addBounds, addBytes]
    split <;> rfl
  | _ => exact hvalue _

/-- The events of the series are those of `EventSeries.addEvent`, whatever the bounds are. -/
theorem addEvent_toEventSeries (s : UtilisationSeries) (event : UtilisationEvent) :
    (s.addEvent event).map toEventSeries = s.toEventSeries.addEvent event := by
  unfold addEvent EventSeries.addEvent
  split
  · rename_i hkind
    exact (if_pos hkind).symm
  · rename_i hkind
    refine Eq.trans ?_ (if_neg hkind).symm
    split
    · show Except.map toEventSeries
        ((s.addBounds event).toEventSeries.addEventToList event >>= _) = _
      rw [addBounds_frame]
      cases s.toEventSeries.addEventToList event <;> rfl
    · rfl

/-- An event that is there already is not stored twice. -/
theorem addEvent_eq (hkind : event.getKind = s.kind) :
    s.addEvent event = .ok (if s.contains event then s else s.store event) := by
  unfold addEvent
  rw [if_neg (not_not.mpr hkind)]
  by_cases hcontains : s.contains event
  · rw [if_neg (not_not.mpr hcontains), if_pos hcontains]
  · rw [if_pos hcontains, if_neg hcontains]
    show ((s.addBounds event).toEventSeries.addEventToList event >>= fun series =>
      pure { s.addBounds event with toEventSeries := series }) = _
    rw [addBounds_frame, EventSeries.addEventToList, if_neg hcontains]
    rfl

/-- The series with these events. -/
def ofEvents (kind : ChartDataKind) (currentMSecs : ℤ) (events : List UtilisationEvent) :
    UtilisationSeries :=
  events.foldl store (empty kind currentMSecs)

theorem ofEvents_concat : ofEvents kind currentMSecs (events ++ [event]) =
    (ofEvents kind currentMSecs events).store event :=
  List.foldl_concat ..

theorem lists_ofEvents (kind : ChartDataKind) (currentMSecs : ℤ) (events : List UtilisationEvent) :
    EventSeries.Lists kind events (ofEvents kind currentMSecs events).toEventSeries := by
  induction events using List.reverseRecOn with
  | nil => exact EventSeries.lists_empty kind currentMSecs
  | append_singleton events event ih =>
    rw [ofEvents_concat]
    refine ⟨ih.kind_eq, ?_, ?_⟩
    · show (ofEvents kind currentMSecs events).events ++ [event] = _
      rw [ih.events_eq]
    · show (ofEvents kind currentMSecs events).eventIds ++ [event.getID] = _
      rw [ih.eventIds_eq, List.map_append]
      rfl

/-- An event with the id of another one is skipped. -/
theorem addEvent_ofEvents (hkind : event.getKind = kind) :
    (ofEvents kind currentMSecs events).addEvent event =
      .ok (ofEvents kind currentMSecs (addNew UtilisationEvent.getID events event)) := by
  have hlists := lists_ofEvents kind currentMSecs events
  have hcontains : (ofEvents kind currentMSecs events).contains event =
      decide (event.getID ∈ events.map UtilisationEvent.getID) := by
    rw [EventSeries.contains, hlists.eventIds_eq, List.contains_eq_mem]
    rfl
  rw [addEvent_eq (hkind.trans hlists.kind_eq.symm), hcontains, addNew]
  by_cases hmem : event.getID ∈ events.map UtilisationEvent.getID
  · simp [hmem]
  · simp [hmem, ofEvents_concat]

/-- By induction over the events received. -/
theorem addEvents_ofEvents {received : List UtilisationEvent}
    (hkind : ∀ event ∈ received, event.getKind = kind) :
    (ofEvents kind currentMSecs events).addEvents received =
      .ok (ofEvents kind currentMSecs (addAll UtilisationEvent.getID events received)) := by
  induction received generalizing events with
  | nil => rfl
  | cons event received ih =>
    obtain ⟨hfirst, hrest⟩ := List.forall_mem_cons.mp hkind
    unfold addEvents at ih ⊢
    rw [List.foldlM_cons, addEvent_ofEvents hfirst]
    exact ih hrest

/-! ## Single values -/

/-- The bounds of a series of single values. A bound is not sent before it has changed. -/
structure Keeps (s : UtilisationSeries) : Prop where
  least : IsLeast (insert dblMax (valuesOf s.events)) s.minUtilisation
  greatest : IsGreatest (insert 0 (valuesOf s.events)) s.maxUtilisation
  minSent : s.minYValue = if s.minUtilisation < dblMax then some s.minUtilisation else none
  maxSent : s.maxYValue = if 0 < s.maxUtilisation then some s.maxUtilisation else none

theorem valuesOf_concat_single {v : ℚ} (h : event.values = [v]) :
    valuesOf (events ++ [event]) = insert v (valuesOf events) := by
  ext w
  simp [valuesOf, h, or_comm]

/-- All kinds but one have a single value. -/
theorem exists_value (h : event.getKind ≠ .networkUtilisation) : ∃ v : Magnitude, event.values = [v.val] ∧
    ∀ s : UtilisationSeries, s.addBounds event = s.addValue v := by
  cases event with
  | network => exact absurd rfl h
  | _ => exact ⟨_, rfl, fun _ => rfl⟩

theorem minUtilisation_addValue (s : UtilisationSeries) (v : Magnitude) :
    (s.addValue v).minUtilisation = min v.val s.minUtilisation ∧
      (s.addValue v).minYValue = if v.val < s.minUtilisation then some v.val else s.minYValue := by
  unfold addValue raiseMax lowerMin
  grind [setMin, setMax]

theorem maxUtilisation_addValue (s : UtilisationSeries) (v : Magnitude) :
    (s.addValue v).maxUtilisation = max v.val s.maxUtilisation ∧
      (s.addValue v).maxYValue = if s.maxUtilisation < v.val then some v.val else s.maxYValue := by
  unfold addValue raiseMax lowerMin
  grind [setMin, setMax]

/-- The bounds follow a single value. -/
theorem Keeps.store (h : s.Keeps) (hkind : event.getKind ≠ .networkUtilisation) : (s.store event).Keeps := by
  obtain ⟨v, hvalues, hbounds⟩ := exists_value hkind
  obtain ⟨hmin, hminSent⟩ := minUtilisation_addValue s v
  obtain ⟨hmax, hmaxSent⟩ := maxUtilisation_addValue s v
  have hmin' : (s.store event).minUtilisation = min v.val s.minUtilisation := by
    rw [← hmin, ← hbounds s]
    rfl
  have hmax' : (s.store event).maxUtilisation = max v.val s.maxUtilisation := by
    rw [← hmax, ← hbounds s]
    rfl
  have hvaluesOf : valuesOf (s.store event).events = insert v.val (valuesOf s.events) :=
    valuesOf_concat_single hvalues
  have hle := h.least.2 (Set.mem_insert dblMax _)
  have hge := h.greatest.2 (Set.mem_insert 0 _)
  refine ⟨?_, ?_, ?_, ?_⟩
  · rw [hvaluesOf, Set.insert_comm, hmin']
    exact h.least.insert _
  · rw [hvaluesOf, Set.insert_comm, hmax']
    exact h.greatest.insert _
  · show (s.addBounds event).minYValue = _
    rw [hbounds, hminSent, hmin', h.minSent]
    grind
  · show (s.addBounds event).maxYValue = _
    rw [hbounds, hmaxSent, hmax', h.maxSent]
    grind

theorem keeps_ofEvents (hkind : kind ≠ .networkUtilisation)
    (hevents : ∀ event ∈ events, event.getKind = kind) :
    (ofEvents kind currentMSecs events).Keeps := by
  induction events using List.reverseRecOn with
  | nil =>
    have hnone : valuesOf [] = ∅ := by
      ext v
      simp [valuesOf]
    refine ⟨?_, ?_, ?_, ?_⟩
    · show IsLeast (insert dblMax (valuesOf [])) dblMax
      rw [hnone, insert_empty_eq]
      exact isLeast_singleton
    · show IsGreatest (insert 0 (valuesOf [])) 0
      rw [hnone, insert_empty_eq]
      exact isGreatest_singleton
    · exact (if_neg (lt_irrefl dblMax)).symm
    · exact (if_neg (lt_irrefl (0 : ℚ))).symm
  | append_singleton events event ih =>
    rw [ofEvents_concat]
    refine Keeps.store (ih fun event hmem => hevents event (List.mem_append_left _ hmem)) ?_
    rw [hevents event (by simp)]
    exact hkind

/-- A chart that shows the series from its construction on draws no event outside its range. -/
theorem Keeps.drawn (h : s.Keeps) {v : ℚ} (hv : v ∈ valuesOf s.events) :
    s.minYValue.getD dblMax ≤ v ∧ v ≤ s.maxYValue.getD 0 := by
  have hleast := h.least.2 (Set.mem_insert_of_mem _ hv)
  have htop := h.least.2 (Set.mem_insert dblMax _)
  have hgreatest := h.greatest.2 (Set.mem_insert_of_mem _ hv)
  have hzero := h.greatest.2 (Set.mem_insert 0 _)
  rw [h.minSent, h.maxSent]
  grind

/-- Single values are bounds that have been sent unless all are 0, or all are `DBL_MAX`. -/
theorem Keeps.boundsHold_iff (h : s.Keeps) (hne : (valuesOf s.events).Nonempty)
    (hvalues : ∀ v ∈ valuesOf s.events, 0 ≤ v ∧ v ≤ dblMax) :
    s.BoundsHold ↔ (∃ v ∈ valuesOf s.events, v ≠ 0) ∧ ∃ v ∈ valuesOf s.events, v ≠ dblMax := by
  obtain ⟨w, hw⟩ := hne
  have hleast : IsLeast (valuesOf s.events) s.minUtilisation := by
    refine ⟨?_, fun v hv => h.least.2 (Set.mem_insert_of_mem _ hv)⟩
    rcases h.least.1 with htop | hmem
    · have hle := h.least.2 (Set.mem_insert_of_mem _ hw)
      rw [htop] at hle ⊢
      rwa [le_antisymm hle (hvalues w hw).2]
    · exact hmem
  have hgreatest : IsGreatest (valuesOf s.events) s.maxUtilisation := by
    refine ⟨?_, fun v hv => h.greatest.2 (Set.mem_insert_of_mem _ hv)⟩
    rcases h.greatest.1 with hzero | hmem
    · have hle := h.greatest.2 (Set.mem_insert_of_mem _ hw)
      rw [hzero] at hle ⊢
      rwa [le_antisymm (hvalues w hw).1 hle]
    · exact hmem
  have hmax : s.maxYValue = some s.maxUtilisation ↔ ∃ v ∈ valuesOf s.events, v ≠ 0 := by
    rw [h.maxSent]
    constructor
    · intro hsome
      refine ⟨_, hgreatest.1, fun hzero => ?_⟩
      rw [hzero] at hsome
      simp at hsome
    · rintro ⟨v, hv, hzero⟩
      exact if_pos (lt_of_lt_of_le (lt_of_le_of_ne (hvalues v hv).1 hzero.symm) (hgreatest.2 hv))
  have hmin : s.minYValue = some s.minUtilisation ↔ ∃ v ∈ valuesOf s.events, v ≠ dblMax := by
    rw [h.minSent]
    constructor
    · intro hsome
      refine ⟨_, hleast.1, fun htop => ?_⟩
      rw [htop] at hsome
      simp at hsome
    · rintro ⟨v, hv, htop⟩
      exact if_pos (lt_of_le_of_lt (hleast.2 hv) (lt_of_le_of_ne (hvalues v hv).2 htop))
  rw [← hmax, ← hmin]
  exact ⟨fun hbounds => ⟨hbounds.maxSent, hbounds.minSent⟩,
    fun ⟨hmax, hmin⟩ => ⟨hleast, hgreatest, hmin, hmax⟩⟩

/-- Such values are magnitudes. -/
theorem values_of_single (hkind : kind ≠ .networkUtilisation)
    (hevents : ∀ event ∈ events, event.getKind = kind) {v : ℚ} (hv : v ∈ valuesOf events) :
    0 ≤ v ∧ v ≤ dblMax := by
  obtain ⟨event, hevent, hmem⟩ := List.mem_flatMap.mp hv
  obtain ⟨value, hvalue, -⟩ := exists_value (hevents event hevent ▸ hkind)
  rw [hvalue, List.mem_singleton] at hmem
  exact hmem ▸ value.property

/-! ## Bytes -/

/-- The bounds of the network series. -/
structure Tracks (s : UtilisationSeries) : Prop where
  first : ∀ hostname address bytesSent bytesReceived time,
    s.events.head? = some (.network hostname address bytesSent bytesReceived time) →
      s.minUtilisation = toDouble (min bytesSent bytesReceived) ∧
        s.minYValue = some s.minUtilisation
  last : ∀ hostname address bytesSent bytesReceived time,
    s.events.getLast? = some (.network hostname address bytesSent bytesReceived time) →
      s.maxUtilisation = toDouble (max bytesSent bytesReceived) ∧
        s.maxYValue = some s.maxUtilisation

theorem exists_bytes (h : event.getKind = .networkUtilisation) :
    ∃ hostname address bytesSent bytesReceived time,
      event = .network hostname address bytesSent bytesReceived time := by
  cases event with
  | network hostname address bytesSent bytesReceived time => exact ⟨_, _, _, _, _, rfl⟩
  | _ => cases h

/-- The lower bound stays that of the first sample, the upper one becomes that of the last. -/
theorem Tracks.store (h : s.Tracks) (hkind : event.getKind = .networkUtilisation) :
    (s.store event).Tracks := by
  obtain ⟨hostname, address, bytesSent, bytesReceived, time, hevent⟩ := exists_bytes hkind
  refine ⟨fun hostname' address' bytesSent' bytesReceived' time' hhead => ?_,
    fun hostname' address' bytesSent' bytesReceived' time' hlast => ?_⟩
  · replace hhead : (s.events ++ [event]).head? = some _ := hhead
    by_cases hempty : s.events = []
    · rw [hempty, hevent] at hhead
      obtain ⟨-, -, rfl, rfl, -⟩ := UtilisationEvent.network.inj (Option.some.inj hhead)
      simp [UtilisationSeries.store, hevent, addBounds, addBytes, hempty, setMin, setMax]
    · rw [List.head?_append_of_ne_nil _ hempty] at hhead
      have hfirst := h.first hostname' address' bytesSent' bytesReceived' time' hhead
      simpa [UtilisationSeries.store, hevent, addBounds, addBytes, hempty, setMax] using hfirst
  · replace hlast : (s.events ++ [event]).getLast? = some _ := hlast
    rw [List.getLast?_concat, hevent] at hlast
    obtain ⟨-, -, rfl, rfl, -⟩ := UtilisationEvent.network.inj (Option.some.inj hlast)
    subst hevent
    exact ⟨rfl, rfl⟩

theorem tracks_ofEvents (hevents : ∀ event ∈ events, event.getKind = .networkUtilisation) :
    (ofEvents .networkUtilisation currentMSecs events).Tracks := by
  induction events using List.reverseRecOn with
  | nil =>
    refine ⟨fun _ _ _ _ _ hhead => ?_, fun _ _ _ _ _ hlast => ?_⟩
    · cases hhead
    · cases hlast
  | append_singleton events event ih =>
    rw [ofEvents_concat]
    exact Tracks.store (ih fun event hmem => hevents event (List.mem_append_left _ hmem))
      (hevents event (by simp))

theorem toDouble_min_mem (a b : ℕ) : toDouble (min a b) ∈ [toDouble a, toDouble b] := by
  rcases le_total a b with h | h
  · simp [min_eq_left h]
  · simp [min_eq_right h]

theorem toDouble_max_mem (a b : ℕ) : toDouble (max a b) ∈ [toDouble a, toDouble b] := by
  rcases le_total a b with h | h
  · simp [max_eq_right h]
  · simp [max_eq_left h]

theorem mem_valuesOf {v : ℚ} (h : event ∈ events) (hv : v ∈ event.values) : v ∈ valuesOf events :=
  List.mem_flatMap.mpr ⟨event, h, hv⟩

/-- The bounds of the network series are those of its first and its last event. -/
theorem Tracks.boundsHold_iff (h : s.Tracks) (hne : s.events ≠ [])
    (hkind : ∀ event ∈ s.events, event.getKind = .networkUtilisation) :
    s.BoundsHold ↔ FirstLeast s.events ∧ LastGreatest s.events := by
  obtain ⟨hostname, address, bytesSent, bytesReceived, time, hfirst⟩ :=
    exists_bytes (hkind _ (List.head_mem hne))
  obtain ⟨hostname', address', bytesSent', bytesReceived', time', hlast⟩ :=
    exists_bytes (hkind _ (List.getLast_mem hne))
  have hhead := hfirst ▸ List.head?_eq_some_head hne
  have htail := hlast ▸ List.getLast?_eq_some_getLast hne
  obtain ⟨hmin, hminSent⟩ := h.first _ _ _ _ _ hhead
  obtain ⟨hmax, hmaxSent⟩ := h.last _ _ _ _ _ htail
  constructor
  · intro hbounds
    refine ⟨fun _ _ a b _ hhead' v hv => ?_, fun _ _ a b _ htail' v hv => ?_⟩
    · rw [← (h.first _ _ _ _ _ hhead').1]
      exact hbounds.min.2 hv
    · rw [← (h.last _ _ _ _ _ htail').1]
      exact hbounds.max.2 hv
  · rintro ⟨hleast, hgreatest⟩
    refine ⟨⟨?_, fun v hv => ?_⟩, ⟨?_, fun v hv => ?_⟩, hminSent, hmaxSent⟩
    · rw [hmin]
      exact mem_valuesOf (List.mem_of_head? hhead) (toDouble_min_mem bytesSent bytesReceived)
    · rw [hmin]
      exact hleast _ _ _ _ _ hhead v hv
    · rw [hmax]
      exact mem_valuesOf (List.mem_of_getLast? htail)
        (toDouble_max_mem bytesSent' bytesReceived')
    · rw [hmax]
      exact hgreatest _ _ _ _ _ htail v hv

/-! ## The bounds of a series -/

/-- What is stored has been received. -/
theorem mem_of_mem_storedSamples (h : event ∈ storedSamples events) : event ∈ events :=
  (mem_of_mem_addAll h).resolve_left List.not_mem_nil

theorem storedSamples_ne_nil (h : events ≠ []) : storedSamples events ≠ [] := by
  obtain ⟨event, hevent⟩ := List.exists_mem_of_ne_nil events h
  intro hnil
  have hkey : event.getID ∈ (storedSamples events).map UtilisationEvent.getID :=
    (mem_keys_addAll _).mpr (.inr (List.mem_map_of_mem hevent))
  rw [hnil] at hkey
  cases hkey

/-- **The bounds are those of the events, and have been sent, exactly if** in the network series no
value is outside those of the first and the newest event, and in the other series the values are
neither all 0 nor all `DBL_MAX`. -/
theorem utilisationBounds_iff (hne : events ≠ []) (hkind : ∀ event ∈ events, event.getKind = kind) :
    ∃ s, (empty kind currentMSecs).addEvents events = .ok s ∧
      (s.BoundsHold ↔ BoundsCondition kind (storedSamples events)) := by
  have hevents := (lists_ofEvents kind currentMSecs (storedSamples events)).events_eq
  have hstored : ∀ event ∈ storedSamples events, event.getKind = kind := fun event hmem =>
    hkind event (mem_of_mem_storedSamples hmem)
  have hne' := storedSamples_ne_nil hne
  have hrun : (ofEvents kind currentMSecs []).addEvents events =
      .ok (ofEvents kind currentMSecs (storedSamples events)) := addEvents_ofEvents hkind
  refine ⟨_, hrun, ?_⟩
  unfold BoundsCondition
  by_cases hnetwork : kind = .networkUtilisation
  · subst hnetwork
    rw [if_pos rfl, (tracks_ofEvents hstored).boundsHold_iff, hevents]
    · rwa [hevents]
    · rwa [hevents]
  · rw [if_neg hnetwork, (keeps_ofEvents hnetwork hstored).boundsHold_iff, hevents]
    · rw [hevents]
      obtain ⟨event, hevent⟩ := List.exists_mem_of_ne_nil _ hne'
      obtain ⟨v, hvalues, -⟩ := exists_value (hstored event hevent ▸ hnetwork)
      exact ⟨v.val, mem_valuesOf hevent (by simp [hvalues])⟩
    · rw [hevents]
      exact fun v hv => values_of_single hnetwork hstored hv

/-- Samples of an interface of which the first has the least and the newest the greatest value; one
that comes for a time again is skipped. -/
def interfaceSamples : List UtilisationEvent :=
  [.network "node".toList [] 10 20 1000, .network "node".toList [] 15 12 2000,
    .network "node".toList [] 40 50 2000, .network "node".toList [] 11 25 3000]

theorem utilisationBounds_iff_network :
    ∃ s, (empty .networkUtilisation 4000).addEvents interfaceSamples = .ok s ∧ s.BoundsHold := by
  obtain ⟨s, hs, hiff⟩ := @utilisationBounds_iff .networkUtilisation 4000 interfaceSamples
    (List.cons_ne_nil _ _) (by simp [interfaceSamples, UtilisationEvent.getKind])
  refine ⟨s, hs, hiff.mpr ?_⟩
  have hstored : storedSamples interfaceSamples = [.network "node".toList [] 10 20 1000,
      .network "node".toList [] 15 12 2000, .network "node".toList [] 11 25 3000] := rfl
  have hvalues : ∀ v ∈ valuesOf (storedSamples interfaceSamples),
      toDouble 10 ≤ v ∧ v ≤ toDouble 25 := by
    intro v hv
    rw [hstored] at hv
    simp only [valuesOf, List.flatMap_cons, List.flatMap_nil, UtilisationEvent.values,
      List.cons_append, List.nil_append, Set.mem_ofPred_eq, List.mem_cons, List.not_mem_nil,
      or_false] at hv
    rcases hv with rfl | rfl | rfl | rfl | rfl | rfl <;> decide +kernel
  unfold BoundsCondition
  rw [if_pos rfl]
  constructor
  · intro _ _ a b _ hhead v hv
    rw [hstored] at hhead
    obtain ⟨-, -, rfl, rfl, -⟩ := UtilisationEvent.network.inj (Option.some.inj hhead)
    exact (hvalues v hv).1
  · intro _ _ a b _ hlast v hv
    rw [hstored] at hlast
    obtain ⟨-, -, rfl, rfl, -⟩ := UtilisationEvent.network.inj (Option.some.inj hlast)
    exact (hvalues v hv).2

/-- Two samples of an interface, the second one with fewer bytes. -/
theorem not_utilisationBounds : ¬ ∀ (kind : ChartDataKind) (currentMSecs : ℤ)
    (events : List UtilisationEvent), events ≠ [] → (∀ event ∈ events, event.getKind = kind) →
      ∃ s, (empty kind currentMSecs).addEvents events = .ok s ∧ s.BoundsHold := by
  intro h
  obtain ⟨s, hs, hbounds⟩ := h .networkUtilisation 4000
    [.network "node".toList [] 10 20 1000, .network "node".toList [] 5 8 2000]
    (List.cons_ne_nil _ _) (by simp [UtilisationEvent.getKind])
  have hstate : ∀ s', (empty .networkUtilisation 4000).addEvents
      [.network "node".toList [] 10 20 1000, .network "node".toList [] 5 8 2000] = .ok s' →
        s'.maxUtilisation = toDouble 8 ∧ toDouble 20 ∈ valuesOf s'.events := by
    intro s' hs'
    obtain rfl := Except.ok.inj hs'
    exact ⟨rfl, List.mem_cons_of_mem _ List.mem_cons_self⟩
  obtain ⟨hmax, hmem⟩ := hstate s hs
  have hle := hbounds.max.2 hmem
  rw [hmax] at hle
  revert hle
  decide +kernel

end UtilisationSeries

end Sem.Medea

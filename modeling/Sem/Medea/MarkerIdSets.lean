import Mathlib.Algebra.BigOperators.Group.Finset.Basic
import Mathlib.Data.Set.Card
import Sem.Lib.Records
import Sem.Lib.SortedSearch
import Sem.Lib.Table
import Sem.Medea.EventSeries

/-!
# Marker ids of a series

A `MarkerEventSeries` keeps the range and the duration of each marker id, and a map from start times
to the ids that start then. `addEvent` puts an id under the least time it has so far and leaves it
where it was.

* `addEvent_toEventSeries`: the events are those of `EventSeries.addEvent`.
* `Marks.addEvent`: an id is under each time that was its least one at some point.
* `markersAgree_iff`: the maps are those of the events exactly if the first event of each id is its
  earliest, and no event is skipped that is before or behind all others of its id.
-/

namespace Sem.Medea

open Xml (Text)
open Lib

/-- The range and the duration of each marker id, and the ids that start at a time. -/
structure MarkerEventSeries extends EventSeries Event where
  markerIDSetRanges : Table ℤ (ℤ × ℤ)
  markerIDSetDurations : Table ℤ ℤ
  startTimeMap : Table ℤ (Finset ℤ)

namespace MarkerEventSeries

/-! ## The series -/

/-- A series when it is constructed, at this time. -/
def empty (currentMSecs : ℤ) : MarkerEventSeries :=
  ⟨EventSeries.empty .marker currentMSecs, ∅, ∅, ∅⟩

/-- What `addEvent` does with the maps. -/
def addMarker (s : MarkerEventSeries) (event : MarkerEvent) : MarkerEventSeries :=
  let range := s.markerIDSetRanges.lookup event.markerID
  let minTime := range.elim event.time fun r => min event.time r.1
  let maxTime := range.elim event.time fun r => max event.time r.2
  { s with
    markerIDSetRanges := s.markerIDSetRanges.insert event.markerID (minTime, maxTime)
    markerIDSetDurations := s.markerIDSetDurations.insert event.markerID (maxTime - minTime)
    startTimeMap := s.startTimeMap.insert minTime <|
      (s.startTimeMap.lookup minTime).elim {event.markerID} (insert event.markerID) }

/-- `MarkerEventSeries::addEvent`. -/
def addEvent (s : MarkerEventSeries) (event : Event) : Except Text MarkerEventSeries :=
  match event with
  | .marker markerEvent =>
    if ¬ s.contains event then do
      let s := s.addMarker markerEvent
      let series ← s.toEventSeries.addEventToList event
      return { s with toEventSeries := series }
    else .ok s
  | _ => .error "MarkerEventSeries::addEvent - Invalid event kind.".toList

/-- The events one after another. -/
def addEvents (s : MarkerEventSeries) (events : List MarkerEvent) :
    Except Text MarkerEventSeries :=
  events.foldlM (fun s event => s.addEvent (.marker event)) s

/-- `startTimeMap_.value` -/
def startsAt (s : MarkerEventSeries) (time : ℤ) : Finset ℤ :=
  (s.startTimeMap.lookup time).getD ∅

/-- The keys of `startTimeMap_`, a `QMap`. -/
def startTimes (s : MarkerEventSeries) : List ℤ :=
  s.startTimeMap.keys.mergeSort fun a b => decide (a ≤ b)

/-- `getDataString`: the number of id sets and their total duration, of which it prints the first
and the quotient. -/
def getData (s : MarkerEventSeries) (times : List ℤ) : ℕ × ℤ :=
  ((times.map fun time => (s.startsAt time).card).sum,
    (times.map fun time =>
      ∑ id ∈ s.startsAt time, (s.markerIDSetDurations.lookup id).getD 0).sum)

/-- `getHoveredDataString`: what is between the start times, which is not defined if they are the
wrong way around. -/
def getHoveredData (s : MarkerEventSeries) (fromTimeMS toTimeMS : ℤ) : Option (ℕ × ℤ) :=
  if s.events = [] ∨ s.startTimes = [] then some (0, 0)
  else
    (lowerBound (fun time => time < fromTimeMS) s.startTimes).bind fun current =>
      (lowerBound (fun time => time ≤ toTimeMS) s.startTimes).bind fun upper =>
        if current ≤ upper then some (s.getData ((s.startTimes.take upper).drop current)) else none

/-! ## What the maps are for -/

/-- The times of the events of a marker id. -/
abbrev timesOf (events : List MarkerEvent) (markerID : ℤ) : Set ℤ :=
  valuesAt MarkerEvent.markerID MarkerEvent.time events markerID

/-- The marker ids that start between the times. -/
def startedBetween (events : List MarkerEvent) (fromTimeMS toTimeMS : ℤ) : Set ℤ :=
  {markerID | ∃ time, fromTimeMS ≤ time ∧ time ≤ toTimeMS ∧ IsLeast (timesOf events markerID) time}

/-- The maps of the series are those of the events. -/
structure Agrees (events : List MarkerEvent) (s : MarkerEventSeries) : Prop where
  range : ∀ markerID, (∃ event ∈ events, event.markerID = markerID) →
    ∃ first last, s.markerIDSetRanges.lookup markerID = some (first, last) ∧
      IsLeast (timesOf events markerID) first ∧ IsGreatest (timesOf events markerID) last ∧
      s.markerIDSetDurations.lookup markerID = some (last - first)
  start : ∀ markerID time,
    markerID ∈ s.startsAt time ↔ IsLeast (timesOf events markerID) time
  nonempty : ∀ time ids, s.startTimeMap.lookup time = some ids → ids.Nonempty
  count : ∀ fromTimeMS toTimeMS, fromTimeMS ≤ toTimeMS → ∃ duration,
    s.getHoveredData fromTimeMS toTimeMS =
      some ((startedBetween events fromTimeMS toTimeMS).ncard, duration)

/-- The events that are not skipped. -/
def stored (events : List MarkerEvent) : List MarkerEvent := addAll MarkerEvent.getID [] events

/-- The first event of each marker id is its earliest, and a latest one is not skipped. -/
def FirstIsLeast (events : List MarkerEvent) : Prop :=
  ∀ event ∈ events,
    (∃ first, (stored events).find? (fun e => e.markerID = event.markerID) = some first ∧
      ∀ e ∈ events, e.markerID = event.markerID → first.time ≤ e.time) ∧
    ∃ last ∈ stored events, last.markerID = event.markerID ∧
      ∀ e ∈ events, e.markerID = event.markerID → e.time ≤ last.time

/-! ## The run -/

/-- The maps after these events have been stored. -/
structure Marks (events : List MarkerEvent) (s : MarkerEventSeries) : Prop where
  kind : s.kind = .marker
  events_eq : s.events = events.map .marker
  eventIds_eq : s.eventIds = events.map MarkerEvent.getID
  range : ∀ markerID, RangeOf (timesOf events markerID) (s.markerIDSetRanges.lookup markerID)
  duration : ∀ markerID, s.markerIDSetDurations.lookup markerID =
    (s.markerIDSetRanges.lookup markerID).map fun r => r.2 - r.1
  start : ∀ markerID time, markerID ∈ s.startsAt time ↔
    Record MarkerEvent.markerID MarkerEvent.time events markerID time
  nonempty : ∀ time ids, s.startTimeMap.lookup time = some ids → ids.Nonempty

variable {s : MarkerEventSeries} {events : List MarkerEvent} {event : MarkerEvent}

theorem marks_empty (currentMSecs : ℤ) : Marks [] (empty currentMSecs) where
  kind := rfl
  events_eq := rfl
  eventIds_eq := rfl
  range markerID := by
    show timesOf [] markerID = ∅
    simp [Set.eq_empty_iff_forall_notMem, mem_valuesAt]
  duration _ := rfl
  start markerID time := iff_of_false (Finset.notMem_empty markerID) not_record_nil
  nonempty _ _ h := by cases h

section Stored

/-- The id of the event is under its least time as well, and nothing is taken out. -/
theorem mem_startsAt_addMarker (s : MarkerEventSeries) (event : MarkerEvent) (markerID time : ℤ) :
    markerID ∈ (s.addMarker event).startsAt time ↔
      markerID ∈ s.startsAt time ∨ markerID = event.markerID ∧
        time = (s.markerIDSetRanges.lookup event.markerID).elim event.time
          fun r => min event.time r.1 := by
  simp only [startsAt, addMarker, Table.lookup_insert]
  generalize (s.markerIDSetRanges.lookup event.markerID).elim event.time
    (fun r => min event.time r.1) = minTime
  by_cases htime : time = minTime
  · subst htime
    rw [if_pos rfl]
    cases s.startTimeMap.lookup time with
    | none => simp
    | some ids => simp [or_comm]
  · simp [htime]

variable (h : Marks events s) (event : MarkerEvent) (markerID time : ℤ)

include h

theorem Marks.range_addMarker : RangeOf (timesOf (events ++ [event]) markerID)
    ((s.addMarker event).markerIDSetRanges.lookup markerID) := by
  simp only [MarkerEventSeries.addMarker, Table.lookup_insert]
  by_cases hid : markerID = event.markerID
  · rw [if_pos hid, hid, timesOf, valuesAt_concat_self]
    exact (h.range event.markerID).insert event.time
  · rw [if_neg hid, timesOf, valuesAt_concat_ne (Ne.symm hid)]
    exact h.range markerID

theorem Marks.duration_addMarker : (s.addMarker event).markerIDSetDurations.lookup markerID =
    ((s.addMarker event).markerIDSetRanges.lookup markerID).map fun r => r.2 - r.1 := by
  simp only [MarkerEventSeries.addMarker, Table.lookup_insert]
  by_cases hid : markerID = event.markerID
  · rw [if_pos hid, if_pos hid]
    rfl
  · rw [if_neg hid, if_neg hid]
    exact h.duration markerID

theorem Marks.start_addMarker : markerID ∈ (s.addMarker event).startsAt time ↔
    Record MarkerEvent.markerID MarkerEvent.time (events ++ [event]) markerID time := by
  rw [mem_startsAt_addMarker, h.start]
  by_cases hid : markerID = event.markerID
  · subst hid
    have hleast : IsLeast (timesOf (events ++ [event]) event.markerID)
        ((s.markerIDSetRanges.lookup event.markerID).elim event.time
          fun r => min event.time r.1) := by
      rw [timesOf, valuesAt_concat_self]
      exact ((h.range event.markerID).insert event.time).1
    rw [record_concat]
    refine or_congr_right ⟨?_, fun htime => ⟨rfl, htime.unique hleast⟩⟩
    rintro ⟨-, rfl⟩
    exact hleast
  · rw [record_concat_ne (Ne.symm hid)]
    simp [hid]

omit h in
theorem nonempty_addMarker
    (hnonempty : ∀ time ids, s.startTimeMap.lookup time = some ids → ids.Nonempty) {time : ℤ}
    {ids : Finset ℤ} (hids : (s.addMarker event).startTimeMap.lookup time = some ids) :
    ids.Nonempty := by
  simp only [addMarker, Table.lookup_insert] at hids
  split at hids
  · rename_i htime
    obtain rfl := Option.some.inj hids
    rw [← htime]
    cases s.startTimeMap.lookup time with
    | none => exact Finset.singleton_nonempty _
    | some ids => exact Finset.insert_nonempty _ _
  · exact hnonempty time ids hids

end Stored

/-- The events of the series are those of `EventSeries.addEvent`, whatever the maps are. -/
theorem addEvent_toEventSeries (hkind : s.kind = .marker) (event : Event) :
    (s.addEvent event).map toEventSeries = s.toEventSeries.addEvent event := by
  unfold EventSeries.addEvent
  rw [hkind]
  cases event with
  | marker markerEvent =>
    have hsame : ¬ ChartEvent.getKind (Event.marker markerEvent) ≠ .marker := not_not.mpr rfl
    rw [if_neg hsame, addEvent]
    split
    · -- the maps have no part in what `addEventToList` does
      show Except.map toEventSeries
        (s.toEventSeries.addEventToList (.marker markerEvent) >>= _) = _
      cases s.toEventSeries.addEventToList (.marker markerEvent) <;> rfl
    · rfl
  | _ => rfl

/-- An event whose id text is in the series is skipped. -/
theorem addEvent_skipped (h : s.contains (.marker event)) : s.addEvent (.marker event) = .ok s :=
  if_neg (not_not.mpr h)

/-- Any other one is added, behind the other events. -/
theorem addEvent_stored (h : ¬ s.contains (.marker event)) :
    ∃ series : EventSeries Event, s.addEvent (.marker event) =
        .ok { s.addMarker event with toEventSeries := series } ∧
      series.kind = s.kind ∧ series.events = s.events ++ [.marker event] ∧
      series.eventIds = s.eventIds ++ [event.getID] := by
  let series : EventSeries Event := { s.toEventSeries with
    events := s.events ++ [.marker event]
    eventIds := s.eventIds ++ [event.getID] }
  have hseries : (s.addMarker event).toEventSeries.addEventToList (.marker event) =
      .ok (series.updateTimeRange event.time) := if_neg h
  refine ⟨series.updateTimeRange event.time, (if_pos h).trans ?_, rfl, rfl, rfl⟩
  show ((s.addMarker event).toEventSeries.addEventToList (.marker event) >>= fun series =>
    pure { s.addMarker event with toEventSeries := series }) = _
  rw [hseries]
  rfl

theorem Marks.addEvent (h : Marks events s) (event : MarkerEvent) :
    ∃ s', s.addEvent (.marker event) = .ok s' ∧
      Marks (addNew MarkerEvent.getID events event) s' := by
  have hcontains : s.contains (.marker event) =
      decide (event.getID ∈ events.map MarkerEvent.getID) := by
    rw [EventSeries.contains, h.eventIds_eq, List.contains_eq_mem]
    rfl
  unfold addNew
  by_cases hmem : event.getID ∈ events.map MarkerEvent.getID
  · rw [if_pos hmem]
    exact ⟨s, addEvent_skipped (by rw [hcontains]; simpa using hmem), h⟩
  · rw [if_neg hmem]
    have hnot : ¬ s.contains (.marker event) := by
      rw [hcontains]
      simpa using hmem
    obtain ⟨series, hseries, hkind, hevents, hids⟩ := addEvent_stored hnot
    refine ⟨_, hseries, ?_⟩
    exact {
      kind := hkind.trans h.kind
      events_eq := by
        show series.events = _
        rw [hevents, h.events_eq, List.map_append, List.map_singleton]
      eventIds_eq := by
        show series.eventIds = _
        rw [hids, h.eventIds_eq, List.map_append, List.map_singleton]
      range := h.range_addMarker event
      duration := h.duration_addMarker event
      start := h.start_addMarker event
      nonempty := fun _ _ => nonempty_addMarker event h.nonempty }

/-- The maps after a run of `addEvent`. -/
theorem Marks.addEvents (h : Marks events s) (received : List MarkerEvent) :
    ∃ s', s.addEvents received = .ok s' ∧
      Marks (addAll MarkerEvent.getID events received) s' := by
  induction received generalizing s events with
  | nil => exact ⟨s, rfl, h⟩
  | cons event received ih =>
    obtain ⟨s₁, hs₁, h₁⟩ := h.addEvent event
    obtain ⟨s₂, hs₂, h₂⟩ := ih h₁
    refine ⟨s₂, ?_, h₂⟩
    unfold MarkerEventSeries.addEvents at hs₂ ⊢
    rw [List.foldlM_cons, hs₁]
    exact hs₂

/-! ## The number of id sets -/

section Count

variable {fromTimeMS toTimeMS : ℤ}

theorem pairwise_startTimes (s : MarkerEventSeries) : s.startTimes.Pairwise fun a b => a ≤ b :=
  List.pairwise_mergeSort' (· ≤ ·) _

theorem nodup_startTimes (s : MarkerEventSeries) : s.startTimes.Nodup :=
  (List.mergeSort_perm _ _).nodup_iff.mpr s.startTimeMap.keys_nodup

theorem mem_startTimes_of_mem {markerID time : ℤ} (h : markerID ∈ s.startsAt time) :
    time ∈ s.startTimes := by
  rw [startTimes, List.mem_mergeSort, ← AList.mem_keys]
  cases hlookup : s.startTimeMap.lookup time with
  | none => simp [startsAt, hlookup] at h
  | some ids => exact Table.mem_of_lookup hlookup

/-- The ids under different start times, each of which is under one of them only. -/
theorem getData_fst {times : List ℤ} (hnodup : times.Nodup)
    (hunique : ∀ markerID time time', markerID ∈ s.startsAt time → markerID ∈ s.startsAt time' →
      time = time') :
    (s.getData times).1 = {markerID | ∃ time ∈ times, markerID ∈ s.startsAt time}.ncard := by
  have hset : {markerID | ∃ time ∈ times, markerID ∈ s.startsAt time} =
      (times.toFinset.biUnion s.startsAt : Set ℤ) := by
    ext markerID
    simp
  rw [hset, Set.ncard_coe_finset, Finset.card_biUnion, List.sum_toFinset _ hnodup]
  · rfl
  · intro time _ time' _ hne
    refine Finset.disjoint_left.mpr fun markerID hmem hmem' => ?_
    exact hne (hunique markerID time time' hmem hmem')

/-- Where each id is under one start time, it is counted once. -/
theorem Marks.getHoveredData_eq (h : Marks events s)
    (hunique : ∀ markerID time time', markerID ∈ s.startsAt time → markerID ∈ s.startsAt time' →
      time = time') (hle : fromTimeMS ≤ toTimeMS) :
    ∃ duration, s.getHoveredData fromTimeMS toTimeMS =
      some ({markerID | ∃ time, fromTimeMS ≤ time ∧ time ≤ toTimeMS ∧
        markerID ∈ s.startsAt time}.ncard, duration) := by
  unfold getHoveredData
  by_cases hempty : s.events = [] ∨ s.startTimes = []
  · have hnone : ∀ markerID time, markerID ∉ s.startsAt time := by
      intro markerID time hmem
      rcases hempty with hevents | htimes
      · rw [h.events_eq, List.map_eq_nil_iff] at hevents
        subst hevents
        exact not_record_nil ((h.start markerID time).mp hmem)
      · have := mem_startTimes_of_mem hmem
        rw [htimes] at this
        cases this
    rw [if_pos hempty]
    simp [hnone]
  · have hsorted := pairwise_startTimes s
    have hdrop := drop_take_eq_filter (f := id) hsorted hle
    have hle' : (s.startTimes.takeWhile fun time => time < fromTimeMS).length ≤
        (s.startTimes.takeWhile fun time => time ≤ toTimeMS).length := by
      rw [← length_takeWhile_add (p := fun time => decide (time < fromTimeMS))
        (q := fun time => decide (time ≤ toTimeMS)) fun time hlt => by grind]
      exact Nat.le_add_right _ _
    have hlower : lowerBound (fun time => decide (time < fromTimeMS)) s.startTimes = some _ :=
      lowerBound_of_partitioned (partitioned_lt (f := id) hsorted fromTimeMS)
    have hupper : lowerBound (fun time => decide (time ≤ toTimeMS)) s.startTimes = some _ :=
      lowerBound_of_partitioned (partitioned_le (f := id) hsorted toTimeMS)
    simp only [id_eq] at hdrop
    rw [if_neg hempty, hlower, Option.bind_some, hupper, Option.bind_some, if_pos hle', hdrop]
    refine ⟨(s.getData _).2, congrArg some (Prod.ext ?_ rfl)⟩
    rw [getData_fst ((nodup_startTimes s).filter _) hunique]
    congr 1
    ext markerID
    constructor
    · rintro ⟨time, htime, hmem⟩
      obtain ⟨hfrom, hto⟩ : fromTimeMS ≤ time ∧ time ≤ toTimeMS := by
        simpa using (List.mem_filter.mp htime).2
      exact ⟨time, hfrom, hto, hmem⟩
    · rintro ⟨time, hfrom, hto, hmem⟩
      exact ⟨time, List.mem_filter.mpr ⟨mem_startTimes_of_mem hmem, by simp [hfrom, hto]⟩, hmem⟩

end Count

/-! ## The maps and the events -/

theorem mem_of_mem_stored (h : event ∈ stored events) : event ∈ events :=
  (mem_of_mem_addAll h).resolve_left List.not_mem_nil

theorem timesOf_stored_subset (events : List MarkerEvent) (markerID : ℤ) :
    timesOf (stored events) markerID ⊆ timesOf events markerID :=
  valuesAt_mono fun _ => mem_of_mem_stored

section First

variable (hmarks : Marks (stored events) s) (hfirst : FirstIsLeast events)

include hmarks hfirst

theorem Marks.start_iff (markerID time : ℤ) :
    markerID ∈ s.startsAt time ↔ IsLeast (timesOf events markerID) time := by
  rw [hmarks.start]
  by_cases hseen : ∃ event ∈ events, event.markerID = markerID
  · obtain ⟨event, hevent, rfl⟩ := hseen
    obtain ⟨⟨first, hfind, hle⟩, last, hlast, hid, -⟩ := hfirst event hevent
    refine (record_iff_isLeast_iff (timesOf_stored_subset events event.markerID)
      ⟨last, hlast, hid⟩).mpr ⟨first, hfind, ?_⟩ time
    rintro _ ⟨e, he, hid, rfl⟩
    exact hle e he hid
  · refine iff_of_false (fun hrecord => ?_) fun hleast => ?_
    · obtain ⟨e, hfind, -⟩ := exists_find?_of_record hrecord
      exact hseen ⟨e, mem_of_mem_stored (List.mem_of_find?_eq_some hfind),
        by simpa using List.find?_some hfind⟩
    · obtain ⟨e, he, hid, -⟩ := hleast.1
      exact hseen ⟨e, he, hid⟩

theorem Marks.range_of_first (hevent : event ∈ events) :
    ∃ first last, s.markerIDSetRanges.lookup event.markerID = some (first, last) ∧
      IsLeast (timesOf events event.markerID) first ∧
      IsGreatest (timesOf events event.markerID) last ∧
      s.markerIDSetDurations.lookup event.markerID = some (last - first) := by
  obtain ⟨⟨first, hfind, hle⟩, last, hlast, hid, hge⟩ := hfirst event hevent
  have hsub := timesOf_stored_subset events event.markerID
  have hfirst : first.time ∈ timesOf (stored events) event.markerID :=
    ⟨first, List.mem_of_find?_eq_some hfind, by simpa using List.find?_some hfind, rfl⟩
  have hlast : last.time ∈ timesOf (stored events) event.markerID := ⟨last, hlast, hid, rfl⟩
  have hlower : first.time ∈ lowerBounds (timesOf events event.markerID) := by
    rintro _ ⟨e, he, hid, rfl⟩
    exact hle e he hid
  have hupper : last.time ∈ upperBounds (timesOf events event.markerID) := by
    rintro _ ⟨e, he, hid, rfl⟩
    exact hge e he hid
  have hrange := hmarks.range event.markerID
  have hduration := hmarks.duration event.markerID
  cases hlookup : s.markerIDSetRanges.lookup event.markerID with
  | none =>
    rw [hlookup] at hrange
    have hnone : timesOf (stored events) event.markerID = ∅ := hrange
    rw [hnone] at hfirst
    cases hfirst
  | some r =>
    obtain ⟨least, greatest⟩ := r
    rw [hlookup] at hrange hduration
    obtain rfl : least = first.time :=
      hrange.1.unique ⟨hfirst, fun time htime => hlower (hsub htime)⟩
    obtain rfl : greatest = last.time :=
      hrange.2.unique ⟨hlast, fun time htime => hupper (hsub htime)⟩
    exact ⟨_, _, rfl, ⟨hsub hfirst, hlower⟩, ⟨hsub hlast, hupper⟩, hduration⟩

theorem Marks.agrees : Agrees events s where
  range markerID := by
    rintro ⟨event, hevent, rfl⟩
    exact hmarks.range_of_first hfirst hevent
  start := hmarks.start_iff hfirst
  nonempty := hmarks.nonempty
  count fromTimeMS toTimeMS hle := by
    have hunique : ∀ markerID time time', markerID ∈ s.startsAt time →
        markerID ∈ s.startsAt time' → time = time' := fun markerID time time' hmem hmem' =>
      ((hmarks.start_iff hfirst markerID time).mp hmem).unique
        ((hmarks.start_iff hfirst markerID time').mp hmem')
    obtain ⟨duration, hdata⟩ := hmarks.getHoveredData_eq hunique hle
    refine ⟨duration, hdata.trans ?_⟩
    simp only [hmarks.start_iff hfirst]
    rfl

end First

/-- **The maps of a series are those of its events exactly if** the first event of each marker id is
its earliest, and a latest one is not skipped. -/
theorem markersAgree_iff (currentMSecs : ℤ) (events : List MarkerEvent) :
    ∃ s, (empty currentMSecs).addEvents events = .ok s ∧
      (Agrees events s ↔ FirstIsLeast events) := by
  obtain ⟨s, hs, hmarks⟩ := (marks_empty currentMSecs).addEvents events
  replace hmarks : Marks (stored events) s := hmarks
  refine ⟨s, hs, ?_⟩
  constructor
  · intro hagrees event hevent
    obtain ⟨first, last, hlookup, -, hlast, -⟩ :=
      hagrees.range event.markerID ⟨event, hevent, rfl⟩
    have hrange := hmarks.range event.markerID
    rw [hlookup] at hrange
    obtain ⟨⟨e, he, hid, htime⟩, -⟩ := hrange.1
    obtain ⟨e', he', hid', htime'⟩ := hrange.2.1
    have hrecord := (record_iff_isLeast_iff (timesOf_stored_subset events event.markerID)
      ⟨e, he, hid⟩).mp fun time =>
        (hmarks.start event.markerID time).symm.trans (hagrees.start event.markerID time)
    obtain ⟨a, hfind, hlower⟩ := hrecord
    refine ⟨⟨a, hfind, fun e he hid => hlower ⟨e, he, hid, rfl⟩⟩, e', he', hid', fun e he hid => ?_⟩
    rw [htime']
    exact hlast.2 ⟨e, he, hid, rfl⟩
  · exact hmarks.agrees

/-- Two events of one marker id, the earlier one received last. -/
theorem not_markersAgree : ¬ ∀ currentMSecs events, ∃ s,
    (empty currentMSecs).addEvents events = .ok s ∧ Agrees events s := by
  intro h
  obtain ⟨s, hs, hagrees⟩ := h 3000
    [⟨"5".toList, "frame".toList, 7, 2000⟩, ⟨"5".toList, "frame".toList, 7, 1000⟩]
  have hstart : ∀ s', (empty 3000).addEvents
      [⟨"5".toList, "frame".toList, 7, 2000⟩, ⟨"5".toList, "frame".toList, 7, 1000⟩] = .ok s' →
        (7 : ℤ) ∈ s'.startsAt 2000 ∧ (7 : ℤ) ∈ s'.startsAt 1000 := by
    intro s' hs'
    obtain rfl := Except.ok.inj hs'
    decide +kernel
  obtain ⟨hlater, hearlier⟩ := hstart s hs
  have := ((hagrees.start 7 2000).mp hlater).unique ((hagrees.start 7 1000).mp hearlier)
  omega

end MarkerEventSeries

end Sem.Medea

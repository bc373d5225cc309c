import Mathlib.Order.Bounds.Basic
import Sem.Lib.SortedSearch
import Sem.Medea.EventSeries

/-!
# Queries of an event series

The queries of `EventSeries` search its events by their times with `std::lower_bound`, while the
events stand in the order in which they have been added. A query is `none` where the language does
not define what it does: a search in events that are not partitioned at the time, or iterators that
run past the end.

* `getNextTime_agrees`, `getPreviousTime_agrees`, `betweenAgrees_iff`: what the queries return where
  the events are in ascending order.
* `Bounded.addEvents`: the bounds of the times, with those that a new series has.
* `agrees_iff`: when the queries are those of a linear scan.
-/

namespace Sem.Medea

open Lib

namespace EventSeries

open ChartEvent (getKind getID getTimeMS)

variable {E : Type} [ChartEvent E]

/-! ## The queries -/

/-- `getFirstAfterTime`, as an index. -/
def getFirstAfterTime (s : EventSeries E) (time : ℤ) : Option ℕ :=
  lowerBound (fun event => getTimeMS event < time) s.events

/-- `getPreviousTime`. -/
def getPreviousTime (s : EventSeries E) (time : ℤ) : Option ℤ :=
  match s.events with
  | [] => some time
  | first :: _ => (s.getFirstAfterTime time).bind fun
    | 0 => some (min (getTimeMS first) time)
    | i + 1 => s.events[i]?.map getTimeMS

/-- `getNextTime`. -/
def getNextTime (s : EventSeries E) (time : ℤ) : Option ℤ :=
  (s.getFirstAfterTime time).map fun i =>
    ((s.events.drop i).find? fun event => time < getTimeMS event).elim time getTimeMS

/-- The end of `getEventsBetween`: from the first event that is not before the first time to the
first one behind the second. -/
def getEventsInRange (s : EventSeries E) (fromTimeMS toTimeMS : ℤ) : Option (List E) :=
  (s.getFirstAfterTime fromTimeMS).bind fun current =>
    (s.getFirstAfterTime toTimeMS).bind fun i =>
      let toItr :=
        i + ((s.events.drop i).takeWhile fun event => getTimeMS event ≤ toTimeMS).length
      if current ≤ toItr then some ((s.events.take toItr).drop current) else none

/-- `getEventsBetween`; -1 stands for the bound of the series. -/
def getEventsBetween (s : EventSeries E) (fromTimeMS toTimeMS : ℤ) : Option (List E) :=
  if fromTimeMS = -1 ∧ toTimeMS = -1 then some s.events
  else if fromTimeMS = -1 then
    if toTimeMS < s.minTime then some [] else s.getEventsInRange s.minTime toTimeMS
  else if toTimeMS = -1 then
    if s.maxTime < fromTimeMS then some [] else s.getEventsInRange fromTimeMS s.maxTime
  else s.getEventsInRange fromTimeMS toTimeMS

/-! ## A linear scan -/

/-- The times of the events of a series. -/
def times (s : EventSeries E) : Set ℤ := {time | ∃ event ∈ s.events, getTimeMS event = time}

/-- An event is between the times; -1 stands for no bound. -/
def Between (fromTimeMS toTimeMS : ℤ) (event : E) : Prop :=
  (fromTimeMS = -1 ∨ fromTimeMS ≤ getTimeMS event) ∧ (toTimeMS = -1 ∨ getTimeMS event ≤ toTimeMS)

instance (fromTimeMS toTimeMS : ℤ) (event : E) : Decidable (Between fromTimeMS toTimeMS event) :=
  inferInstanceAs (Decidable (_ ∧ _))

/-- The events between the times, in ascending order. -/
def BetweenAgrees (s : EventSeries E) (fromTimeMS toTimeMS : ℤ) : Prop :=
  ∃ events, s.getEventsBetween fromTimeMS toTimeMS = some events ∧
    events.Perm (s.events.filter (Between fromTimeMS toTimeMS ·)) ∧
    events.Pairwise fun event event' => getTimeMS event ≤ getTimeMS event'

/-- The least time behind this one, or the time itself. -/
def NextAgrees (s : EventSeries E) (time : ℤ) : Prop :=
  ∃ next, s.getNextTime time = some next ∧
    (IsLeast {t | t ∈ s.times ∧ time < t} next ∨ ((∀ t ∈ s.times, t ≤ time) ∧ next = time))

/-- The greatest time before this one, or the time itself. -/
def PreviousAgrees (s : EventSeries E) (time : ℤ) : Prop :=
  ∃ previous, s.getPreviousTime time = some previous ∧
    (IsGreatest {t | t ∈ s.times ∧ t < time} previous ∨
      ((∀ t ∈ s.times, time ≤ t) ∧ previous = time))

/-- The bounds are those of the events, where there are any. -/
def RangeAgrees (s : EventSeries E) : Prop :=
  s.events ≠ [] → IsLeast s.times s.minTime ∧ IsGreatest s.times s.maxTime

/-- All queries by one time, a query between two times and the bounds are those of a linear scan. -/
structure Agrees (s : EventSeries E) (fromTimeMS toTimeMS : ℤ) : Prop where
  next : ∀ time, s.NextAgrees time
  previous : ∀ time, s.PreviousAgrees time
  between : s.BetweenAgrees fromTimeMS toTimeMS
  range : s.RangeAgrees

/-! ## Ascending events -/

/-- The events of a series are in ascending order. -/
def Ascending (events : List E) : Prop :=
  events.Pairwise fun event event' => getTimeMS event ≤ getTimeMS event'

instance (events : List E) : Decidable (Ascending events) :=
  inferInstanceAs (Decidable (events.Pairwise _))

section Ascending

variable {s : EventSeries E} {time fromTimeMS toTimeMS : ℤ}

theorem getFirstAfterTime_eq (h : Ascending s.events) : s.getFirstAfterTime time =
    some (s.events.takeWhile fun event => getTimeMS event < time).length :=
  lowerBound_of_partitioned (partitioned_lt h time)

theorem getNextTime_agrees (h : Ascending s.events) (time : ℤ) : s.NextAgrees time := by
  refine ⟨_, by rw [getNextTime, getFirstAfterTime_eq h, Option.map_some], ?_⟩
  rw [drop_length_takeWhile, (partitioned_lt h time).dropWhile_eq_filter]
  cases hfind : (s.events.filter fun event => !decide (getTimeMS event < time)).find?
      fun event => time < getTimeMS event with
  | none =>
    refine .inr ⟨?_, rfl⟩
    rintro _ ⟨event, hevent, rfl⟩
    have hnone := List.find?_eq_none.mp hfind event
    simp only [List.mem_filter] at hnone
    grind
  | some next =>
    obtain ⟨hnext, before, after, hsplit, hbefore⟩ := List.find?_eq_some_iff_append.mp hfind
    have hsorted : (before ++ next :: after).Pairwise
        fun event event' => getTimeMS event ≤ getTimeMS event' := hsplit ▸ h.filter _
    have hmem : next ∈ s.events := (List.mem_filter.mp (List.mem_of_find?_eq_some hfind)).1
    refine .inl ⟨⟨⟨next, hmem, rfl⟩, by simpa using hnext⟩, ?_⟩
    rintro _ ⟨⟨event, hevent, rfl⟩, htime⟩
    have hlater : event ∈ before ++ next :: after := by
      rw [← hsplit, List.mem_filter]
      exact ⟨hevent, by simpa using htime.le⟩
    rcases List.mem_append.mp hlater with hevent | hevent
    · have := hbefore event hevent
      simp at this
      omega
    · rcases List.mem_cons.mp hevent with rfl | hevent
      · exact le_refl _
      · exact (List.pairwise_cons.mp (List.pairwise_append.mp hsorted).2.1).1 event hevent

theorem getPreviousTime_agrees (h : Ascending s.events) (time : ℤ) : s.PreviousAgrees time := by
  have hfilter := (partitioned_lt h time).takeWhile_eq_filter
  cases hevents : s.events with
  | nil =>
    refine ⟨time, by rw [getPreviousTime, hevents], .inr ⟨?_, rfl⟩⟩
    rintro _ ⟨event, hevent, -⟩
    simp [hevents] at hevent
  | cons first rest =>
    cases hi : (s.events.takeWhile fun event => getTimeMS event < time).length with
    | zero =>
      have hnone : ∀ t ∈ s.times, time ≤ t := by
        rintro _ ⟨event, hevent, rfl⟩
        have hnil := List.length_eq_zero_iff.mp hi
        rw [hfilter, List.filter_eq_nil_iff] at hnil
        simpa using hnil event hevent
      refine ⟨time, ?_, .inr ⟨hnone, rfl⟩⟩
      have hfirst := hnone (getTimeMS first) ⟨first, by simp [hevents], rfl⟩
      rw [getPreviousTime, hevents]
      simp only [getFirstAfterTime_eq h, hi, Option.bind_some, min_eq_right hfirst]
    | succ i =>
      obtain hnil | ⟨before, previous, hbefore⟩ := List.eq_nil_or_concat
          (s.events.takeWhile fun event => getTimeMS event < time)
      · rw [hnil] at hi
        cases hi
      have hlength : before.length = i := by simpa [hbefore] using hi
      have hsplit : s.events = before ++ previous ::
          s.events.dropWhile fun event => getTimeMS event < time := by
        conv_lhs => rw [← List.takeWhile_append_dropWhile (l := s.events)
          (p := fun event => getTimeMS event < time), hbefore]
        simp
      have hget : s.events[i]? = some previous := by
        rw [hsplit, ← hlength, List.getElem?_append_right (Nat.le_refl _), Nat.sub_self]
        rfl
      have hmem : ∀ event, event ∈ before ++ [previous] ↔
          event ∈ s.events ∧ getTimeMS event < time := by
        intro event
        rw [← List.concat_eq_append, ← hbefore, hfilter, List.mem_filter, decide_eq_true_iff]
      obtain ⟨hprevious, hlt⟩ := (hmem previous).mp (by simp)
      refine ⟨getTimeMS previous, ?_, .inl ⟨⟨⟨previous, hprevious, rfl⟩, hlt⟩, ?_⟩⟩
      · rw [getPreviousTime, hevents]
        simp only [getFirstAfterTime_eq h, hi, Option.bind_some]
        rw [← hevents, hget, Option.map_some]
      · rintro _ ⟨⟨event, hevent, rfl⟩, htime⟩
        rcases List.mem_append.mp ((hmem event).mpr ⟨hevent, htime⟩) with hevent | hevent
        · rw [hsplit] at h
          exact (List.pairwise_append.mp h).2.2 event hevent previous List.mem_cons_self
        · rw [List.mem_singleton.mp hevent]

/-- The events in a range, unless there are some between times in the wrong order. -/
theorem getEventsInRange_eq (h : Ascending s.events) :
    s.getEventsInRange fromTimeMS toTimeMS =
      if fromTimeMS ≤ toTimeMS then
        some (s.events.filter fun event =>
          fromTimeMS ≤ getTimeMS event ∧ getTimeMS event ≤ toTimeMS)
      else if ∃ event ∈ s.events, toTimeMS < getTimeMS event ∧ getTimeMS event < fromTimeMS then
        none
      else some [] := by
  have hto : (s.events.takeWhile fun event => getTimeMS event < toTimeMS).length +
      ((s.events.drop (s.events.takeWhile fun event => getTimeMS event < toTimeMS).length).takeWhile
        fun event => getTimeMS event ≤ toTimeMS).length =
      (s.events.takeWhile fun event => getTimeMS event ≤ toTimeMS).length :=
    length_takeWhile_add fun event hevent => by simp at hevent ⊢; omega
  rw [getEventsInRange, getFirstAfterTime_eq h, getFirstAfterTime_eq h]
  simp only [Option.bind_some, hto]
  by_cases hle : fromTimeMS ≤ toTimeMS
  · have hiter := length_takeWhile_add (l := s.events)
      (p := fun event => getTimeMS event < fromTimeMS)
      (q := fun event => getTimeMS event ≤ toTimeMS)
      fun event hevent => by simp at hevent ⊢; omega
    rw [if_pos (by omega), if_pos hle, drop_take_eq_filter h hle]
  · -- the second place is not behind the first one
    have hiter := length_takeWhile_add (l := s.events)
      (p := fun event => getTimeMS event ≤ toTimeMS)
      (q := fun event => getTimeMS event < fromTimeMS)
      fun event hevent => by simp at hevent ⊢; omega
    have hbetween : ((s.events.drop
        (s.events.takeWhile fun event => getTimeMS event ≤ toTimeMS).length).takeWhile
          fun event => getTimeMS event < fromTimeMS).length = 0 ↔
        ¬ ∃ event ∈ s.events, toTimeMS < getTimeMS event ∧ getTimeMS event < fromTimeMS := by
      have hdrop : Ascending (s.events.dropWhile fun event => getTimeMS event ≤ toTimeMS) :=
        h.sublist (List.dropWhile_sublist _)
      rw [drop_length_takeWhile, (partitioned_lt hdrop fromTimeMS).takeWhile_eq_filter,
        (partitioned_le h toTimeMS).dropWhile_eq_filter, List.filter_filter,
        List.length_eq_zero_iff, List.filter_eq_nil_iff]
      simp
      grind
    rw [if_neg hle]
    by_cases hexists : ∃ event ∈ s.events,
        toTimeMS < getTimeMS event ∧ getTimeMS event < fromTimeMS
    · rw [if_pos hexists, if_neg]
      intro hiter'
      exact hbetween.mp (by omega) hexists
    · have hzero := hbetween.mpr hexists
      rw [if_neg hexists, if_pos (by omega), List.drop_eq_nil_of_le]
      rw [List.length_take]
      omega

theorem BetweenAgrees.of_eq (h : Ascending s.events)
    (heq : s.getEventsBetween fromTimeMS toTimeMS =
      some (s.events.filter (Between fromTimeMS toTimeMS ·))) :
    s.BetweenAgrees fromTimeMS toTimeMS :=
  ⟨_, heq, .refl _, h.filter _⟩

/-- Times in the wrong order, with an event between them. -/
def Across (events : List E) (fromTimeMS toTimeMS : ℤ) : Prop :=
  fromTimeMS ≠ -1 ∧ toTimeMS ≠ -1 ∧
    ∃ event ∈ events, toTimeMS < getTimeMS event ∧ getTimeMS event < fromTimeMS

theorem betweenAgrees_iff (h : Ascending s.events) (hmin : ∀ t ∈ s.times, s.minTime ≤ t)
    (hmax : ∀ t ∈ s.times, t ≤ s.maxTime) :
    s.BetweenAgrees fromTimeMS toTimeMS ↔ ¬ Across s.events fromTimeMS toTimeMS := by
  have hmin' : ∀ event ∈ s.events, s.minTime ≤ getTimeMS event :=
    fun event hevent => hmin _ ⟨event, hevent, rfl⟩
  have hmax' : ∀ event ∈ s.events, getTimeMS event ≤ s.maxTime :=
    fun event hevent => hmax _ ⟨event, hevent, rfl⟩
  have hagrees : ∀ {p : E → Bool}, s.getEventsBetween fromTimeMS toTimeMS =
      some (s.events.filter p) → (∀ event ∈ s.events, p event = true ↔
        Between fromTimeMS toTimeMS event) → s.BetweenAgrees fromTimeMS toTimeMS := by
    intro p heq hp
    refine .of_eq h (heq.trans (congrArg some (List.filter_congr fun event hevent => ?_)))
    rw [Bool.eq_iff_iff, hp event hevent, decide_eq_true_iff]
  have hnil : s.events.filter (fun _ => false) = [] := List.filter_false _
  by_cases hfrom : fromTimeMS = -1
  · refine iff_of_true ?_ fun hacross => hacross.1 hfrom
    by_cases hto : toTimeMS = -1
    · refine hagrees (p := fun _ => true) ?_ fun event _ => by simp [Between, hfrom, hto]
      rw [getEventsBetween, if_pos ⟨hfrom, hto⟩, List.filter_true]
    · by_cases hlt : toTimeMS < s.minTime
      · refine hagrees (p := fun _ => false) ?_ fun event hevent => ?_
        · simp only [getEventsBetween, hfrom, hto, hlt, if_true, and_false, if_false, hnil]
        · have := hmin' event hevent
          simp [Between, hfrom, hto]
          omega
      · refine hagrees (p := fun event => s.minTime ≤ getTimeMS event ∧ getTimeMS event ≤ toTimeMS)
          ?_ fun event hevent => ?_
        · simp only [getEventsBetween, hfrom, hto, hlt, if_true, and_false, if_false]
          rw [getEventsInRange_eq h, if_pos (not_lt.mp hlt)]
        · have := hmin' event hevent
          simp [Between, hfrom, hto]
          omega
  · by_cases hto : toTimeMS = -1
    · refine iff_of_true ?_ fun hacross => hacross.2.1 hto
      by_cases hlt : s.maxTime < fromTimeMS
      · refine hagrees (p := fun _ => false) ?_ fun event hevent => ?_
        · simp only [getEventsBetween, hfrom, hto, hlt, if_true, false_and, if_false, hnil]
        · have := hmax' event hevent
          simp [Between, hfrom, hto]
          omega
      · refine hagrees
          (p := fun event => fromTimeMS ≤ getTimeMS event ∧ getTimeMS event ≤ s.maxTime)
          ?_ fun event hevent => ?_
        · simp only [getEventsBetween, hfrom, hto, hlt, if_true, false_and, if_false]
          rw [getEventsInRange_eq h, if_pos (not_lt.mp hlt)]
        · have := hmax' event hevent
          simp [Between, hfrom, hto]
          omega
    · have hbetween : s.getEventsBetween fromTimeMS toTimeMS =
          s.getEventsInRange fromTimeMS toTimeMS := by
        simp only [getEventsBetween, hfrom, hto, false_and, if_false]
      rw [getEventsInRange_eq h] at hbetween
      by_cases hle : fromTimeMS ≤ toTimeMS
      · rw [if_pos hle] at hbetween
        refine iff_of_true (hagrees hbetween fun event _ => by simp [Between, hfrom, hto]) ?_
        rintro ⟨-, -, event, -, hlt, hlt'⟩
        omega
      · rw [if_neg hle] at hbetween
        by_cases hexists : ∃ event ∈ s.events,
            toTimeMS < getTimeMS event ∧ getTimeMS event < fromTimeMS
        · rw [if_pos hexists] at hbetween
          refine iff_of_false ?_ fun hnot => hnot ⟨hfrom, hto, hexists⟩
          rintro ⟨events, hsome, -⟩
          rw [hbetween] at hsome
          cases hsome
        · rw [if_neg hexists, ← hnil] at hbetween
          refine iff_of_true (hagrees hbetween fun event _ => ?_) fun hacross =>
            hexists hacross.2.2
          simp [Between, hfrom, hto]
          omega

end Ascending

/-! ## The bounds -/

section Bounds

variable {kind : ChartDataKind} {currentMSecs : ℤ} {s s' : EventSeries E} {events : List E}
  {event : E}

/-- The bounds are those of the events and of a new series. -/
structure Bounded (currentMSecs : ℤ) (s : EventSeries E) : Prop where
  min : IsLeast (insert currentMSecs s.times) s.minTime
  max : IsGreatest (insert 0 s.times) s.maxTime

theorem Bounded.addEvent (h : Bounded currentMSecs s) (hs : s.addEvent event = .ok s') :
    Bounded currentMSecs s' := by
  unfold EventSeries.addEvent at hs
  split at hs
  · cases hs
  · split at hs
    · unfold addEventToList at hs
      split at hs
      · cases hs
      · cases hs
        have htimes : ({ s with
            events := s.events ++ [event]
            eventIds := s.eventIds ++ [getID event] }.updateTimeRange (getTimeMS event)).times =
              insert (getTimeMS event) s.times := by
          ext time
          simp [times, updateTimeRange]
          grind
        refine ⟨?_, ?_⟩
        · rw [htimes, Set.insert_comm]
          exact h.min.insert _
        · rw [htimes, Set.insert_comm]
          exact h.max.insert _
    · cases hs
      exact h

theorem Bounded.addEvents (h : Bounded currentMSecs s) (hs : s.addEvents events = .ok s') :
    Bounded currentMSecs s' := by
  induction events generalizing s with
  | nil =>
    cases hs
    exact h
  | cons event events ih =>
    rw [EventSeries.addEvents, List.foldlM_cons] at hs
    cases hadd : s.addEvent event with
    | error e =>
      rw [hadd] at hs
      cases hs
    | ok s₁ =>
      rw [hadd] at hs
      exact ih (h.addEvent hadd) hs

theorem bounded_empty : Bounded currentMSecs (empty kind currentMSecs : EventSeries E) := by
  have htimes : (empty kind currentMSecs : EventSeries E).times = ∅ := by
    ext time
    simp [times, empty]
  refine ⟨?_, ?_⟩
  · rw [htimes, insert_empty_eq]
    exact isLeast_singleton
  · rw [htimes, insert_empty_eq]
    exact isGreatest_singleton

theorem isLeast_iff_of_insert {S : Set ℤ} {a m : ℤ} (h : IsLeast (insert a S) m) :
    IsLeast S m ↔ ∃ t ∈ S, t ≤ a := by
  have hlower : m ∈ lowerBounds S := fun t ht => h.2 (Set.mem_insert_of_mem a ht)
  refine ⟨fun hleast => ⟨m, hleast.1, h.2 (Set.mem_insert a S)⟩, ?_⟩
  rintro ⟨t, ht, hle⟩
  refine ⟨?_, hlower⟩
  rcases h.1 with rfl | hm
  · rwa [le_antisymm (hlower ht) hle]
  · exact hm

theorem isGreatest_iff_of_insert {S : Set ℤ} {a m : ℤ} (h : IsGreatest (insert a S) m) :
    IsGreatest S m ↔ ∃ t ∈ S, a ≤ t := by
  have hupper : m ∈ upperBounds S := fun t ht => h.2 (Set.mem_insert_of_mem a ht)
  refine ⟨fun hgreatest => ⟨m, hgreatest.1, h.2 (Set.mem_insert a S)⟩, ?_⟩
  rintro ⟨t, ht, hle⟩
  refine ⟨?_, hupper⟩
  rcases h.1 with rfl | hm
  · rwa [le_antisymm hle (hupper ht)]
  · exact hm

/-- The bounds are those of the events, unless all events are later than the series or before
1970. -/
theorem Bounded.rangeAgrees_iff (h : Bounded currentMSecs s) :
    s.RangeAgrees ↔ (s.events ≠ [] → (∃ t ∈ s.times, t ≤ currentMSecs) ∧ ∃ t ∈ s.times, 0 ≤ t) := by
  rw [RangeAgrees, isLeast_iff_of_insert h.min, isGreatest_iff_of_insert h.max]

end Bounds

/-! ## When the queries agree -/

/-- Every query by one time is defined only in ascending events. -/
theorem ascending_of_nextAgrees {s : EventSeries E} (h : ∀ time, s.NextAgrees time) :
    Ascending s.events := by
  refine pairwise_le_iff_partitioned.mpr fun time => ?_
  obtain ⟨next, hnext, -⟩ := h time
  obtain ⟨i, hi, -⟩ := Option.map_eq_some_iff.mp hnext
  exact partitioned_of_lowerBound hi

/-- The first event of each id, in the order of arrival. -/
def received (events : List E) : List E := addAll getID [] events

/-- **The queries are those of a linear scan exactly if the events arrive in ascending order, one of
them is not later than the series and one is not before 1970, and the times of the query are not in
the wrong order around an event.** -/
theorem agrees_iff (currentMSecs : ℤ) {kind : ChartDataKind} {events : List E}
    (hkind : ∀ event ∈ events, getKind event = kind) (fromTimeMS toTimeMS : ℤ) :
    ∃ s, (empty kind currentMSecs).addEvents events = .ok s ∧
      (s.Agrees fromTimeMS toTimeMS ↔
        Ascending (received events) ∧
        (events ≠ [] → (∃ event ∈ received events, getTimeMS event ≤ currentMSecs) ∧
          ∃ event ∈ received events, 0 ≤ getTimeMS event) ∧
        ¬ Across (received events) fromTimeMS toTimeMS) := by
  obtain ⟨s, hs, hlists⟩ := (lists_empty kind currentMSecs).addEvents hkind
  have hevents : s.events = received events := hlists.events_eq
  have hbounded := bounded_empty.addEvents hs
  refine ⟨s, hs, ?_⟩
  have hrange : s.RangeAgrees ↔
      (events ≠ [] → (∃ event ∈ received events, getTimeMS event ≤ currentMSecs) ∧
        ∃ event ∈ received events, 0 ≤ getTimeMS event) := by
    have hnil : s.events ≠ [] ↔ events ≠ [] := by
      rw [hevents]
      cases events with
      | nil => simp [received, addAll]
      | cons event events =>
        refine iff_of_true (fun hnil => ?_) (List.cons_ne_nil _ _)
        have hkey : getID event ∈ (received (event :: events)).map getID :=
          (mem_keys_addAll _).mpr (.inr List.mem_cons_self)
        rw [hnil] at hkey
        cases hkey
    rw [hbounded.rangeAgrees_iff, hnil]
    simp [times, hevents]
  have hmin : ∀ t ∈ s.times, s.minTime ≤ t := fun t ht =>
    hbounded.min.2 (Set.mem_insert_of_mem _ ht)
  have hmax : ∀ t ∈ s.times, t ≤ s.maxTime := fun t ht =>
    hbounded.max.2 (Set.mem_insert_of_mem _ ht)
  rw [← hevents] at hrange ⊢
  constructor
  · rintro ⟨hnext, hprevious, hbetween, hrange'⟩
    have hascending := ascending_of_nextAgrees hnext
    exact ⟨hascending, hrange.mp hrange', (betweenAgrees_iff hascending hmin hmax).mp hbetween⟩
  · rintro ⟨hascending, hrange', hacross⟩
    exact ⟨getNextTime_agrees hascending, getPreviousTime_agrees hascending,
      (betweenAgrees_iff hascending hmin hmax).mpr hacross, hrange.mpr hrange'⟩

/-- Three events of a port in the order of their times, the second of which comes again. -/
theorem agrees_iff_ordered :
    let events := [Event.portEvent ⟨"5".toList, 1, .sent, [], 1000⟩,
      .portEvent ⟨"5".toList, 2, .sent, [], 2000⟩, .portEvent ⟨"5".toList, 2, .sent, [], 2000⟩,
      .portEvent ⟨"5".toList, 3, .received, [], 2500⟩]
    ∃ s, (empty .portEvent 3000).addEvents events = .ok s ∧ s.Agrees 1500 2200 := by
  intro events
  have hkind : ∀ event ∈ events, getKind event = .portEvent := by
    simp [events, getKind, Event.getKind]
  obtain ⟨s, hs, hiff⟩ := agrees_iff 3000 hkind 1500 2200
  refine ⟨s, hs, hiff.mpr ⟨by decide +kernel, fun _ => by decide +kernel, ?_⟩⟩
  rintro ⟨-, -, event, -, hto, hfrom⟩
  omega

/-- Two events of a port, the later one received first. -/
theorem not_agrees : ¬ ∀ currentMSecs kind (events : List Event) fromTimeMS toTimeMS,
    (∀ event ∈ events, getKind event = kind) →
      ∃ s, (empty kind currentMSecs).addEvents events = .ok s ∧ s.Agrees fromTimeMS toTimeMS := by
  intro h
  have hkind : ∀ event ∈ [Event.portEvent ⟨"5".toList, 2, .sent, [], 2000⟩,
      Event.portEvent ⟨"5".toList, 1, .sent, [], 1000⟩], getKind event = .portEvent := by
    simp [getKind, Event.getKind]
  obtain ⟨s, hs, hagrees⟩ := h 3000 .portEvent _ (-1) (-1) hkind
  obtain ⟨s', hs', hlists⟩ := (lists_empty .portEvent 3000).addEvents hkind
  rw [hs] at hs'
  obtain rfl := Except.ok.inj hs'
  have hascending := ascending_of_nextAgrees hagrees.next
  rw [hlists.events_eq] at hascending
  revert hascending
  decide +kernel

end EventSeries

end Sem.Medea

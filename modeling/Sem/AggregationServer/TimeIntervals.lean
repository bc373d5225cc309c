import Sem.AggregationServer.DatabaseClient

/-!
# Intervals of requests

The interval of a request is a list of timestamps: none, a start, or a start and an end. It comes to
the queries of the database client in three ways: as texts, where the text of the epoch stands for
no end, as texts that may be empty, and as an `UnboundedTimeRange`, whose instants are written as
numbers of seconds.

* `bounds_denote_iff`: for which intervals the bounds of a query are those of the request.
* `not_bounds_denote_network`: a start that a query of the network has as a number.
-/

namespace Sem.AggregationServer

open Xml (Text)

/-- `google::protobuf::Timestamp`, in the range of its years. -/
structure Timestamp where
  seconds : Int
  nanos : ℕ
  seconds_ge : -62135596800 ≤ seconds
  seconds_lt : seconds < 253402300800
  nanos_lt : nanos < 1000000000
  deriving DecidableEq, Repr

/-- `SecondsToTimestamp(0)` -/
def epoch : Timestamp := ⟨0, 0, by decide, by decide, by decide⟩

variable (time : TimeUtil Timestamp)

/-- `FormatTimestamp(0.0)` -/
def formatTimestampZero : Text := time.toString epoch

/-! ## Instants of the system clock -/

/-- The nanoseconds of a `time_point`; the fraction of the second is not in it. -/
def fromTimeT (t : Timestamp) : Int := (t.seconds * 1000000000).bmod (2 ^ 64)

/-- `StringFromTimepoint` -/
def stringFromTimepoint (timepoint : Int) : Text := intText (timepoint.tdiv 1000000000)

/-- A range of which each end may be missing. -/
structure UnboundedTimeRange where
  rangeStart : Option Int
  rangeEnd : Option Int
  deriving DecidableEq, Repr

/-- `FromProto`, which throws `std::invalid_argument` for more than two times. -/
def fromProto (timerange : List Timestamp) : Option UnboundedTimeRange :=
  if 2 < timerange.length then none
  else some ⟨timerange[0]?.map fromTimeT, timerange[1]?.map fromTimeT⟩

/-! ## Queries -/

/-- The bounds in the `WHERE` clause of a query; each is what stands between the quotes. -/
structure TimeBounds where
  column : String
  lower : Option Text
  upper : Option Text
  deriving DecidableEq, Repr

/-- An end that is the epoch is not written. -/
def sentinelBounds (column : String) (startTime endTime : Text) : TimeBounds where
  column := column
  lower := some startTime
  upper := if endTime ≠ formatTimestampZero time then some endTime else none

/-- The bounds in `DatabaseClient::GetPortLifecycleEventInfo`. -/
def getPortLifecycleEventInfo : Text → Text → TimeBounds :=
  sentinelBounds time "PortLifecycleEvent.SampleTime"

/-- The bounds in `DatabaseClient::GetPortEventInfo`. -/
def getPortEventInfo : Text → Text → TimeBounds :=
  sentinelBounds time "PortEvent.SampleTime"

/-- The bounds in `DatabaseClient::GetWorkloadEventInfo`. -/
def getWorkloadEventInfo : Text → Text → TimeBounds :=
  sentinelBounds time "WorkloadEvent.SampleTime"

/-- The bounds in `DatabaseClient::GetCPUUtilInfo`. -/
def getCPUUtilInfo : Text → Text → TimeBounds :=
  sentinelBounds time "Hardware.SystemStatus.SampleTime"

/-- The bounds in `DatabaseClient::GetMemUtilInfo`. -/
def getMemUtilInfo : Text → Text → TimeBounds :=
  sentinelBounds time "Hardware.SystemStatus.SampleTime"

/-- The bounds in `DatabaseClient::GetMarkerInfo`, where an empty text is no bound. -/
def getMarkerInfo (startTime endTime : Text) : TimeBounds where
  column := "WorkloadEvent.SampleTime"
  lower := if startTime.isEmpty then none else some startTime
  upper := if endTime.isEmpty then none else some endTime

/-- The instants of a range are written where there are any. -/
def rangeBounds (column : String) (timeRange : UnboundedTimeRange) : TimeBounds where
  column := column
  lower := timeRange.rangeStart.map stringFromTimepoint
  upper := timeRange.rangeEnd.map stringFromTimepoint

/-- The bounds in `DatabaseClient::GetNetworkUtilInfo`. -/
def getNetworkUtilInfo : UnboundedTimeRange → TimeBounds :=
  rangeBounds "Hardware.InterfaceStatus.SampleTime"

/-- The bounds in `DatabaseClient::GetGPUMetricInfo`. -/
def getGPUMetricInfo : UnboundedTimeRange → TimeBounds :=
  rangeBounds "Hardware.GPUStatus.SampleTime"

/-! ## Requests -/

/-- The text of a time of the interval, or this one. -/
def timeText (default : Text) (t : Option Timestamp) : Text :=
  match t with
  | some t => time.toString t
  | none => default

/-- The requests that have an interval. -/
inductive InfoRequest
  | portLifecycle | portEvent | workload | marker | cpuUtilisation | memoryUtilisation
  | networkUtilisation | gpuMetric
  deriving DecidableEq, Repr

/-- The bounds of the query for a request with this interval; none when it throws. -/
def bounds (interval : List Timestamp) : InfoRequest → Option TimeBounds
  | .portLifecycle => some (getPortLifecycleEventInfo time
      (timeText time (time.toString epoch) interval[0]?)
      (timeText time (time.toString epoch) interval[1]?))
  | .portEvent => some (getPortEventInfo time
      (timeText time (time.toString epoch) interval[0]?)
      (timeText time (time.toString epoch) interval[1]?))
  | .workload => some (getWorkloadEventInfo time
      (timeText time (time.toString epoch) interval[0]?)
      (timeText time (time.toString epoch) interval[1]?))
  | .marker => some (getMarkerInfo (timeText time [] interval[0]?) (timeText time [] interval[1]?))
  | .cpuUtilisation => some (getCPUUtilInfo time
      (timeText time (time.toString epoch) interval[0]?)
      (timeText time (time.toString epoch) interval[1]?))
  | .memoryUtilisation => some (getMemUtilInfo time
      (timeText time (time.toString epoch) interval[0]?)
      (timeText time (time.toString epoch) interval[1]?))
  | .networkUtilisation => (fromProto interval).map getNetworkUtilInfo
  | .gpuMetric => (fromProto interval).map getGPUMetricInfo

/-- The database reads the bounds as these instants; where there is none there is no bound. -/
structure TimeBounds.Denotes (b : TimeBounds) (rangeStart rangeEnd : Option Timestamp) :
    Prop where
  lower : b.lower.map time.parse = rangeStart.map some
  upper : b.upper.map time.parse = rangeEnd.map some

/-- The bounds of the query are those of the request. -/
def SameSpan (interval : List Timestamp) (request : InfoRequest) : Prop :=
  ∃ b, bounds time interval request = some b ∧ b.Denotes time interval[0]? interval[1]?

/-- The database reads the texts of `TimeUtil`, which are not empty, as what they are the texts of,
and no number as an instant of that second. -/
structure ReadsTimes : Prop where
  parse_toString (t : Timestamp) : time.parse (time.toString t) = some t
  toString_ne_nil (t : Timestamp) : time.toString t ≠ []
  parse_number (t : Timestamp) : time.parse (stringFromTimepoint (fromTimeT t)) ≠ some t

/-- The intervals whose bounds a query has. -/
def InfoRequest.Keeps (interval : List Timestamp) : InfoRequest → Prop
  | .portLifecycle | .portEvent | .workload | .cpuUtilisation | .memoryUtilisation =>
    interval ≠ [] ∧ interval[1]? ≠ some epoch
  | .marker => True
  | .networkUtilisation | .gpuMetric => interval = []

instance (interval : List Timestamp) (request : InfoRequest) :
    Decidable (request.Keeps interval) := by
  unfold InfoRequest.Keeps
  split <;> infer_instance

/-! ## What the bounds denote -/

variable {time} {interval : List Timestamp}

theorem ReadsTimes.toString_inj (h : ReadsTimes time) {s t : Timestamp}
    (heq : time.toString s = time.toString t) : s = t := by
  have hparse := h.parse_toString s
  rw [heq, h.parse_toString] at hparse
  exact (Option.some.inj hparse).symm

/-- A start is written as it is, and no start as the epoch; an end at the epoch is not written. -/
theorem ReadsTimes.sentinelBounds_denotes_iff (h : ReadsTimes time) (column : String)
    (rangeStart rangeEnd : Option Timestamp) :
    (sentinelBounds time column (timeText time (time.toString epoch) rangeStart)
        (timeText time (time.toString epoch) rangeEnd)).Denotes time rangeStart rangeEnd ↔
      rangeStart ≠ none ∧ rangeEnd ≠ some epoch := by
  have hlower : (some (timeText time (time.toString epoch) rangeStart)).map time.parse =
      rangeStart.map some ↔ rangeStart ≠ none := by
    cases rangeStart <;> simp [timeText, h.parse_toString]
  have hupper : (if timeText time (time.toString epoch) rangeEnd ≠ formatTimestampZero time then
      some (timeText time (time.toString epoch) rangeEnd) else none).map time.parse =
      rangeEnd.map some ↔ rangeEnd ≠ some epoch := by
    cases rangeEnd with
    | none => simp [timeText, formatTimestampZero]
    | some t =>
      by_cases ht : t = epoch
      · subst ht
        simp [timeText, formatTimestampZero]
      · have hne : time.toString t ≠ formatTimestampZero time := fun heq =>
          ht (h.toString_inj heq)
        simp [timeText, hne, h.parse_toString, ht]
  exact ⟨fun hd => ⟨hlower.mp hd.lower, hupper.mp hd.upper⟩,
    fun hd => ⟨hlower.mpr hd.1, hupper.mpr hd.2⟩⟩

theorem ReadsTimes.getMarkerInfo_denotes (h : ReadsTimes time)
    (rangeStart rangeEnd : Option Timestamp) :
    (getMarkerInfo (timeText time [] rangeStart) (timeText time [] rangeEnd)).Denotes time
      rangeStart rangeEnd := by
  have hbound : ∀ t : Option Timestamp,
      (if (timeText time [] t).isEmpty then none else some (timeText time [] t)).map time.parse =
        t.map some := by
    intro t
    cases t with
    | none => rfl
    | some t =>
      have hne : (time.toString t).isEmpty = false := by
        simpa using h.toString_ne_nil t
      simp [timeText, hne, h.parse_toString]
  exact ⟨hbound rangeStart, hbound rangeEnd⟩

/-- A number of seconds is no time. -/
theorem ReadsTimes.rangeBounds_denotes_iff (h : ReadsTimes time) (column : String) :
    (∃ b, (fromProto interval).map (rangeBounds column) = some b ∧
        b.Denotes time interval[0]? interval[1]?) ↔ interval = [] := by
  constructor
  · rintro ⟨b, hb, hdenotes⟩
    obtain ⟨range, hrange, rfl⟩ := Option.map_eq_some_iff.mp hb
    unfold fromProto at hrange
    split at hrange
    · cases hrange
    · cases hrange
      cases interval with
      | nil => rfl
      | cons t interval =>
        have hlower := hdenotes.lower
        simp only [rangeBounds, List.getElem?_cons_zero, Option.map_some, Option.some.injEq]
          at hlower
        exact absurd hlower (h.parse_number t)
  · rintro rfl
    exact ⟨_, rfl, rfl, rfl⟩

/-- **The bounds of a query are those of the request exactly if** it is for markers, it has texts
and the request has a start and no end at the epoch, or it has a range and the request has none. -/
theorem bounds_denote_iff (h : ReadsTimes time) (interval : List Timestamp)
    (request : InfoRequest) : SameSpan time interval request ↔ request.Keeps interval := by
  have hsentinel : ∀ column, (∃ b, some (sentinelBounds time column
      (timeText time (time.toString epoch) interval[0]?)
      (timeText time (time.toString epoch) interval[1]?)) = some b ∧
        b.Denotes time interval[0]? interval[1]?) ↔
      interval ≠ [] ∧ interval[1]? ≠ some epoch := by
    intro column
    have hstart : interval[0]? ≠ none ↔ interval ≠ [] := by
      cases interval <;> simp
    rw [← hstart, ← h.sentinelBounds_denotes_iff column]
    constructor
    · rintro ⟨b, hb, hdenotes⟩
      cases hb
      exact hdenotes
    · exact fun hdenotes => ⟨_, rfl, hdenotes⟩
  cases request with
  | portLifecycle | portEvent | workload | cpuUtilisation | memoryUtilisation => exact hsentinel _
  | marker => exact iff_of_true ⟨_, rfl, h.getMarkerInfo_denotes _ _⟩ trivial
  | networkUtilisation | gpuMetric => exact h.rangeBounds_denotes_iff _

/-! ## Texts of times -/

/-- Half a second into 2020. -/
def newYear : Timestamp := ⟨1577836800, 500000000, by decide, by decide, by decide⟩

/-- The texts of two times; the other ones have as many marks as they have seconds and
nanoseconds. -/
def textOfTime (t : Timestamp) : Text :=
  if t = epoch then "1970-01-01T00:00:00Z".toList
  else if t = newYear then "2020-01-01T00:00:00.500Z".toList
  else 'T' :: (List.replicate (t.seconds + 62135596800).toNat 's' ++ List.replicate t.nanos 'n')

/-- Reads the texts of `textOfTime` back, and the two times of the witnesses. -/
def timeOfText (s : Text) : Option Timestamp :=
  if s = "1970-01-01T00:00:00Z".toList then some epoch
  else if s = "2020-01-01T00:00:00.500Z".toList then some newYear
  else if s.head? = some 'T' then
    let seconds := (s.count 's' : Int) - 62135596800
    if h : -62135596800 ≤ seconds ∧ seconds < 253402300800 ∧ s.count 'n' < 1000000000 then
      some ⟨seconds, s.count 'n', h.1, h.2.1, h.2.2⟩
    else none
  else none

/-- A `TimeUtil` that can be computed with. -/
def markedTimes : TimeUtil Timestamp := ⟨textOfTime, timeOfText⟩

theorem timeOfText_textOfTime (t : Timestamp) : timeOfText (textOfTime t) = some t := by
  unfold textOfTime
  by_cases hepoch : t = epoch
  · rw [if_pos hepoch, hepoch]
    rfl
  · by_cases hyear : t = newYear
    · rw [if_neg hepoch, if_pos hyear, hyear]
      decide +kernel
    · rw [if_neg hepoch, if_neg hyear]
      let marks : Text := 'T' :: (List.replicate (t.seconds + 62135596800).toNat 's' ++
        List.replicate t.nanos 'n')
      have hcount : marks.count 's' = (t.seconds + 62135596800).toNat := by
        simp [marks, List.count_replicate]
      have hnanos : marks.count 'n' = t.nanos := by
        simp [marks, List.count_replicate]
      have hseconds : (marks.count 's' : Int) - 62135596800 = t.seconds := by
        have hge := t.seconds_ge
        omega
      have hhead : marks.head? = some 'T' := rfl
      show timeOfText marks = some t
      unfold timeOfText
      rw [if_neg, if_neg, if_pos hhead]
      · simp only [hseconds, hnanos]
        rw [dif_pos ⟨t.seconds_ge, t.seconds_lt, t.nanos_lt⟩]
      · intro heq
        rw [heq] at hhead
        revert hhead
        decide
      · intro heq
        rw [heq] at hhead
        revert hhead
        decide

theorem readsTimes_markedTimes : ReadsTimes markedTimes where
  parse_toString := timeOfText_textOfTime
  toString_ne_nil t := by
    show textOfTime t ≠ []
    unfold textOfTime
    split
    · decide
    · split
      · decide
      · exact List.cons_ne_nil _ _
  parse_number t := by
    have hmark : 'T' ∉ stringFromTimepoint (fromTimeT t) := notMem_intText rfl (by decide) _
    show timeOfText (stringFromTimepoint (fromTimeT t)) ≠ some t
    have hnone : ∀ s : Text, 'T' ∉ s → timeOfText s = none := by
      intro s hs
      unfold timeOfText
      rw [if_neg, if_neg, if_neg]
      · exact fun hhead => hs (List.mem_of_head? hhead)
      · rintro rfl
        exact hs (by decide)
      · rintro rfl
        exact hs (by decide)
    rw [hnone _ hmark]
    nofun

theorem bounds_denote_portEvent : SameSpan markedTimes [newYear] .portEvent :=
  (bounds_denote_iff readsTimes_markedTimes [newYear] .portEvent).mpr (by decide)

/-- A query of the network has a start as a number. -/
theorem not_bounds_denote_network : ¬ SameSpan markedTimes [newYear] .networkUtilisation := by
  rintro ⟨b, hb, hdenotes⟩
  have hbounds : bounds markedTimes [newYear] .networkUtilisation =
      some ⟨"Hardware.InterfaceStatus.SampleTime", some "1577836800".toList, none⟩ := by
    decide +kernel
  rw [hbounds] at hb
  cases hb
  have hlower := hdenotes.lower
  revert hlower
  decide +kernel

end Sem.AggregationServer

import Mathlib.Logic.Function.Basic
import Sem.Lib.Extremes
import Sem.Lib.Run
import Sem.Lib.Table
import Sem.Lib.Xml

/-!
# The range of the timeline (`timelinechartview.cpp`)

The view keeps the total time range and the longest duration of the experiment runs that have a
chart. A call that computes a difference or a sum of times that does not fit in 64 bits has no
result.

* `Kept.step`: what the view has stored is right after each call that meets `Meets`.
* `rangeLaw_of_meets`: the ranges are right, and no call overflows, while no chart is removed that
  is the only one and no chart is replaced with a newer time.
* `removeChart_eq_none`: removing the only chart overflows.
-/

namespace Sem.Medea.Timeline

open Xml (Text)
open Lib

/-! ## 64 bits -/

/-- `std::numeric_limits<qint64>::min()`. -/
def int64Min : ℤ := -9223372036854775808

/-- `std::numeric_limits<qint64>::max()`. -/
def int64Max : ℤ := 9223372036854775807

/-- A result that is undefined if it does not fit. -/
def checked (n : ℤ) : Option ℤ := if int64Min ≤ n ∧ n ≤ int64Max then some n else none

theorem checked_of_le {n : ℤ} (hmin : 0 ≤ n) (hmax : n ≤ int64Max) : checked n = some n :=
  if_pos ⟨le_trans (by decide) hmin, hmax⟩

/-! ## The view -/

/-- `TIME_DISPLAY_FORMAT`. -/
inductive TimeDisplayFormat
  | value | dateTime | elapsedTime
  deriving DecidableEq, Repr

/-- What a chart knows of its run. -/
structure Chart where
  experimentRunId : UInt32
  experimentRunStartTime : ℤ
  deriving DecidableEq, Repr

/-- What `addChart` reads of a run. -/
structure ExperimentRunData where
  experimentRunId : UInt32
  startTime : ℤ
  lastUpdatedTime : ℤ
  deriving DecidableEq, Repr

/-- `TimelineChartView`. The counts have signed keys. -/
structure View where
  format : TimeDisplayFormat
  experimentRunSeriesCount : Table Int32 ℤ := ∅
  experimentRunTimeRange : Table UInt32 (ℤ × ℤ) := ∅
  longestExperimentRunDuration : UInt32 × ℤ := (0, int64Min)
  totalTimeRange : ℤ × ℤ := (int64Max, int64Min)
  charts : Table Text Chart := ∅
  /-- What `timelineAxis_` shows. -/
  axisRange : ℤ × ℤ := (0, 1)

namespace View

variable (v : View)

/-- `updateTimelineRange`; a sum that overflows is not defined. -/
def updateTimelineRange : Option View := do
  let difference ← checked (v.totalTimeRange.2 - v.totalTimeRange.1)
  let startTime := if v.format = .elapsedTime then 0 else v.totalTimeRange.1
  let duration :=
    if v.format = .elapsedTime then v.longestExperimentRunDuration.2 else difference
  let endTime ← checked (startTime + duration)
  some { v with axisRange := (startTime, endTime) }

/-- `setTimeRangeForExperimentRun`: the longest duration is not made shorter. -/
def setTimeRangeForExperimentRun (run : UInt32) (startTime lastUpdatedTime : ℤ) : Option View := do
  let duration ← checked (lastUpdatedTime - startTime)
  some { v with
    longestExperimentRunDuration :=
      if v.longestExperimentRunDuration.2 < duration then (run, duration)
      else v.longestExperimentRunDuration
    totalTimeRange := (min startTime v.totalTimeRange.1, max lastUpdatedTime v.totalTimeRange.2)
    experimentRunTimeRange := v.experimentRunTimeRange.insert run (startTime, lastUpdatedTime) }

/-- One turn of the loop over the runs that are left. -/
def recalculate (updateLongestDuration : Bool) (acc : (ℤ × ℤ) × (UInt32 × ℤ))
    (entry : Sigma fun _ : UInt32 => ℤ × ℤ) : Option ((ℤ × ℤ) × (UInt32 × ℤ)) :=
  let total := (min acc.1.1 entry.2.1, max acc.1.2 entry.2.2)
  if updateLongestDuration then
    (checked (entry.2.2 - entry.2.1)).map fun range =>
      (total, if acc.2.2 < range then (entry.1, range) else acc.2)
  else some (total, acc.2)

/-- `decrementSeriesCountForExperimentRun`: the last series takes the run's range away. -/
def decrementSeriesCountForExperimentRun (run : UInt32) : Option View :=
  match v.experimentRunSeriesCount.lookup run.toInt32 with
  | none => some v
  | some count =>
    if 0 < count - 1 then
      some { v with
        experimentRunSeriesCount := v.experimentRunSeriesCount.insert run.toInt32 (count - 1) }
    else do
      let ranges := v.experimentRunTimeRange.erase run
      let updateLongestDuration := run = v.longestExperimentRunDuration.1
      let longest := if updateLongestDuration then (run, int64Min)
        else v.longestExperimentRunDuration
      let (total, longest) ← ranges.entries.foldlM (recalculate updateLongestDuration)
        ((int64Max, int64Min), longest)
      updateTimelineRange { v with
        experimentRunSeriesCount := v.experimentRunSeriesCount.erase run.toInt32
        experimentRunTimeRange := ranges
        longestExperimentRunDuration := longest
        totalTimeRange := total }

/-- The view without runs; the bounds are the values that every time replaces. -/
def chartsEmptied : View :=
  { v with
    totalTimeRange := (int64Max, int64Min)
    longestExperimentRunDuration := (0, int64Min)
    experimentRunTimeRange := ∅
    experimentRunSeriesCount := ∅
    axisRange := (0, 1) }

/-- `addChart`; it throws without a series, and a series that has a chart is replaced in it. -/
def addChart (series : Option Text) (run : ExperimentRunData) : Option View :=
  match series with
  | none => some v
  | some series =>
    if series ∈ v.charts then some v
    else do
      let count := (v.experimentRunSeriesCount.lookup run.experimentRunId.toInt32).getD 0
      let v := { v with
        experimentRunSeriesCount :=
          v.experimentRunSeriesCount.insert run.experimentRunId.toInt32 (count + 1) }
      let v ← v.setTimeRangeForExperimentRun run.experimentRunId run.startTime run.lastUpdatedTime
      updateTimelineRange
        { v with charts := v.charts.insert series ⟨run.experimentRunId, run.startTime⟩ }

/-- `removeChart`, outside `clearChartList`. -/
def removeChart (id : Text) : Option View :=
  match v.charts.lookup id with
  | none => some v
  | some chart => do
    let v ← v.decrementSeriesCountForExperimentRun chart.experimentRunId
    let v := { v with charts := v.charts.erase id }
    some (if v.charts.keys = [] then v.chartsEmptied else v)

/-- `updateExperimentRunLastUpdatedTime`, of a run that is shown. -/
def updateExperimentRunLastUpdatedTime (run : UInt32) (time : ℤ) : Option View :=
  match v.experimentRunTimeRange.lookup run with
  | none => some v
  | some range => do
    let v ← v.setTimeRangeForExperimentRun run range.1 time
    v.updateTimelineRange

/-- `clearChartList`. -/
def clearChartList : View := chartsEmptied { v with charts := ∅ }

/-- The run of each chart. -/
def shown : List UInt32 := v.charts.values.map (·.experimentRunId)

end View

/-! ## Calls -/

/-- The calls from the outside. -/
inductive Call
  | addChart (series : Option Text) (run : ExperimentRunData)
  | removeChart (id : Text)
  | updateExperimentRunLastUpdatedTime (run : UInt32) (time : ℤ)
  | clearChartList

/-- The view, and the newest time that a call has told of each run. -/
structure State where
  view : View
  lastUpdated : UInt32 → ℤ

namespace Call

/-- The function of a call. -/
def run (v : View) : Call → Option View
  | addChart series run => v.addChart series run
  | removeChart id => v.removeChart id
  | updateExperimentRunLastUpdatedTime run time => v.updateExperimentRunLastUpdatedTime run time
  | clearChartList => some v.clearChartList

/-- The newest times after a call. -/
def tell (lastUpdated : UInt32 → ℤ) : Call → UInt32 → ℤ
  | addChart (some _) run => Function.update lastUpdated run.experimentRunId run.lastUpdatedTime
  | updateExperimentRunLastUpdatedTime run time => Function.update lastUpdated run time
  | addChart none _ | removeChart _ | clearChartList => lastUpdated

/-- A run has one start, and no time that is told of it is before another. -/
def Valid (start : UInt32 → ℤ) (s : State) : Call → Prop
  | addChart (some _) run => run.startTime = start run.experimentRunId ∧
      s.lastUpdated run.experimentRunId ≤ run.lastUpdatedTime ∧ run.lastUpdatedTime ≤ int64Max
  | updateExperimentRunLastUpdatedTime run time => s.lastUpdated run ≤ time ∧ time ≤ int64Max
  | addChart none _ | removeChart _ | clearChartList => True

end Call

/-- One call, and what it says of the times of the runs. -/
def State.step (s : State) (call : Call) : Option State :=
  (call.run s.view).map fun v => ⟨v, call.tell s.lastUpdated⟩

/-- A view with its calls; before the first call that tells of a run, it was updated last at its
start. -/
def timeline (start : UInt32 → ℤ) (format : TimeDisplayFormat) : Lts State Call where
  init s := s = ⟨{ format := format }, start⟩
  step s call s' := call.Valid start s ∧ s.step call = some s'

/-- Times of 64 bits. -/
def Starts (start : UInt32 → ℤ) : Prop := ∀ run, int64Min ≤ start run ∧ start run ≤ int64Max

/-- The ranges are those of the runs with a chart. -/
def State.RangeLaw (start : UInt32 → ℤ) (s : State) : Prop :=
  s.view.shown ≠ [] →
    IsLeast (start '' {run | run ∈ s.view.shown}) s.view.totalTimeRange.1 ∧
    IsGreatest (s.lastUpdated '' {run | run ∈ s.view.shown}) s.view.totalTimeRange.2 ∧
    IsGreatest ((fun run => s.lastUpdated run - start run) '' {run | run ∈ s.view.shown})
      s.view.longestExperimentRunDuration.2

/-- In every state the ranges are right and no call overflows. -/
def TimelineLaw : Prop :=
  ∀ start, Starts start → ∀ format s, (timeline start format).Reach s →
    s.RangeLaw start ∧ ∀ call, Call.Valid start s call → (s.step call).isSome

/-- With the time of a run, the times of the runs with a chart lie within 64 bits. -/
def State.Fits (start : UInt32 → ℤ) (s : State) (run : UInt32) (time : ℤ) : Prop :=
  time - start run ≤ int64Max ∧ ∀ run' ∈ s.view.shown,
    time - start run' ≤ int64Max ∧ s.lastUpdated run' - start run ≤ int64Max

/-- The call does not remove the only chart or tell a newer time where a chart is replaced, and its
times fit. -/
def Meets (start : UInt32 → ℤ) (s : State) : Call → Prop
  | .addChart (some series) run =>
    if series ∈ s.view.charts then run.experimentRunId ∈ s.view.shown →
      run.lastUpdatedTime = s.lastUpdated run.experimentRunId
    else s.Fits start run.experimentRunId run.lastUpdatedTime
  | .removeChart id => s.view.charts.keys ≠ [id]
  | .updateExperimentRunLastUpdatedTime run time => run ∈ s.view.shown → s.Fits start run time
  | .addChart none _ | .clearChartList => True

/-! ## What is stored -/

/-- The range of the runs of a set, with the sentinels. -/
structure TotalOf (start last : UInt32 → ℤ) (S : Set UInt32) (total : ℤ × ℤ) : Prop where
  first : IsLeast (insert int64Max (start '' S)) total.1
  second : IsGreatest (insert int64Min (last '' S)) total.2

/-- A run of a set with the longest duration. -/
structure LongestOf (start last : UInt32 → ℤ) (S : Set UInt32) (longest : UInt32 × ℤ) : Prop where
  duration : IsGreatest (insert int64Min ((fun run => last run - start run) '' S)) longest.2
  run : S.Nonempty → longest.1 ∈ S ∧ last longest.1 - start longest.1 = longest.2

/-- Times of runs that can be subtracted. -/
structure Timed (start last : UInt32 → ℤ) (S : Set UInt32) : Prop where
  min_le : ∀ run, int64Min ≤ start run
  start_le : ∀ run, start run ≤ last run
  le_max : ∀ run, last run ≤ int64Max
  fits : ∀ run ∈ S, ∀ run' ∈ S, last run - start run' ≤ int64Max

/-- The view has the counts and the ranges of the runs that are shown, as they are known. -/
structure Kept (start : UInt32 → ℤ) (s : State) : Prop where
  timed : Timed start s.lastUpdated {run | run ∈ s.view.shown}
  count : ∀ run, s.view.experimentRunSeriesCount.lookup run.toInt32 =
    if run ∈ s.view.shown then some (s.view.shown.count run : ℤ) else none
  timeRange : ∀ run, s.view.experimentRunTimeRange.lookup run =
    if run ∈ s.view.shown then some (start run, s.lastUpdated run) else none
  total : TotalOf start s.lastUpdated {run | run ∈ s.view.shown} s.view.totalTimeRange
  longest : LongestOf start s.lastUpdated {run | run ∈ s.view.shown}
    s.view.longestExperimentRunDuration

variable {start last : UInt32 → ℤ} {S : Set UInt32} {total : ℤ × ℤ} {longest : UInt32 × ℤ}
  {run : UInt32} {time : ℤ}

theorem TotalOf.empty : TotalOf start last ∅ (int64Max, int64Min) := by
  constructor <;> rw [Set.image_empty, insert_empty_eq]
  · exact isLeast_singleton
  · exact isGreatest_singleton

theorem LongestOf.empty (run : UInt32) : LongestOf start last ∅ (run, int64Min) := by
  constructor
  · rw [Set.image_empty, insert_empty_eq]
    exact isGreatest_singleton
  · rintro ⟨run, hrun⟩
    cases hrun

/-- A time that is told of a run, old or new. -/
theorem TotalOf.insert (h : TotalOf start last S total) (run : UInt32)
    (hle : run ∈ S → last run ≤ time) :
    TotalOf start (Function.update last run time) (insert run S)
      (min (start run) total.1, max time total.2) :=
  ⟨isLeast_image_insert h.first, isGreatest_image_update h.second hle⟩

theorem update_sub (last start : UInt32 → ℤ) (run : UInt32) (time : ℤ) :
    (fun run' => Function.update last run time run' - start run') =
      Function.update (fun run' => last run' - start run') run (time - start run) := by
  funext run'
  rcases eq_or_ne run' run with rfl | hne
  · rw [Function.update_self, Function.update_self]
  · rw [Function.update_of_ne hne, Function.update_of_ne hne]

theorem LongestOf.insert (h : LongestOf start last S longest) (run : UInt32)
    (hle : run ∈ S → last run ≤ time) (hstart : start run ≤ time) :
    LongestOf start (Function.update last run time) (insert run S)
      (if longest.2 < time - start run then (run, time - start run) else longest) := by
  have hmax := isGreatest_image_update (f := fun run => last run - start run) (i := run)
    (x := time - start run) h.duration fun hrun => Int.sub_le_sub_right (hle hrun) _
  constructor
  · rw [update_sub]
    split
    · rename_i hlt
      rwa [max_eq_left hlt.le] at hmax
    · rename_i hlt
      rwa [max_eq_right (not_lt.mp hlt)] at hmax
  · intro _
    split
    · exact ⟨Set.mem_insert run S, by rw [Function.update_self]⟩
    · rename_i hlt
      rcases S.eq_empty_or_nonempty with rfl | hne
      · have hmin := h.duration.1
        rw [Set.image_empty, insert_empty_eq, Set.mem_singleton_iff, int64Min] at hmin
        omega
      · obtain ⟨hmem, heq⟩ := h.run hne
        refine ⟨.inr hmem, ?_⟩
        rcases eq_or_ne longest.1 run with hrun | hrun
        · rw [hrun] at hmem heq ⊢
          rw [Function.update_self]
          have := hle hmem
          omega
        · rwa [Function.update_of_ne hrun]

/-! ### The operations on the ranges -/

/-- One turn of the loop over the ranges, with the runs that it has passed. -/
theorem exists_recalculate {updateLongestDuration : Bool} {e : Sigma fun _ : UInt32 => ℤ × ℤ}
    (heq : e.2 = (start e.1, last e.1)) (hle : start e.1 ≤ last e.1)
    (hmax : last e.1 - start e.1 ≤ int64Max) (htotal : TotalOf start last S total)
    (hlongest : updateLongestDuration → LongestOf start last S longest) :
    ∃ total' longest', View.recalculate updateLongestDuration (total, longest) e =
        some (total', longest') ∧
      TotalOf start last (insert e.1 S) total' ∧
      (updateLongestDuration → LongestOf start last (insert e.1 S) longest') ∧
      (updateLongestDuration = false → longest' = longest) := by
  have htotal' : TotalOf start (Function.update last e.1 (last e.1)) (insert e.1 S) _ :=
    htotal.insert e.1 fun _ => le_refl _
  rw [Function.update_eq_self, min_comm, max_comm] at htotal'
  have hchecked : checked (last e.1 - start e.1) = some (last e.1 - start e.1) :=
    checked_of_le (by omega) hmax
  rw [View.recalculate, heq]
  cases updateLongestDuration with
  | false => exact ⟨_, _, rfl, htotal', Bool.noConfusion, fun _ => rfl⟩
  | true =>
    have hinsert := (hlongest rfl).insert e.1 (fun _ => le_refl _) hle
    rw [Function.update_eq_self] at hinsert
    rw [if_pos rfl, hchecked]
    exact ⟨_, _, rfl, htotal', fun _ => hinsert, Bool.noConfusion⟩

/-- The loop over the ranges, in any order. -/
theorem exists_foldlM_recalculate {updateLongestDuration : Bool}
    {entries : List (Sigma fun _ : UInt32 => ℤ × ℤ)}
    (hentries : ∀ e ∈ entries, e.2 = (start e.1, last e.1) ∧ start e.1 ≤ last e.1 ∧
      last e.1 - start e.1 ≤ int64Max)
    (htotal : TotalOf start last S total)
    (hlongest : updateLongestDuration → LongestOf start last S longest) :
    ∃ total' longest', entries.foldlM (View.recalculate updateLongestDuration) (total, longest) =
        some (total', longest') ∧
      TotalOf start last (S ∪ {run | ∃ e ∈ entries, e.1 = run}) total' ∧
      (updateLongestDuration →
        LongestOf start last (S ∪ {run | ∃ e ∈ entries, e.1 = run}) longest') ∧
      (updateLongestDuration = false → longest' = longest) := by
  induction entries generalizing S total longest with
  | nil =>
    exact ⟨total, longest, rfl, by simpa using htotal, by simpa using hlongest, fun _ => rfl⟩
  | cons e entries ih =>
    obtain ⟨⟨heq, hle, hmax⟩, hrest⟩ := List.forall_mem_cons.mp hentries
    have hset : S ∪ {run | ∃ e' ∈ e :: entries, e'.1 = run} =
        insert e.1 S ∪ {run | ∃ e' ∈ entries, e'.1 = run} := by
      ext run
      simp only [Set.mem_union, Set.mem_insert_iff, Set.mem_ofPred_eq, List.exists_mem_cons_iff]
      grind
    obtain ⟨_, _, hstep, hmidTotal, hmidLongest, hmidEq⟩ :=
      exists_recalculate heq hle hmax htotal hlongest
    obtain ⟨total', longest', hfold, hnextTotal, hnextLongest, hnextEq⟩ :=
      ih hrest hmidTotal hmidLongest
    rw [hset, List.foldlM_cons, hstep, Option.bind_eq_bind, Option.bind_some]
    exact ⟨total', longest', hfold, hnextTotal, hnextLongest,
      fun h => (hnextEq h).trans (hmidEq h)⟩

theorem Timed.insert (h : Timed start last S) (run : UInt32) (hle : last run ≤ time)
    (hmax : time ≤ int64Max) (hown : time - start run ≤ int64Max)
    (hothers : ∀ run' ∈ S, time - start run' ≤ int64Max ∧ last run' - start run ≤ int64Max) :
    Timed start (Function.update last run time) (insert run S) := by
  have hcases : ∀ run', Function.update last run time run' = last run' ∨
      run' = run ∧ Function.update last run time run' = time := by
    intro run'
    rcases eq_or_ne run' run with rfl | hne
    · exact .inr ⟨rfl, Function.update_self ..⟩
    · exact .inl (Function.update_of_ne hne ..)
  refine ⟨h.min_le, fun run' => ?_, fun run' => ?_, ?_⟩
  · rcases hcases run' with heq | ⟨rfl, heq⟩ <;> rw [heq]
    · exact h.start_le run'
    · exact (h.start_le run').trans hle
  · rcases hcases run' with heq | ⟨rfl, heq⟩ <;> rw [heq]
    · exact h.le_max run'
    · exact hmax
  · intro a ha b hb
    rcases eq_or_ne a run with rfl | hne
    · rw [Function.update_self]
      rcases hb with rfl | hb
      · exact hown
      · exact (hothers b hb).1
    · rw [Function.update_of_ne hne]
      have hmem := ha.resolve_left hne
      rcases hb with rfl | hb
      · exact (hothers a hmem).2
      · exact h.fits a hmem b hb

theorem Timed.mono {S' : Set UInt32} (h : Timed start last S) (hsub : S' ⊆ S) :
    Timed start last S' :=
  ⟨h.min_le, h.start_le, h.le_max, fun run hrun run' hrun' =>
    h.fits run (hsub hrun) run' (hsub hrun')⟩

/-- The ends of the range of some runs. -/
theorem TotalOf.of_nonempty (h : TotalOf start last S total) (htimed : Timed start last S)
    (hne : S.Nonempty) : IsLeast (start '' S) total.1 ∧ IsGreatest (last '' S) total.2 := by
  refine ⟨isLeast_of_insert h.first (hne.image start) ?_,
    isGreatest_of_insert h.second (hne.image last) ?_⟩
  · rintro t ⟨run, -, rfl⟩
    exact (htimed.start_le run).trans (htimed.le_max run)
  · rintro t ⟨run, -, rfl⟩
    exact (htimed.min_le run).trans (htimed.start_le run)

theorem LongestOf.of_nonempty (h : LongestOf start last S longest) (htimed : Timed start last S)
    (hne : S.Nonempty) : IsGreatest ((fun run => last run - start run) '' S) longest.2 := by
  refine isGreatest_of_insert h.duration (hne.image _) ?_
  rintro t ⟨run, -, rfl⟩
  have hmin : int64Min ≤ 0 := by decide
  have := htimed.start_le run
  simp only
  omega

theorem LongestOf.mono {S' : Set UInt32} (h : LongestOf start last S longest) (hsub : S' ⊆ S)
    (hmem : longest.1 ∈ S') : LongestOf start last S' longest := by
  obtain ⟨-, heq⟩ := h.run ⟨longest.1, hsub hmem⟩
  refine ⟨⟨.inr ⟨longest.1, hmem, heq⟩, fun t ht => h.duration.2 ?_⟩, fun _ => ⟨hmem, heq⟩⟩
  exact Set.insert_subset_insert (Set.image_mono hsub) ht

namespace View

variable {v : View}

theorem exists_updateTimelineRange (htimed : Timed start last S) (hne : S.Nonempty)
    (htotal : TotalOf start last S v.totalTimeRange)
    (hlongest : LongestOf start last S v.longestExperimentRunDuration) :
    ∃ axisRange, v.updateTimelineRange = some { v with axisRange := axisRange } := by
  obtain ⟨⟨⟨run, hrun, hfirst⟩, -⟩, ⟨⟨run', hrun', hsecond⟩, hupper⟩⟩ :=
    htotal.of_nonempty htimed hne
  obtain ⟨hlong, hduration⟩ := hlongest.run hne
  have hle : v.totalTimeRange.1 ≤ v.totalTimeRange.2 := by
    rw [← hfirst]
    exact (htimed.start_le run).trans (hupper ⟨run, hrun, rfl⟩)
  have hdifference : checked (v.totalTimeRange.2 - v.totalTimeRange.1) =
      some (v.totalTimeRange.2 - v.totalTimeRange.1) := by
    refine checked_of_le (by omega) ?_
    rw [← hfirst, ← hsecond]
    exact htimed.fits run' hrun' run hrun
  have hend : checked ((if v.format = .elapsedTime then 0 else v.totalTimeRange.1) +
      if v.format = .elapsedTime then v.longestExperimentRunDuration.2
        else v.totalTimeRange.2 - v.totalTimeRange.1) =
      some (if v.format = .elapsedTime then v.longestExperimentRunDuration.2
        else v.totalTimeRange.2) := by
    split
    · rw [Int.zero_add]
      refine checked_of_le ?_ ?_
      · have := htimed.start_le v.longestExperimentRunDuration.1
        omega
      · rw [← hduration]
        exact htimed.fits _ hlong _ hlong
    · have hmin := htimed.min_le run
      have hmax := htimed.le_max run'
      rw [Int.add_comm, Int.sub_add_cancel]
      exact if_pos ⟨by omega, by omega⟩
  rw [updateTimelineRange, hdifference]
  simp only [Option.bind_eq_bind, Option.bind_some, hend]
  exact ⟨_, rfl⟩

theorem setTimeRangeForExperimentRun_eq (hle : start run ≤ time)
    (hmax : time - start run ≤ int64Max) :
    v.setTimeRangeForExperimentRun run (start run) time = some { v with
      longestExperimentRunDuration :=
        if v.longestExperimentRunDuration.2 < time - start run then (run, time - start run)
        else v.longestExperimentRunDuration
      totalTimeRange := (min (start run) v.totalTimeRange.1, max time v.totalTimeRange.2)
      experimentRunTimeRange := v.experimentRunTimeRange.insert run (start run, time) } := by
  rw [setTimeRangeForExperimentRun, checked_of_le (by omega) hmax]
  rfl

/-- What a call tells of a run is stored, for the charts that there are then. -/
theorem exists_tell (htimed : Timed start last S) (htotal : TotalOf start last S v.totalTimeRange)
    (hlongest : LongestOf start last S v.longestExperimentRunDuration)
    (hle : last run ≤ time) (htimed' : Timed start (Function.update last run time) (insert run S))
    (charts : Table Text Chart → Table Text Chart) :
    ∃ v', (do
        let v ← v.setTimeRangeForExperimentRun run (start run) time
        updateTimelineRange { v with charts := charts v.charts }) = some v' ∧
      v'.charts = charts v.charts ∧ v'.experimentRunSeriesCount = v.experimentRunSeriesCount ∧
      v'.experimentRunTimeRange = v.experimentRunTimeRange.insert run (start run, time) ∧
      TotalOf start (Function.update last run time) (insert run S) v'.totalTimeRange ∧
      LongestOf start (Function.update last run time) (insert run S)
        v'.longestExperimentRunDuration := by
  have hstart : start run ≤ time := (htimed.start_le run).trans hle
  have hown := htimed'.fits run (Set.mem_insert run S) run (Set.mem_insert run S)
  rw [Function.update_self] at hown
  have htotal' := htotal.insert run fun _ => hle
  have hlongest' := hlongest.insert run (fun _ => hle) hstart
  rw [setTimeRangeForExperimentRun_eq hstart hown, Option.bind_eq_bind, Option.bind_some]
  obtain ⟨axisRange, haxis⟩ := exists_updateTimelineRange htimed' (Set.insert_nonempty run S)
    (v := { v with
      charts := charts v.charts
      longestExperimentRunDuration :=
        if v.longestExperimentRunDuration.2 < time - start run then (run, time - start run)
        else v.longestExperimentRunDuration
      totalTimeRange := (min (start run) v.totalTimeRange.1, max time v.totalTimeRange.2)
      experimentRunTimeRange := v.experimentRunTimeRange.insert run (start run, time) })
    htotal' hlongest'
  exact ⟨_, haxis, rfl, rfl, rfl, htotal', hlongest'⟩

end View

/-! ### The calls -/

theorem toInt32_inj {run run' : UInt32} : run.toInt32 = run'.toInt32 ↔ run = run' :=
  ⟨Int32.ofUInt32.inj, congrArg _⟩

namespace Kept

variable {s : State}

/-- Without charts. -/
theorem emptied (h : Kept start s) {v : View} (hv : v.charts = ∅) :
    Kept start ⟨v.chartsEmptied, s.lastUpdated⟩ := by
  have hshown : (v.chartsEmptied).shown = [] := by
    rw [View.shown, View.chartsEmptied, hv]
    rfl
  have hset : {run | run ∈ (v.chartsEmptied).shown} = ∅ := by
    rw [hshown]
    exact Set.eq_empty_of_forall_notMem fun run hrun => nomatch hrun
  refine ⟨hset ▸ h.timed.mono (Set.empty_subset _), fun run => ?_, fun run => ?_, ?_, ?_⟩
  · rw [hshown]
    rfl
  · rw [hshown]
    rfl
  · rw [hset]
    exact TotalOf.empty
  · rw [hset]
    exact LongestOf.empty 0

theorem init (hstart : Starts start) (format : TimeDisplayFormat) :
    Kept start ⟨{ format := format }, start⟩ := by
  have hset : {run | run ∈ ({ format := format } : View).shown} = ∅ :=
    Set.eq_empty_of_forall_notMem fun run hrun => nomatch hrun
  refine ⟨⟨fun run => (hstart run).1, fun _ => le_refl _, fun run => (hstart run).2,
    fun _ hrun => nomatch hrun⟩, fun _ => rfl, fun _ => rfl, ?_, ?_⟩
  · rw [hset]
    exact TotalOf.empty
  · rw [hset]
    exact LongestOf.empty 0

/-- The times that matter stay. -/
theorem retell (h : Kept start s) (hvalid : s.lastUpdated run ≤ time ∧ time ≤ int64Max)
    (heq : run ∈ s.view.shown → time = s.lastUpdated run) :
    Kept start ⟨s.view, Function.update s.lastUpdated run time⟩ := by
  have hsame : ∀ run' ∈ s.view.shown,
      Function.update s.lastUpdated run time run' = s.lastUpdated run' := by
    intro run' hrun'
    rcases eq_or_ne run' run with rfl | hne
    · rw [Function.update_self, heq hrun']
    · exact Function.update_of_ne hne ..
  have hle : ∀ run', s.lastUpdated run' ≤ Function.update s.lastUpdated run time run' ∧
      Function.update s.lastUpdated run time run' ≤ int64Max := by
    intro run'
    rcases eq_or_ne run' run with rfl | hne
    · rwa [Function.update_self]
    · rw [Function.update_of_ne hne]
      exact ⟨le_refl _, h.timed.le_max run'⟩
  refine ⟨⟨h.timed.min_le, fun run' => (h.timed.start_le run').trans (hle run').1,
    fun run' => (hle run').2, fun a ha b hb => ?_⟩, h.count, fun run' => ?_,
    ⟨h.total.first, ?_⟩, ?_, fun hne => ?_⟩
  · simp only [hsame a ha]
    exact h.timed.fits a ha b hb
  · simp only [h.timeRange run']
    split
    · rename_i hrun'
      rw [hsame run' hrun']
    · rfl
  · have himage : Function.update s.lastUpdated run time '' {run | run ∈ s.view.shown} =
        s.lastUpdated '' {run | run ∈ s.view.shown} := Set.image_congr hsame
    simp only [himage]
    exact h.total.second
  · have himage : (fun run' => Function.update s.lastUpdated run time run' - start run') ''
        {run | run ∈ s.view.shown} =
        (fun run' => s.lastUpdated run' - start run') '' {run | run ∈ s.view.shown} :=
      Set.image_congr fun run' hrun' => congrArg (· - start run') (hsame run' hrun')
    simp only [himage]
    exact h.longest.duration
  · obtain ⟨hmem, hduration⟩ := h.longest.run hne
    refine ⟨hmem, ?_⟩
    simp only [hsame _ hmem]
    exact hduration

/-- A newer time of a run. -/
theorem updateExperimentRunLastUpdatedTime (h : Kept start s)
    (hvalid : s.lastUpdated run ≤ time ∧ time ≤ int64Max)
    (hmeets : run ∈ s.view.shown → s.Fits start run time) :
    ∃ v, s.view.updateExperimentRunLastUpdatedTime run time = some v ∧
      Kept start ⟨v, Function.update s.lastUpdated run time⟩ := by
  by_cases hrun : run ∈ s.view.shown
  · obtain ⟨hown, hothers⟩ := hmeets hrun
    have htimed := h.timed.insert run hvalid.1 hvalid.2 hown hothers
    obtain ⟨v, hv, hcharts, hcount, hrange, htotal, hlongest⟩ :=
      View.exists_tell h.timed h.total h.longest hvalid.1 htimed id
    have hshown : v.shown = s.view.shown := by rw [View.shown, hcharts, id, View.shown]
    have hset : insert run {run | run ∈ s.view.shown} = {run | run ∈ v.shown} := by
      rw [hshown]
      exact Set.insert_eq_of_mem hrun
    rw [hset] at htimed htotal hlongest
    refine ⟨v, ?_, htimed, ?_, ?_, htotal, hlongest⟩
    · rw [View.updateExperimentRunLastUpdatedTime, h.timeRange run, if_pos hrun]
      exact hv
    · simp only [hcount, hshown]
      exact h.count
    · intro run'
      simp only [hrange, hshown]
      rw [Table.lookup_insert]
      split
      · rename_i heq
        rw [heq, if_pos hrun, Function.update_self]
      · rename_i hne
        rw [h.timeRange run', Function.update_of_ne hne]
  · refine ⟨s.view, ?_, h.retell hvalid fun hmem => absurd hmem hrun⟩
    rw [View.updateExperimentRunLastUpdatedTime, h.timeRange run, if_neg hrun]

theorem addChart (h : Kept start s) {series : Text} {data : ExperimentRunData}
    (hvalid : Call.Valid start s (.addChart (some series) data))
    (hmeets : Meets start s (.addChart (some series) data)) :
    ∃ v, s.view.addChart (some series) data = some v ∧
      Kept start ⟨v, Function.update s.lastUpdated data.experimentRunId data.lastUpdatedTime⟩ := by
  obtain ⟨run, startTime, time⟩ := data
  obtain ⟨hstart, hle, hmax⟩ := hvalid
  obtain rfl : startTime = start run := hstart
  simp only at hle hmax ⊢
  rw [Meets] at hmeets
  rw [View.addChart]
  split at hmeets
  · rename_i hseries
    rw [if_pos hseries]
    exact ⟨s.view, rfl, h.retell ⟨hle, hmax⟩ hmeets⟩
  · rename_i hseries
    rw [if_neg hseries]
    have htimed := h.timed.insert run hle hmax hmeets.1 hmeets.2
    obtain ⟨v, hv, hcharts, hcount, hrange, htotal, hlongest⟩ := View.exists_tell
      (v := { s.view with
        experimentRunSeriesCount := s.view.experimentRunSeriesCount.insert run.toInt32
          ((s.view.experimentRunSeriesCount.lookup run.toInt32).getD 0 + 1) })
      h.timed h.total h.longest hle htimed
      (·.insert series ⟨run, start run⟩)
    have hshown : v.shown = run :: s.view.shown := by
      rw [View.shown, hcharts, Table.values_insert hseries]
      rfl
    have hset : insert run {run | run ∈ s.view.shown} = {run | run ∈ v.shown} := by
      rw [hshown]
      ext run'
      exact List.mem_cons.symm
    rw [hset] at htimed htotal hlongest
    refine ⟨v, hv, htimed, ?_, ?_, htotal, hlongest⟩
    · intro run'
      simp only [hcount, hshown]
      rw [Table.lookup_insert, h.count run, h.count run']
      split
      · rename_i heq
        rw [toInt32_inj.mp heq, if_pos List.mem_cons_self, List.count_cons_self]
        by_cases hmem : run ∈ s.view.shown
        · rw [if_pos hmem]
          simp
        · rw [if_neg hmem, List.count_eq_zero_of_not_mem hmem]
          rfl
      · rename_i hne
        have hne : run' ≠ run := fun heq => hne (congrArg _ heq)
        rw [List.count_cons_of_ne (Ne.symm hne)]
        simp [hne]
    · intro run'
      simp only [hrange, hshown]
      rw [Table.lookup_insert]
      split
      · rename_i heq
        rw [heq, if_pos List.mem_cons_self, Function.update_self]
      · rename_i hne
        rw [h.timeRange run', Function.update_of_ne hne]
        simp [hne]

/-- The last chart of its run, with charts of other runs. -/
theorem exists_decrement_of_notMem (h : Kept start s) {shown : List UInt32}
    (hcount : ∀ run', s.view.shown.count run' = shown.count run' + if run' = run then 1 else 0)
    (hrun : run ∉ shown) (hne : shown ≠ []) :
    ∃ v, s.view.decrementSeriesCountForExperimentRun run = some v ∧
      v.charts = s.view.charts ∧
      v.experimentRunSeriesCount = s.view.experimentRunSeriesCount.erase run.toInt32 ∧
      v.experimentRunTimeRange = s.view.experimentRunTimeRange.erase run ∧
      TotalOf start s.lastUpdated {run | run ∈ shown} v.totalTimeRange ∧
      LongestOf start s.lastUpdated {run | run ∈ shown} v.longestExperimentRunDuration := by
  have hmem : ∀ run', run' ∈ s.view.shown ↔ run' ∈ shown ∨ run' = run := by
    intro run'
    rw [← List.count_pos_iff, ← List.count_pos_iff, hcount run']
    split <;> simp_all
  have hone : s.view.shown.count run = 1 := by
    rw [hcount run, if_pos rfl, List.count_eq_zero_of_not_mem hrun]
  have hlookup : s.view.experimentRunSeriesCount.lookup run.toInt32 = some 1 := by
    rw [h.count run, if_pos ((hmem run).mpr (.inr rfl)), hone]
    rfl
  have hentry : ∀ e : Sigma fun _ : UInt32 => ℤ × ℤ,
      e ∈ (s.view.experimentRunTimeRange.erase run).entries ↔
        e.1 ∈ shown ∧ e.2 = (start e.1, s.lastUpdated e.1) := by
    rintro ⟨run', range⟩
    rw [← AList.mem_lookup_iff, Option.mem_def, Table.lookup_erase, h.timeRange run']
    have := hmem run'
    grind
  have htimed : Timed start s.lastUpdated {run | run ∈ shown} :=
    h.timed.mono fun run' hrun' => (hmem run').mpr (.inl hrun')
  have hset : ∅ ∪ {run' | ∃ e ∈ (s.view.experimentRunTimeRange.erase run).entries, e.1 = run'} =
      {run' | run' ∈ shown} := by
    rw [Set.empty_union]
    ext run'
    constructor
    · rintro ⟨e, he, rfl⟩
      exact ((hentry e).mp he).1
    · intro hrun'
      exact ⟨⟨run', start run', s.lastUpdated run'⟩, (hentry _).mpr ⟨hrun', rfl⟩, rfl⟩
  have hentries : ∀ e ∈ (s.view.experimentRunTimeRange.erase run).entries,
      e.2 = (start e.1, s.lastUpdated e.1) ∧ start e.1 ≤ s.lastUpdated e.1 ∧
        s.lastUpdated e.1 - start e.1 ≤ int64Max := by
    intro e he
    obtain ⟨hshown, heq⟩ := (hentry e).mp he
    exact ⟨heq, htimed.start_le e.1, htimed.fits e.1 hshown e.1 hshown⟩
  have hreset : decide (run = s.view.longestExperimentRunDuration.1) = true →
      LongestOf start s.lastUpdated ∅ (if run = s.view.longestExperimentRunDuration.1 then
        (run, int64Min) else s.view.longestExperimentRunDuration) := by
    intro hupdate
    rw [if_pos (of_decide_eq_true hupdate)]
    exact LongestOf.empty run
  obtain ⟨total, longest, hfold, htotal, hupdated, hsame⟩ :=
    exists_foldlM_recalculate hentries TotalOf.empty hreset
  rw [hset] at htotal hupdated
  have hlongest : LongestOf start s.lastUpdated {run | run ∈ shown} longest := by
    by_cases hupdate : run = s.view.longestExperimentRunDuration.1
    · exact hupdated (decide_eq_true hupdate)
    · rw [hsame (decide_eq_false hupdate), if_neg hupdate]
      have hfirst := (h.longest.run ⟨run, (hmem run).mpr (.inr rfl)⟩).1
      exact h.longest.mono (fun run' hrun' => (hmem run').mpr (.inl hrun'))
        (((hmem _).mp hfirst).resolve_right (Ne.symm hupdate))
  obtain ⟨run', hrun'⟩ := List.exists_mem_of_ne_nil shown hne
  rw [View.decrementSeriesCountForExperimentRun, hlookup]
  simp only [Int.sub_self, Int.lt_irrefl, if_false, hfold, Option.bind_eq_bind, Option.bind_some]
  obtain ⟨axisRange, haxis⟩ := View.exists_updateTimelineRange (v := { s.view with
    experimentRunSeriesCount := s.view.experimentRunSeriesCount.erase run.toInt32
    experimentRunTimeRange := s.view.experimentRunTimeRange.erase run
    longestExperimentRunDuration := longest
    totalTimeRange := total }) htimed ⟨run', hrun'⟩ htotal hlongest
  exact ⟨_, haxis, rfl, rfl, rfl, htotal, hlongest⟩

theorem removeChart (h : Kept start s) {id : Text} (hmeets : s.view.charts.keys ≠ [id]) :
    ∃ v, s.view.removeChart id = some v ∧ Kept start ⟨v, s.lastUpdated⟩ := by
  rw [View.removeChart]
  cases hlookup : s.view.charts.lookup id with
  | none => exact ⟨s.view, rfl, h⟩
  | some chart =>
    obtain ⟨l, r, hvalues, herase⟩ := Table.exists_values_erase hlookup
    obtain ⟨run, hrun⟩ : ∃ run, run = chart.experimentRunId := ⟨_, rfl⟩
    obtain ⟨shown, hshown⟩ : ∃ shown, shown = (l ++ r).map (·.experimentRunId) := ⟨_, rfl⟩
    have hcount : ∀ run', s.view.shown.count run' =
        shown.count run' + if run' = run then 1 else 0 := by
      intro run'
      rw [View.shown, hvalues, hshown, hrun]
      simp only [List.map_append, List.map_cons, List.count_append, List.count_cons]
      grind
    have hmem : ∀ run', run' ∈ s.view.shown ↔ run' ∈ shown ∨ run' = run := by
      intro run'
      rw [← List.count_pos_iff, ← List.count_pos_iff, hcount run']
      split <;> simp_all
    have hkeys : (s.view.charts.erase id).keys ≠ [] := by
      intro hnil
      exact hmeets (Table.keys_eq_singleton (Table.mem_of_lookup hlookup) hnil)
    have hne : shown ≠ [] := by
      rw [hshown, ← herase, Ne, List.map_eq_nil_iff, Table.values, List.map_eq_nil_iff]
      exact fun hnil => hkeys (List.map_eq_nil_iff.mpr hnil)
    have hrunShown : run ∈ s.view.shown := (hmem run).mpr (.inr rfl)
    have hview : ∀ v : View, v.charts = s.view.charts.erase id → v.shown = shown := by
      intro v hv
      rw [View.shown, hv, herase, hshown]
    simp only [Option.bind_eq_bind, ← hrun]
    by_cases hlast : run ∈ shown
    · have hset : {run' | run' ∈ s.view.shown} = {run' | run' ∈ shown} := by
        ext run'
        rw [Set.mem_ofPred_eq, hmem run', Set.mem_ofPred_eq, or_iff_left_iff_imp]
        rintro rfl
        exact hlast
      have hpos := List.count_pos_iff.mpr hlast
      have hcountRun : (s.view.shown.count run : ℤ) - 1 = shown.count run := by
        rw [hcount run, if_pos rfl]
        omega
      have hdecrement : s.view.decrementSeriesCountForExperimentRun run = some { s.view with
          experimentRunSeriesCount :=
            s.view.experimentRunSeriesCount.insert run.toInt32 (shown.count run) } := by
        rw [View.decrementSeriesCountForExperimentRun, h.count run, if_pos hrunShown]
        simp only [hcountRun]
        rw [if_pos (by omega)]
      rw [hdecrement, Option.bind_some]
      refine ⟨_, rfl, ?_⟩
      rw [if_neg hkeys]
      have hnow := hview { s.view with
        experimentRunSeriesCount :=
          s.view.experimentRunSeriesCount.insert run.toInt32 (shown.count run)
        charts := s.view.charts.erase id } rfl
      refine ⟨?_, fun run' => ?_, fun run' => ?_, ?_, ?_⟩ <;> simp only [hnow]
      · exact hset ▸ h.timed
      · rw [Table.lookup_insert, h.count run']
        split
        · rename_i heq
          rw [toInt32_inj.mp heq, if_pos hlast]
        · rename_i hother
          have hother : run' ≠ run := fun heq => hother (congrArg _ heq)
          simp only [hmem run', hcount run', hother, or_false, if_false, Nat.add_zero]
      · have hiff := Set.ext_iff.mp hset run'
        rw [h.timeRange run']
        exact if_congr hiff rfl rfl
      · exact hset ▸ h.total
      · exact hset ▸ h.longest
    · obtain ⟨v, hv, hcharts, hseries, hranges, htotal, hlongest⟩ :=
        h.exists_decrement_of_notMem hcount hlast hne
      rw [hv, Option.bind_some]
      refine ⟨_, rfl, ?_⟩
      simp only [hcharts]
      rw [if_neg hkeys]
      have hnow := hview { v with charts := s.view.charts.erase id } rfl
      refine ⟨?_, fun run' => ?_, fun run' => ?_, ?_, ?_⟩ <;> simp only [hnow]
      · exact h.timed.mono fun run' hrun' => (hmem run').mpr (.inl hrun')
      · rw [hseries, Table.lookup_erase, h.count run']
        split
        · rename_i heq
          rw [toInt32_inj.mp heq, if_neg hlast]
        · rename_i hother
          have hother : run' ≠ run := fun heq => hother (congrArg _ heq)
          simp only [hmem run', hcount run', hother, or_false, if_false, Nat.add_zero]
      · rw [hranges, Table.lookup_erase, h.timeRange run']
        have := hmem run'
        grind
      · exact htotal
      · exact hlongest

/-- **A call that meets the condition** has a result, with what it has told. -/
theorem step (h : Kept start s) {call : Call} (hvalid : call.Valid start s)
    (hmeets : Meets start s call) : ∃ s', s.step call = some s' ∧ Kept start s' := by
  have hresult : ∃ v, call.run s.view = some v ∧ Kept start ⟨v, call.tell s.lastUpdated⟩ := by
    cases call with
    | addChart series data =>
      cases series with
      | none => exact ⟨s.view, rfl, h⟩
      | some series => exact h.addChart hvalid hmeets
    | removeChart id => exact h.removeChart hmeets
    | updateExperimentRunLastUpdatedTime run time =>
      exact h.updateExperimentRunLastUpdatedTime hvalid hmeets
    | clearChartList => exact ⟨_, rfl, h.emptied rfl⟩
  obtain ⟨v, hv, hkept⟩ := hresult
  exact ⟨_, by rw [State.step, hv, Option.map_some], hkept⟩

theorem rangeLaw (h : Kept start s) : s.RangeLaw start := by
  intro hne
  obtain ⟨run, hrun⟩ := List.exists_mem_of_ne_nil s.view.shown hne
  obtain ⟨hfirst, hsecond⟩ := h.total.of_nonempty h.timed ⟨run, hrun⟩
  exact ⟨hfirst, hsecond, h.longest.of_nonempty h.timed ⟨run, hrun⟩⟩

/-- The range without a run is subtracted before the view is told that it is empty. -/
theorem removeChart_eq_none (h : Kept start s) {id : Text} (hkeys : s.view.charts.keys = [id]) :
    s.view.removeChart id = none := by
  have hid : id ∈ s.view.charts := AList.mem_keys.mpr (hkeys ▸ List.mem_singleton_self id)
  obtain ⟨chart, hlookup⟩ := Table.mem_iff_lookup.mp hid
  obtain ⟨l, r, hvalues, -⟩ := Table.exists_values_erase hlookup
  have hlength : s.view.charts.values.length = 1 := by
    have := congrArg List.length hkeys
    simpa [Table.values, AList.keys, List.keys] using this
  have hshown : s.view.shown = [chart.experimentRunId] := by
    rw [hvalues, List.length_append, List.length_cons] at hlength
    obtain rfl : l = [] := List.length_eq_zero_iff.mp (by omega)
    obtain rfl : r = [] := List.length_eq_zero_iff.mp (by omega)
    rw [View.shown, hvalues]
    rfl
  have hcount : s.view.experimentRunSeriesCount.lookup chart.experimentRunId.toInt32 = some 1 := by
    rw [h.count, hshown, if_pos (List.mem_singleton_self _), List.count_singleton_self]
    rfl
  have hentries : (s.view.experimentRunTimeRange.erase chart.experimentRunId).entries = [] := by
    refine List.eq_nil_iff_forall_not_mem.mpr ?_
    rintro ⟨run, range⟩ he
    rw [← AList.mem_lookup_iff, Option.mem_def, Table.lookup_erase, h.timeRange run, hshown] at he
    grind
  rw [View.removeChart, hlookup]
  simp only [View.decrementSeriesCountForExperimentRun, hcount, Int.sub_self, Int.lt_irrefl,
    if_false, hentries, List.foldlM_nil, View.updateTimelineRange]
  -- The difference of the sentinels.
  rfl

end Kept

/-! ## Runs -/

variable {format : TimeDisplayFormat} {s : State}

theorem kept_of_reachBy (hstart : Starts start)
    (hs : (timeline start format).ReachBy (Meets start) s) : Kept start s := by
  refine Lts.InductiveBy.reach ⟨?_, ?_⟩ hs
  · rintro s rfl
    exact Kept.init hstart format
  · rintro s call s' hkept hmeets ⟨hvalid, hstep⟩
    obtain ⟨t, ht, hnext⟩ := hkept.step hvalid hmeets
    obtain rfl := Option.some.inj (ht.symm.trans hstep)
    exact hnext

/-- **The ranges are those of the runs with a chart and no call overflows**, while the only chart is
not removed alone, no newer time is told where a chart is replaced, and the times fit. -/
theorem rangeLaw_of_meets (hstart : Starts start)
    (hs : (timeline start format).ReachBy (Meets start) s) :
    s.RangeLaw start ∧
      ∀ call, Call.Valid start s call → Meets start s call → (s.step call).isSome := by
  have hkept := kept_of_reachBy hstart hs
  refine ⟨hkept.rangeLaw, fun call hvalid hmeets => ?_⟩
  obtain ⟨s', hs', -⟩ := hkept.step hvalid hmeets
  rw [hs']
  rfl

theorem starts_five : Starts fun _ => 5 := by
  intro run
  show int64Min ≤ 5 ∧ 5 ≤ int64Max
  decide

/-- A chart of each of two runs. -/
theorem rangeLaw_of_meets_two : ∃ s : State, s.view.shown = [2, 1] ∧ s.RangeLaw (fun _ => 5) ∧
    ∀ call, Call.Valid (fun _ => 5) s call → Meets (fun _ => 5) s call → (s.step call).isSome := by
  have hempty : (timeline (fun _ => 5) .dateTime).ReachBy (Meets fun _ => 5) _ := .init rfl
  have hone := hempty.step (Call.addChart (some ['a']) ⟨1, 5, 9⟩)
    (by
      rw [Meets, if_neg (by decide)]
      exact ⟨by decide, fun _ h => nomatch h⟩)
    ⟨⟨rfl, by decide, by decide⟩, rfl⟩
  have htwo := hone.step (Call.addChart (some ['b']) ⟨2, 5, 12⟩)
    (by
      rw [Meets, if_neg (by decide)]
      refine ⟨by decide, fun run' hrun' => ?_⟩
      obtain rfl : run' = 1 := List.mem_singleton.mp hrun'
      decide)
    ⟨⟨rfl, by decide, by decide⟩, rfl⟩
  exact ⟨_, rfl, rangeLaw_of_meets starts_five htwo⟩

/-- Removing the only chart always overflows. -/
theorem step_removeChart_eq_none (hstart : Starts start)
    (hs : (timeline start format).ReachBy (Meets start) s) {id : Text}
    (hkeys : s.view.charts.keys = [id]) : s.step (.removeChart id) = none := by
  rw [State.step, Call.run, (kept_of_reachBy hstart hs).removeChart_eq_none hkeys]
  rfl

/-- A chart is shown and removed. -/
theorem not_timelineLaw : ¬ TimelineLaw := by
  intro h
  have hempty : (timeline (fun _ => 5) .dateTime).Reach _ := .init rfl
  have hone := hempty.next (Call.addChart (some ['a']) ⟨1, 5, 9⟩)
    ⟨⟨rfl, by decide, by decide⟩, rfl⟩
  have hsome := (h _ starts_five _ _ hone).2 (Call.removeChart ['a']) trivial
  exact absurd hsome (by decide)

end Sem.Medea.Timeline

import Mathlib.Algebra.Order.Field.Rat
import Mathlib.Tactic.FieldSimp
import Mathlib.Tactic.Linarith
import Mathlib.Tactic.Ring
import Sem.Lib.KeyGroups
import Sem.Medea.SeriesQueries

/-!
# The bins of a chart

`Chart::paintEventSeries` puts the events in the display range into bins of one width, from the
first event that is not before the range. The times are doubles that hold whole milliseconds, which
are exact until the last year a `QDateTime` is used with, so they are integers here.

* `binLoop_eq`: the loop puts each displayed event into the bin that the ends of the bins give it.
* `binned_iff`: when no event is lost and every one is in its bin.
* `binned_all_iff_dvd`: the range must be a multiple of the number of bins for this to hold
  whatever the events are. The width is rounded down, so the last end is before the end of the
  range, and the events behind it are in no bin.
-/

namespace Sem.Medea

open Lib

namespace Chart

open ChartEvent (getTimeMS)

variable {E : Type} [ChartEvent E]

/-! ## The bins -/

/-- The ends of the bins, by repeated addition. -/
def binEndTimes (binTimeWidth : ℤ) : ℕ → ℤ → List ℤ
  | 0, _ => []
  | n + 1, currentBinStartTime =>
    (currentBinStartTime + binTimeWidth) ::
      binEndTimes binTimeWidth n (currentBinStartTime + binTimeWidth)

/-- The loop over the ends of the bins: the index of the bin, and the ends from it on. -/
def advance (time : ℤ) : List ℤ → ℕ → ℕ × List ℤ
  | [], index => (index, [])
  | binEndTime :: ends, index =>
    if time ≥ binEndTime then advance time ends (index + 1) else (index, binEndTime :: ends)

/-- The bins, and the cursor in their ends. -/
structure Binning (E : Type) where
  index : ℕ
  ends : List ℤ
  bins : List (List E)

/-- One event of the loop: the cursor moves on to its bin. -/
def Binning.append (binCount : ℕ) (b : Binning E) (event : E) : Binning E :=
  let (index, ends) := advance (getTimeMS event) b.ends b.index
  ⟨index, ends, if index < binCount then b.bins.modify index (· ++ [event]) else b.bins⟩

/-- The loop over the events from the position `current` on; an event that is not displayed is
skipped without a look at `last`. -/
def binLoop (displayMin displayMax : ℤ) (binCount last : ℕ) :
    ℕ → List E → Binning E → Binning E
  | _, [], b => b
  | current, event :: events, b =>
    if getTimeMS event < displayMin ∨ getTimeMS event ≥ displayMax then
      binLoop displayMin displayMax binCount last (current + 1) events b
    else if current = last then b.append binCount event
    else binLoop displayMin displayMax binCount last (current + 1) events (b.append binCount event)

/-- `binEvents`, with the index of the first event and of the last. -/
def binEvents (displayMin displayMax : ℤ) (events : List E) (binCount first last : ℕ) :
    List (List E) :=
  if first = events.length then []
  else (binLoop displayMin displayMax binCount last first (events.drop first) ⟨0,
    binEndTimes ((displayMax - displayMin).tdiv binCount) binCount displayMin,
    List.replicate binCount []⟩).bins

/-- The bins that `paintEventSeries` paints. -/
def paintedBins (displayMin displayMax : ℤ) (binCount : ℕ) (s : EventSeries E) :
    Option (List (List E)) :=
  (s.getFirstAfterTime displayMin).bind fun first =>
    (s.getFirstAfterTime displayMax).map fun last =>
      binEvents displayMin displayMax s.events binCount first last

/-! ## What the bins are for -/

/-- An event in the display range. -/
def Displayed (displayMin displayMax : ℤ) (event : E) : Prop :=
  displayMin ≤ getTimeMS event ∧ getTimeMS event < displayMax

instance (displayMin displayMax : ℤ) (event : E) :
    Decidable (Displayed displayMin displayMax event) :=
  inferInstanceAs (Decidable (_ ∧ _))

/-- The start of the `i`-th of `n` equal parts of the range. -/
def partStart (displayMin displayMax : ℤ) (n i : ℕ) : ℚ :=
  displayMin + i * ((displayMax - displayMin) / n)

/-- No displayed event is lost, the bins are in the order of time, and each event is in the part of
the range that its bin stands for, up to one millisecond. -/
structure Binned (displayMin displayMax : ℤ) (binCount : ℕ) (events : List E)
    (bins : List (List E)) : Prop where
  flatten : bins.flatten = events.filter (Displayed displayMin displayMax ·)
  length_le : bins.length ≤ binCount
  bounds : ∀ i bin, bins[i]? = some bin → ∀ event ∈ bin,
    partStart displayMin displayMax binCount i - 1 ≤ getTimeMS event ∧
      getTimeMS event < partStart displayMin displayMax binCount (i + 1) + 1

/-- With the width `w` of the bins, the event is before the last end, and as many remainders as
there are bins before its own do not move its bin by more than a millisecond. -/
def InItsBin (displayMin displayMax : ℤ) (n : ℕ) (event : E) : Prop :=
  let w := (displayMax - displayMin) / n
  let r := (displayMax - displayMin) % n
  let t := getTimeMS event - displayMin
  t < n * w ∧ t / w * r ≤ n * (t % w + 1)

instance (displayMin displayMax : ℤ) (n : ℕ) (event : E) :
    Decidable (InItsBin displayMin displayMax n event) :=
  inferInstanceAs (Decidable (_ ∧ _))

/-! ## The loop -/

/-- The number of ends that are not behind the event. -/
def binOf (ends : List ℤ) (event : E) : ℕ :=
  (ends.takeWhile fun binEndTime => binEndTime ≤ getTimeMS event).length

variable {ends : List ℤ} {events : List E} {event : E} {b : Binning E}
  {binCount first last current : ℕ} {displayMin displayMax : ℤ}

theorem advance_eq (time : ℤ) (ends : List ℤ) (index : ℕ) : advance time ends index =
    (index + (ends.takeWhile fun binEndTime => binEndTime ≤ time).length,
      ends.dropWhile fun binEndTime => binEndTime ≤ time) := by
  induction ends generalizing index with
  | nil => rfl
  | cons binEndTime ends ih =>
    rw [advance]
    by_cases h : binEndTime ≤ time
    · rw [if_pos h, ih]
      simp [h]
      omega
    · rw [if_neg h]
      simp [h]

theorem binOf_mono {event' : E} (h : getTimeMS event ≤ getTimeMS event') :
    binOf ends event ≤ binOf ends event' := by
  unfold binOf
  rw [← length_takeWhile_add (p := fun binEndTime => binEndTime ≤ getTimeMS event)
    (q := fun binEndTime => binEndTime ≤ getTimeMS event') fun binEndTime hle => by grind]
  exact Nat.le_add_right _ _

/-- The cursor has passed some of the ends. -/
structure Passed (binCount : ℕ) (ends : List ℤ) (b : Binning E) : Prop where
  ends_eq : b.ends = ends.drop b.index
  length_eq : b.bins.length = binCount

/-- The step of the loop, where no end is passed that is behind the event. -/
theorem Passed.append_eq (h : Passed binCount ends b) (hindex : b.index ≤ binOf ends event) :
    b.append binCount event = ⟨binOf ends event, ends.drop (binOf ends event),
      putInGroup (binOf ends) b.bins event⟩ := by
  have hlength : ((ends.drop b.index).takeWhile fun e => e ≤ getTimeMS event).length =
      binOf ends event - b.index := length_takeWhile_drop hindex
  have hdrop : (ends.drop b.index).dropWhile (fun e => e ≤ getTimeMS event) =
      ends.drop (binOf ends event) := by
    rw [← drop_length_takeWhile, hlength, List.drop_drop, Nat.add_sub_cancel' hindex]
  have hbins : (if binOf ends event < binCount then
      b.bins.modify (binOf ends event) (· ++ [event]) else b.bins) =
        putInGroup (binOf ends) b.bins event := by
    by_cases hlt : binOf ends event < binCount
    · rw [if_pos hlt]
      rfl
    · rw [if_neg hlt, putInGroup, List.modify_eq_self (by rw [h.length_eq]; omega)]
  unfold Binning.append
  rw [h.ends_eq, advance_eq, hlength, hdrop]
  simp only [Nat.add_sub_cancel' hindex, hbins]

theorem Passed.append (h : Passed binCount ends b) (hindex : b.index ≤ binOf ends event) :
    Passed binCount ends (b.append binCount event) := by
  rw [h.append_eq hindex]
  exact ⟨rfl, (length_putInGroup event).trans h.length_eq⟩

/-- Events in ascending order go into the bins that the ends give them. -/
theorem Passed.bins_foldl (h : Passed binCount ends b) (hascending : EventSeries.Ascending events)
    (hindex : ∀ event ∈ events, b.index ≤ binOf ends event) :
    (events.foldl (Binning.append binCount) b).bins =
      events.foldl (putInGroup (binOf ends)) b.bins := by
  induction events generalizing b with
  | nil => rfl
  | cons event events ih =>
    obtain ⟨hfirst, hrest⟩ := List.pairwise_cons.mp hascending
    have hle := hindex event List.mem_cons_self
    rw [List.foldl_cons, List.foldl_cons, ih (h.append hle) hrest, h.append_eq hle]
    intro later hlater
    rw [h.append_eq hle]
    exact binOf_mono (hfirst later hlater)

/-- The loop does not stop before the last event of the range, so it is a fold. -/
theorem binLoop_eq (hlast : ∀ i event, events[i]? = some event → last ≤ current + i →
      displayMax ≤ getTimeMS event) :
    binLoop displayMin displayMax binCount last current events b =
      (events.filter (Displayed displayMin displayMax ·)).foldl (Binning.append binCount) b := by
  induction events generalizing current b with
  | nil => rfl
  | cons event events ih =>
    have hrest : ∀ i event, events[i]? = some event → last ≤ current + 1 + i →
        displayMax ≤ getTimeMS event := fun i event hevent hle =>
      hlast (i + 1) event (by simpa using hevent) (by omega)
    unfold binLoop
    by_cases hout : getTimeMS event < displayMin ∨ getTimeMS event ≥ displayMax
    · have hdisplayed : ¬ Displayed displayMin displayMax event := fun h => by
        have := h.1
        have := h.2
        omega
      rw [if_pos hout, ih hrest, List.filter_cons_of_neg (by simpa using hdisplayed)]
    · have hnot : current ≠ last := by
        rintro rfl
        exact hout (.inr (hlast 0 event rfl (by omega)))
      have hdisplayed : Displayed displayMin displayMax event := ⟨by omega, by omega⟩
      rw [if_neg hout, if_neg hnot, ih hrest, List.filter_cons_of_pos (by simpa using hdisplayed),
        List.foldl_cons]

/-! ## The ends of the bins -/

/-- Bins without a width end before the events. -/
theorem binOf_zero (n : ℕ) {start : ℤ} (h : start ≤ getTimeMS event) :
    binOf (binEndTimes 0 n start) event = n := by
  unfold binOf
  induction n with
  | zero => rfl
  | succ n ih =>
    rw [binEndTimes, add_zero, List.takeWhile_cons_of_pos (by simpa using h), List.length_cons, ih]

theorem binOf_pos {w : ℤ} (hw : 0 < w) (n : ℕ) {start : ℤ} (h : start ≤ getTimeMS event) :
    (binOf (binEndTimes w n start) event : ℤ) = min (n : ℤ) ((getTimeMS event - start) / w) := by
  unfold binOf
  induction n generalizing start with
  | zero =>
    have := Int.ediv_nonneg (sub_nonneg.mpr h) hw.le
    simp [binEndTimes, this]
  | succ n ih =>
    rw [binEndTimes]
    by_cases hend : start + w ≤ getTimeMS event
    · have hquot : (getTimeMS event - start) / w = (getTimeMS event - (start + w)) / w + 1 := by
        rw [← Int.ediv_self hw.ne', ← Int.add_ediv_of_dvd_right (dvd_refl w)]
        congr 1
        ring
      rw [List.takeWhile_cons_of_pos (by simpa using hend), List.length_cons]
      have := ih hend
      push_cast
      omega
    · rw [List.takeWhile_cons_of_neg (by simpa using hend),
        Int.ediv_eq_zero_of_lt (by omega) (by omega)]
      simp only [List.length_nil]
      omega

/-! ## The bins of a chart -/

section Painted

variable {s : EventSeries E} {n : ℕ}

/-- The displayed events go into the bins that the ends give them. -/
theorem paintedBins_eq (h : EventSeries.Ascending s.events) (hrange : displayMin < displayMax) :
    ∃ bins, paintedBins displayMin displayMax n s = some bins ∧
      ((bins = [] ∧ s.events.filter (Displayed displayMin displayMax ·) = []) ∨
        bins = (s.events.filter (Displayed displayMin displayMax ·)).foldl
          (putInGroup (binOf (binEndTimes ((displayMax - displayMin) / n) n displayMin)))
            (List.replicate n [])) := by
  have hwidth : (displayMax - displayMin).tdiv n = (displayMax - displayMin) / n :=
    Int.tdiv_eq_ediv_of_nonneg (by omega)
  refine ⟨_, by rw [paintedBins, EventSeries.getFirstAfterTime_eq h, Option.bind_some,
    EventSeries.getFirstAfterTime_eq h, Option.map_some], ?_⟩
  set first := (s.events.takeWhile fun event => getTimeMS event < displayMin).length with hfirst
  have hdrop : s.events.drop first =
      s.events.filter fun event => !decide (getTimeMS event < displayMin) := by
    rw [hfirst, drop_length_takeWhile, (partitioned_lt h displayMin).dropWhile_eq_filter]
  have hfilter : (s.events.drop first).filter (Displayed displayMin displayMax ·) =
      s.events.filter (Displayed displayMin displayMax ·) := by
    rw [hdrop, List.filter_filter]
    refine List.filter_congr fun event _ => ?_
    simp only [Displayed]
    grind
  unfold binEvents
  by_cases hend : first = s.events.length
  · rw [if_pos hend]
    refine .inl ⟨rfl, ?_⟩
    rw [← hfilter, hend, List.drop_length]
    rfl
  · rw [if_neg hend, binLoop_eq, hfilter, hwidth]
    · refine .inr (Passed.bins_foldl ⟨rfl, List.length_replicate⟩ (h.filter _) ?_)
      exact fun _ _ => Nat.zero_le _
    · intro i event hevent hle
      have hbehind : event ∈
          s.events.filter fun event => !decide (getTimeMS event < displayMax) := by
        obtain ⟨j, hj⟩ := Nat.exists_eq_add_of_le hle
        rw [← (partitioned_lt h displayMax).dropWhile_eq_filter, ← drop_length_takeWhile]
        refine List.mem_of_getElem? (i := j) ?_
        rw [List.getElem?_drop, ← hj, ← List.getElem?_drop, hevent]
      simpa using (List.mem_filter.mp hbehind).2

/-- Where the width of the bins is not 0, the bin of an event is the quotient by it. -/
theorem binOf_lt_iff (hn : 0 < n) (hevent : Displayed displayMin displayMax event) :
    binOf (binEndTimes ((displayMax - displayMin) / n) n displayMin) event < n ↔
      getTimeMS event - displayMin < n * ((displayMax - displayMin) / n) := by
  obtain ⟨hmin, hmax⟩ := hevent
  have hwidth : 0 ≤ (displayMax - displayMin) / n := Int.ediv_nonneg (by omega) (by omega)
  generalize (displayMax - displayMin) / n = w at *
  rcases hwidth.eq_or_lt with rfl | hpos
  · rw [binOf_zero n hmin]
    omega
  · have hbin := binOf_pos hpos n hmin
    have hlt := Int.ediv_lt_iff_lt_mul (a := getTimeMS event - displayMin) (b := n) hpos
    omega

theorem binOf_eq (hevent : Displayed displayMin displayMax event)
    (h : getTimeMS event - displayMin < n * ((displayMax - displayMin) / n)) :
    (binOf (binEndTimes ((displayMax - displayMin) / n) n displayMin) event : ℤ) =
      (getTimeMS event - displayMin) / ((displayMax - displayMin) / n) := by
  obtain ⟨hmin, hmax⟩ := hevent
  have hwidth : 0 ≤ (displayMax - displayMin) / n := Int.ediv_nonneg (by omega) (by omega)
  generalize (displayMax - displayMin) / n = w at *
  rcases hwidth.eq_or_lt with rfl | hpos
  · omega
  · have hbin := binOf_pos hpos n hmin
    have hlt := Int.ediv_lt_iff_lt_mul (a := getTimeMS event - displayMin) (b := n) hpos
    omega

/-- The parts in whole numbers. -/
theorem partStart_le_iff (hn : 0 < n) (i : ℕ) (t : ℤ) :
    partStart displayMin displayMax n i - 1 ≤ t ↔
      i * (displayMax - displayMin) ≤ n * (t - displayMin + 1) := by
  have hpos : (0 : ℚ) < n := by exact_mod_cast hn
  have hcast : (partStart displayMin displayMax n i - 1 ≤ t) ↔
      (i * (displayMax - displayMin) : ℚ) ≤ n * (t - displayMin + 1) := by
    unfold partStart
    rw [← mul_le_mul_iff_right₀ hpos]
    field_simp
    constructor <;> intro h <;> linarith
  rw [hcast]
  exact_mod_cast Iff.rfl

theorem lt_partStart_iff (hn : 0 < n) (i : ℕ) (t : ℤ) :
    t < partStart displayMin displayMax n i + 1 ↔
      n * (t - displayMin - 1) < i * (displayMax - displayMin) := by
  have hpos : (0 : ℚ) < n := by exact_mod_cast hn
  have hcast : (t < partStart displayMin displayMax n i + 1) ↔
      (n * (t - displayMin - 1) : ℚ) < i * (displayMax - displayMin) := by
    unfold partStart
    rw [← mul_lt_mul_iff_right₀ hpos]
    field_simp
    constructor <;> intro h <;> linarith
  rw [hcast]
  exact_mod_cast Iff.rfl

/-- An event is behind the start of its part if the remainders before its bin allow it. -/
theorem quotient_mul_le_iff (d t : ℤ) :
    t / (d / n) * d ≤ n * (t + 1) ↔ t / (d / n) * (d % n) ≤ n * (t % (d / n) + 1) := by
  have hd := Int.mul_ediv_add_emod d n
  have ht := Int.mul_ediv_add_emod t (d / n)
  generalize d / n = w at *
  generalize d % n = r at *
  generalize t / w = q at *
  generalize t % w = m at *
  subst hd ht
  constructor <;> intro h <;> linarith

/-- An event is before the end of its part. -/
theorem lt_quotient_succ_mul (hn : 0 < n) {d t : ℤ} (hw : 0 < d / n) (ht : 0 ≤ t) :
    n * (t - 1) < (t / (d / n) + 1) * d := by
  have hd := Int.mul_ediv_add_emod d n
  have hrem := Int.emod_nonneg d (show (n : ℤ) ≠ 0 by omega)
  have hquot := Int.ediv_nonneg ht hw.le
  have hlt := Int.emod_lt_of_pos t hw
  have ht' := Int.mul_ediv_add_emod t (d / n)
  generalize d / n = w at *
  generalize d % n = r at *
  generalize t / w = q at *
  generalize t % w = m at *
  subst hd ht'
  have hr : 0 ≤ (q + 1) * r := mul_nonneg (by omega) hrem
  have hm : n * m ≤ n * w := mul_le_mul_of_nonneg_left hlt.le (by omega)
  linarith

omit [ChartEvent E] in
theorem mem_range_map_filter {key : E → ℕ} {i : ℕ} {bin : List E}
    (h : ((List.range n).map fun i => events.filter fun event => key event = i)[i]? = some bin) :
    i < n ∧ ∀ event, event ∈ bin ↔ event ∈ events ∧ key event = i := by
  obtain ⟨j, hj, rfl⟩ := Option.map_eq_some_iff.mp (List.getElem?_map.symm.trans h)
  obtain ⟨hlt, rfl⟩ := List.getElem?_eq_some_iff.mp hj
  simp only [List.length_range] at hlt
  simp [hlt]

/-- Events that are in their bins are binned. -/
theorem binned_foldl (hn : 0 < n) (h : EventSeries.Ascending events)
    (hbefore : ∀ event ∈ events.filter (Displayed displayMin displayMax ·),
      Displayed displayMin displayMax event ∧ InItsBin displayMin displayMax n event) :
    Binned displayMin displayMax n events
      ((events.filter (Displayed displayMin displayMax ·)).foldl
        (putInGroup (binOf (binEndTimes ((displayMax - displayMin) / n) n displayMin)))
          (List.replicate n [])) := by
  refine ⟨?_, ?_, fun i bin hi event hin => ?_⟩
  · rw [flatten_foldl_putInGroup, List.filter_eq_self]
    · intro event hmem
      obtain ⟨hdisplayed, hin⟩ := hbefore event hmem
      simpa using (binOf_lt_iff hn hdisplayed).mpr hin.1
    · exact (h.filter _).imp binOf_mono
  · rw [foldl_putInGroup_replicate, List.length_map, List.length_range]
  · rw [foldl_putInGroup_replicate] at hi
    obtain ⟨hmem, hkey⟩ := ((mem_range_map_filter hi).2 event).mp hin
    obtain ⟨hdisplayed, hlt, hlower⟩ := hbefore event hmem
    have hquot := binOf_eq hdisplayed hlt
    have htime : 0 ≤ getTimeMS event - displayMin := by
      have := hdisplayed.1
      omega
    have hwidth : 0 < (displayMax - displayMin) / n := by
      by_contra hnot
      have := mul_nonpos_of_nonneg_of_nonpos (Nat.cast_nonneg (α := ℤ) n) (not_lt.mp hnot)
      omega
    rw [partStart_le_iff hn, lt_partStart_iff hn, ← hkey]
    push_cast
    rw [hquot, quotient_mul_le_iff]
    exact ⟨hlower, lt_quotient_succ_mul hn hwidth htime⟩

/-- **The bins lose no event and hold what they stand for exactly if** every displayed event is
before the last end and the remainders do not move its bin. -/
theorem binned_iff (h : EventSeries.Ascending s.events) (hrange : displayMin < displayMax)
    (hn : 1 ≤ n) :
    (∃ bins, paintedBins displayMin displayMax n s = some bins ∧
        Binned displayMin displayMax n s.events bins) ↔
      ∀ event ∈ s.events, Displayed displayMin displayMax event →
        InItsBin displayMin displayMax n event := by
  obtain ⟨bins, hbins, hcases⟩ := paintedBins_eq (n := n) h hrange
  have hnpos : 0 < n := hn
  constructor
  · rintro ⟨_, hsome, hbinned⟩ event hevent hdisplayed
    obtain rfl := Option.some.inj (hsome.symm.trans hbins)
    have hmem : event ∈ s.events.filter (Displayed displayMin displayMax ·) :=
      List.mem_filter.mpr ⟨hevent, by simpa using hdisplayed⟩
    rcases hcases with ⟨-, hnone⟩ | hputs
    · rw [hnone] at hmem
      cases hmem
    · rw [← hbinned.flatten] at hmem
      obtain ⟨bin, hbin, hin⟩ := List.mem_flatten.mp hmem
      obtain ⟨i, hi⟩ := List.mem_iff_getElem?.mp hbin
      obtain ⟨hlower, -⟩ := hbinned.bounds i bin hi event hin
      rw [hputs, foldl_putInGroup_replicate] at hi
      obtain ⟨hlt, hbin⟩ := mem_range_map_filter hi
      have hkey := ((hbin event).mp hin).2
      have hbefore := (binOf_lt_iff hnpos hdisplayed).mp (by omega)
      have hquot := binOf_eq hdisplayed hbefore
      rw [partStart_le_iff hnpos, ← hkey, hquot, quotient_mul_le_iff] at hlower
      exact ⟨hbefore, hlower⟩
  · intro hall
    refine ⟨bins, hbins, ?_⟩
    rcases hcases with ⟨rfl, hnone⟩ | hputs
    · refine ⟨hnone.symm, Nat.zero_le _, fun i bin hi => ?_⟩
      cases hi
    · rw [hputs]
      refine binned_foldl hnpos h fun event hmem => ?_
      obtain ⟨hevent, hdisplayed⟩ := List.mem_filter.mp hmem
      have hdisplayed : Displayed displayMin displayMax event := by simpa using hdisplayed
      exact ⟨hdisplayed, hall event hevent hdisplayed⟩

/-- **Whatever the events are**, the bins keep them exactly if the range is a multiple of the number
of bins. -/
theorem binned_all_iff_dvd (hrange : displayMin < displayMax) (hn : 1 ≤ n) :
    (∀ s : EventSeries Event, EventSeries.Ascending s.events →
        ∃ bins, paintedBins displayMin displayMax n s = some bins ∧
          Binned displayMin displayMax n s.events bins) ↔
      (n : ℤ) ∣ displayMax - displayMin := by
  have hdiv := Int.mul_ediv_add_emod (displayMax - displayMin) n
  constructor
  · intro hall
    -- the last millisecond of the range
    let last := Event.portEvent ⟨[], 0, .unknown, [], displayMax - 1⟩
    let s : EventSeries Event := ⟨.portEvent, [last], [], 0, 0⟩
    have hin := (binned_iff (s := s) (List.pairwise_singleton _ _) hrange hn).mp
      (hall s (List.pairwise_singleton _ _)) last (List.mem_singleton.mpr rfl)
        ⟨Int.le_sub_one_of_lt hrange, sub_one_lt displayMax⟩
    have hlt : displayMax - 1 - displayMin < n * ((displayMax - displayMin) / n) := hin.1
    have hrem := Int.emod_nonneg (displayMax - displayMin) (show (n : ℤ) ≠ 0 by omega)
    exact Int.dvd_of_emod_eq_zero (by omega)
  · intro hdvd s h
    refine (binned_iff h hrange hn).mpr fun event _ hdisplayed => ?_
    have hrem := Int.emod_eq_zero_of_dvd hdvd
    obtain ⟨hmin, hmax⟩ := hdisplayed
    refine ⟨by omega, ?_⟩
    have hwidth : 0 < (displayMax - displayMin) / n :=
      Int.ediv_pos_of_pos_of_dvd (by omega) (by omega) hdvd
    have hm := Int.emod_nonneg (getTimeMS event - displayMin) hwidth.ne'
    rw [hrem, mul_zero]
    exact mul_nonneg (by omega) (by omega)

end Painted

/-- The events of a port. -/
def portEventsAt (times : List ℤ) : EventSeries Event :=
  ⟨.portEvent, times.map fun t => .portEvent ⟨"5".toList, 1, .sent, [], t⟩, [], 0, 0⟩

/-- A hundred milliseconds in three bins: four events are in theirs, and with one of the last
millisecond they are not. -/
theorem binned_iff_thirds :
    (∃ bins, paintedBins 0 100 3 (portEventsAt [0, 32, 40, 98, 120]) = some bins ∧
      Binned 0 100 3 (portEventsAt [0, 32, 40, 98, 120]).events bins) ∧
    ¬ ∃ bins, paintedBins 0 100 3 (portEventsAt [0, 32, 40, 98, 99]) = some bins ∧
      Binned 0 100 3 (portEventsAt [0, 32, 40, 98, 99]).events bins :=
  ⟨(binned_iff (by decide +kernel) (by decide) (by decide)).mpr (by decide +kernel),
    fun h => absurd ((binned_iff (by decide +kernel) (by decide) (by decide)).mp h)
      (by decide +kernel)⟩

/-- Ten milliseconds in three bins: the last one is in no bin. -/
theorem not_binned : ¬ ∀ (s : EventSeries Event) (displayMin displayMax : ℤ) (n : ℕ),
    EventSeries.Ascending s.events → displayMin < displayMax → 1 ≤ n →
      ∃ bins, paintedBins displayMin displayMax n s = some bins ∧
        Binned displayMin displayMax n s.events bins := by
  intro h
  obtain ⟨bins, hbins, hbinned⟩ := h (portEventsAt [9]) 0 10 3
    (List.pairwise_singleton _ _) (by decide) (by decide)
  have hnone : paintedBins 0 10 3 (portEventsAt [9]) = some [[], [], []] := by decide +kernel
  obtain rfl := Option.some.inj (hnone.symm.trans hbins)
  have hflatten := hbinned.flatten
  revert hflatten
  decide +kernel

end Chart

end Sem.Medea

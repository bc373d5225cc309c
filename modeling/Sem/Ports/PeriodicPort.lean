import Mathlib.Algebra.Order.Field.Basic
import Mathlib.Algebra.Order.Field.Rat
import Mathlib.Tactic.FieldSimp
import Mathlib.Tactic.LinearCombination
import Mathlib.Tactic.Positivity
import Mathlib.Tactic.Ring

/-!
# The period of a periodic port

A periodic port keeps a frequency in hertz, from which its loop computes how many microseconds to
wait for the next tick; doubles are rational numbers here. Without a frequency the loop waits for an
interrupt only, and `SetFrequency` does not wake it.

* `keepsDuration_iff`: the loop waits for the duration that was set exactly if that is a divisor of
  a second and the loop does not wait for an interrupt already.
* `not_keepsDuration`: 600 milliseconds.
-/

namespace Sem.Ports

/-- What `TickLoop` waits for. -/
inductive TickWait
  /-- It does not wait. -/
  | idle
  | microseconds (n : ℚ)
  /-- `tick_condition_.wait` -/
  | indefinitely
  deriving DecidableEq

/-- The frequency of a `PeriodicPort` and its loop, while it is not interrupted. -/
structure PeriodicPort where
  frequency : ℚ
  waiting : TickWait
  deriving DecidableEq

namespace PeriodicPort

/-- `SetFrequency`. -/
def setFrequency (p : PeriodicPort) (hz : ℚ) : PeriodicPort := { p with frequency := hz }

/-- The division is one of integers. -/
def setDuration (p : PeriodicPort) (milliseconds : Int) : PeriodicPort :=
  if milliseconds > 0 then p.setFrequency ((1000 : Int).tdiv milliseconds) else p.setFrequency 0

/-- What the loop waits for next, in microseconds. -/
def tickInterval (p : PeriodicPort) : TickWait :=
  if p.frequency ≤ 0 then .indefinitely else .microseconds (1000000 / p.frequency)

/-- `TickLoop` begins to wait, or the time is over. -/
def loopStep (p : PeriodicPort) : Option PeriodicPort :=
  match p.waiting with
  | .idle => some { p with waiting := p.tickInterval }
  | .microseconds _ => some { p with waiting := .idle }
  | .indefinitely => none

/-- The waits that the loop begins in so many steps. -/
def waits : ℕ → PeriodicPort → List TickWait
  | 0, _ => []
  | n + 1, p =>
    match p.loopStep with
    | none => []
    | some p' => (if p.waiting = .idle then [p'.waiting] else []) ++ waits n p'

/-- The loop ticks with the duration that is set, up to one microsecond, and so it does with the
frequency that belongs to it. -/
structure KeepsDuration (p : PeriodicPort) (milliseconds : Int) : Prop where
  interval : ∃ d : ℚ, 0 < d ∧ |d - 1000 * milliseconds| < 1 ∧
    ∀ n, (p.setDuration milliseconds).waits (2 * n) = List.replicate n (.microseconds d)
  consistent : (p.setFrequency (1000 / milliseconds)).tickInterval =
    (p.setDuration milliseconds).tickInterval

variable {p : PeriodicPort} {m : Int} {d : ℚ} {w : TickWait} {n : ℕ}

/-- Two steps are one wait. -/
theorem waits_add_two (h : p.tickInterval = .microseconds d) (hp : p.waiting ≠ .indefinitely) :
    ∃ p' : PeriodicPort, p'.tickInterval = .microseconds d ∧ p'.waiting ≠ .indefinitely ∧
      ∀ n, p.waits (n + 2) = .microseconds d :: p'.waits n := by
  cases hw : p.waiting with
  | idle =>
    refine ⟨{ p with waiting := .idle }, h, nofun, fun n => ?_⟩
    simp [waits, loopStep, hw, h]
  | microseconds e =>
    refine ⟨{ p with waiting := .microseconds d }, h, nofun, fun n => ?_⟩
    have hidle : ({ p with waiting := .idle } : PeriodicPort).tickInterval = .microseconds d := h
    simp [waits, loopStep, hw, hidle]
  | indefinitely => exact absurd hw hp

theorem waits_eq_replicate (h : p.tickInterval = .microseconds d)
    (hp : p.waiting ≠ .indefinitely) (n : ℕ) :
    p.waits (2 * n) = List.replicate n (.microseconds d) := by
  induction n generalizing p with
  | zero => rfl
  | succ n ih =>
    obtain ⟨p', h', hp', hwaits⟩ := waits_add_two h hp
    rw [show 2 * (n + 1) = 2 * n + 2 from rfl, hwaits, ih h' hp', List.replicate_succ]

/-- A wait that the loop begins is the interval. -/
theorem tickInterval_of_waits (h : p.waits 2 = [w]) :
    p.waiting ≠ .indefinitely ∧ p.tickInterval = w := by
  cases hw : p.waiting with
  | idle =>
    refine ⟨nofun, ?_⟩
    cases hi : p.tickInterval <;> simp [waits, loopStep, hw, hi] at h <;> exact h
  | microseconds e =>
    have hidle : ({ p with waiting := .idle } : PeriodicPort).tickInterval = p.tickInterval := rfl
    simp only [waits, loopStep, hw, hidle, reduceCtorEq, if_false, if_true, List.nil_append,
      List.append_nil, List.cons.injEq, and_true] at h
    exact ⟨nofun, h⟩
  | indefinitely => simp [waits, loopStep, hw] at h

/-- What `SetDuration` makes the loop wait for: a second in so many parts as the duration fits into
it. -/
theorem tickInterval_setDuration (hm : 0 < m) :
    (p.setDuration m).tickInterval = if 1000 < m then .indefinitely
      else .microseconds (1000000 / ((1000 / m : Int) : ℚ)) := by
  have hdiv : (1000 : Int).tdiv m = 1000 / m := Int.tdiv_eq_ediv_of_nonneg (by decide)
  have hfrequency : (p.setDuration m).frequency = ((1000 / m : Int) : ℚ) := by
    rw [setDuration, if_pos hm, hdiv]
    rfl
  have hpos : 0 < 1000 / m ↔ ¬ 1000 < m := by
    have hle : 1 ≤ 1000 / m ↔ 1 * m ≤ 1000 := Int.le_ediv_iff_mul_le hm
    omega
  rw [tickInterval, hfrequency]
  by_cases h : 1000 < m
  · have hle : ((1000 / m : Int) : ℚ) ≤ 0 := by
      have hnot : ¬ 0 < 1000 / m := fun h' => hpos.mp h' h
      exact_mod_cast not_lt.mp hnot
    rw [if_pos hle, if_pos h]
  · have hlt : (0 : ℚ) < ((1000 / m : Int) : ℚ) := by exact_mod_cast hpos.mpr h
    rw [if_neg (not_le.mpr hlt), if_neg h]

/-- A second in `k` parts is a part of `m` milliseconds, up to a microsecond, only if there is no
remainder. -/
theorem dvd_of_abs_lt_one (hm : 0 < m) (hle : m ≤ 1000)
    (h : |(1000000 : ℚ) / ((1000 / m : Int) : ℚ) - 1000 * m| < 1) : m ∣ 1000 := by
  have hk : 1 ≤ 1000 / m := (Int.le_ediv_iff_mul_le hm).mpr (by omega)
  have hk' : 1000 / m ≤ 1000 := Int.ediv_le_self _ (by decide)
  have hsplit : m * (1000 / m) + 1000 % m = 1000 := Int.mul_ediv_add_emod 1000 m
  have hr : 0 ≤ 1000 % m := Int.emod_nonneg _ hm.ne'
  generalize 1000 / m = k at h hk hk' hsplit
  generalize hrest : (1000 : Int) % m = r at hsplit hr
  have hkpos : (0 : ℚ) < k := by exact_mod_cast hk
  -- the error is that many times the remainder
  have herror : (1000000 : ℚ) / k - 1000 * m = 1000 * r / k := by
    have hcast : (m : ℚ) * k + r = 1000 := by exact_mod_cast hsplit
    field_simp
    linear_combination (-1000 : ℚ) * hcast
  have hr' : (0 : ℚ) ≤ 1000 * r / k := by
    have : (0 : ℚ) ≤ r := by exact_mod_cast hr
    positivity
  rw [herror, abs_of_nonneg hr', div_lt_one hkpos] at h
  have hlt : 1000 * r < k := by exact_mod_cast h
  exact Int.dvd_of_emod_eq_zero (hrest.trans (by omega))

/-- **The loop keeps the duration exactly if** it goes into a second without remainder and the loop
is not waiting for an interrupt. -/
theorem keepsDuration_iff (p : PeriodicPort) (m : Int) (hm : 0 < m) :
    p.KeepsDuration m ↔ p.waiting ≠ .indefinitely ∧ m ∣ 1000 := by
  have hwaiting : (p.setDuration m).waiting = p.waiting := by
    rw [setDuration, if_pos hm]
    rfl
  constructor
  · rintro ⟨⟨d, hd, hclose, hwaits⟩, -⟩
    obtain ⟨hp, hinterval⟩ := tickInterval_of_waits (hwaits 1)
    rw [hwaiting] at hp
    refine ⟨hp, ?_⟩
    rw [tickInterval_setDuration hm] at hinterval
    split at hinterval
    · cases hinterval
    · next hle =>
      cases hinterval
      exact dvd_of_abs_lt_one hm (not_lt.mp hle) hclose
  · rintro ⟨hp, k, hk⟩
    have hkpos : 0 < k := by
      by_contra hneg
      have : m * k ≤ 0 := Int.mul_nonpos_of_nonneg_of_nonpos hm.le (not_lt.mp hneg)
      omega
    have hle : ¬ 1000 < m := by
      have : m * 1 ≤ m * k := Int.mul_le_mul_of_nonneg_left hkpos hm.le
      omega
    have hdiv : 1000 / m = k := by
      rw [hk]
      exact Int.mul_ediv_cancel_left k hm.ne'
    have hmq : (0 : ℚ) < m := by exact_mod_cast hm
    have hkq : (0 : ℚ) < k := by exact_mod_cast hkpos
    have hcast : (m : ℚ) * k = 1000 := by exact_mod_cast hk.symm
    have hvalue : (1000000 : ℚ) / k = 1000 * m := by
      field_simp
      linear_combination (-1000 : ℚ) * hcast
    have hinterval : (p.setDuration m).tickInterval = .microseconds (1000 * m) := by
      rw [tickInterval_setDuration hm, if_neg hle, hdiv, hvalue]
    refine ⟨⟨1000 * m, by positivity, by simp, ?_⟩, ?_⟩
    · exact waits_eq_replicate hinterval (by rwa [hwaiting])
    · have hfrequency : (0 : ℚ) < 1000 / m := by positivity
      have hperiod : (1000000 : ℚ) / (1000 / m) = 1000 * m := by
        field_simp
        norm_num
      rw [hinterval, tickInterval]
      show (if (1000 : ℚ) / m ≤ 0 then _ else TickWait.microseconds (1000000 / (1000 / m))) = _
      rw [if_neg (not_le.mpr hfrequency), hperiod]

/-- The constructor. -/
def start : PeriodicPort := ⟨0, .idle⟩

theorem keepsDuration_twenty : start.KeepsDuration 20 :=
  (keepsDuration_iff start 20 (by decide)).mpr ⟨nofun, by decide⟩

/-- The loop waits for a whole second. -/
theorem not_keepsDuration : ¬ start.KeepsDuration 600 := by
  rintro ⟨⟨d, -, hclose, hwaits⟩, -⟩
  have hsecond : (start.setDuration 600).waits (2 * 1) = [.microseconds 1000000] := by
    decide +kernel
  rw [hwaits 1] at hsecond
  cases hsecond
  rw [abs_lt] at hclose
  norm_num at hclose

end PeriodicPort

end Sem.Ports

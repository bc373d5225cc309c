import Mathlib.Algebra.BigOperators.Intervals
import Mathlib.Data.Int.ModEq

/-!
# Sums by halving

A row of cells is added up by halving it again and again: with half of them as the offset, each
cell of the first half takes in the one at that offset. Where the number of cells is odd, the last
one is left out.

* `treeSum`, `treeSum_eq`: what the first cell has at the end is the sum of the cells that are kept.
* `kept_mod_iff`: when the halving keeps all the cells of a shorter row, repeated.
* `strided`, `strided_sum`: the numbers from a first one on, in strides.
-/

namespace Sem

variable {A : Type}

/-- The first of `n` cells at the end. -/
def treeSum [Add A] (n : ℕ) (f : ℕ → A) : A :=
  if n / 2 = 0 then f 0 else treeSum (n / 2) fun l => f l + f (l + n / 2)
termination_by n
decreasing_by omega

/-- The cell is taken in on the way to the first. -/
def kept (n l : ℕ) : Bool :=
  if n / 2 = 0 then l == 0 else decide (l < 2 * (n / 2)) && kept (n / 2) (l % (n / 2))
termination_by n
decreasing_by omega

theorem kept_of_half {n : ℕ} (h : n / 2 ≠ 0) (l : ℕ) :
    kept n l = (decide (l < 2 * (n / 2)) && kept (n / 2) (l % (n / 2))) := by
  rw [kept, if_neg h]

/-- The first cell has the sum of those that are kept. -/
theorem treeSum_eq [AddCommMonoid A] {n : ℕ} (hn : 0 < n) (f : ℕ → A) :
    treeSum n f = ∑ l ∈ Finset.range n with kept n l, f l := by
  induction n using Nat.strong_induction_on generalizing f with
  | _ n ih =>
    rw [Finset.sum_filter, treeSum]
    by_cases hhalf : n / 2 = 0
    · obtain rfl : n = 1 := by omega
      simp [kept]
    · have hlower : ∀ l ∈ Finset.range (n / 2),
          (if kept n l then f l else 0) = if kept (n / 2) l then f l else 0 := by
        intro l hl
        have hlt := Finset.mem_range.mp hl
        rw [kept_of_half hhalf, Nat.mod_eq_of_lt hlt, decide_eq_true (by omega), Bool.true_and]
      have hupper : ∀ l ∈ Finset.range (n / 2),
          (if kept n (n / 2 + l) then f (n / 2 + l) else 0) =
            if kept (n / 2) l then f (l + n / 2) else 0 := by
        intro l hl
        have hlt := Finset.mem_range.mp hl
        rw [kept_of_half hhalf, Nat.add_mod_left, Nat.mod_eq_of_lt hlt,
          decide_eq_true (by omega), Bool.true_and, Nat.add_comm l]
      have heven : ∑ l ∈ Finset.range n, (if kept n l then f l else 0) =
          ∑ l ∈ Finset.range (n / 2 + n / 2), if kept n l then f l else 0 := by
        obtain hn2 | hn2 : n = n / 2 + n / 2 ∨ n = n / 2 + n / 2 + 1 := by omega
        · rw [← hn2]
        · have hlast : kept n (n / 2 + n / 2) = false := by
            rw [kept_of_half hhalf, decide_eq_false (by omega), Bool.false_and]
          conv_lhs => rw [hn2, Finset.sum_range_succ, ← hn2]
          simp [hlast]
      rw [if_neg hhalf, ih (n / 2) (by omega) (by omega), Finset.sum_filter, heven,
        Finset.sum_range_add, Finset.sum_congr rfl hlower, Finset.sum_congr rfl hupper,
        ← Finset.sum_add_distrib]
      refine Finset.sum_congr rfl fun l _ => ?_
      by_cases hl : kept (n / 2) l <;> simp [hl]

/-- The halving of `n` cells keeps the first `N` of them, repeated: no row that it comes to has an
odd number of cells that is not greater. -/
theorem kept_mod_iff {n : ℕ} (hn : 0 < n) (N : ℕ) :
    (∀ i < N, kept n (i % n)) ↔ ∀ j, n / 2 ^ j % 2 = 1 → 1 < n / 2 ^ j → N < n / 2 ^ j := by
  induction n using Nat.strong_induction_on with
  | _ n ih =>
    by_cases hhalf : n / 2 = 0
    · obtain rfl : n = 1 := by omega
      refine iff_of_true (fun i _ => ?_) fun j _ hlt => ?_
      · rw [Nat.mod_one]
        simp [kept]
      · exact absurd hlt (Nat.not_lt.mpr (Nat.div_le_self 1 _))
    · have hrows : (∀ j, n / 2 ^ j % 2 = 1 → 1 < n / 2 ^ j → N < n / 2 ^ j) ↔
          (n % 2 = 1 → N < n) ∧
            ∀ j, n / 2 / 2 ^ j % 2 = 1 → 1 < n / 2 / 2 ^ j → N < n / 2 / 2 ^ j := by
        have hdiv : ∀ j, n / 2 ^ (j + 1) = n / 2 / 2 ^ j := by
          intro j
          rw [Nat.pow_succ, Nat.mul_comm, Nat.div_div_eq_div_mul]
        constructor
        · intro h
          refine ⟨fun hodd => ?_, fun j => ?_⟩
          · simpa using h 0 (by simpa using hodd) (by simp; omega)
          · rw [← hdiv]
            exact h (j + 1)
        · rintro ⟨hzero, hsucc⟩ j
          cases j with
          | zero =>
            simp only [Nat.pow_zero, Nat.div_one]
            exact fun hodd _ => hzero hodd
          | succ j =>
            rw [hdiv]
            exact hsucc j
      rw [hrows, ← ih (n / 2) (by omega) (by omega)]
      simp only [kept_of_half hhalf, Bool.and_eq_true, decide_eq_true_eq]
      obtain heven | hodd : n = 2 * (n / 2) ∨ n = 2 * (n / 2) + 1 := by omega
      · have hmod : ∀ i, i % n % (n / 2) = i % (n / 2) := fun i =>
          Nat.mod_mod_of_dvd i ⟨2, by omega⟩
        have hlt : ∀ i, i % n < 2 * (n / 2) := fun i =>
          lt_of_lt_of_eq (Nat.mod_lt i hn) heven
        simp only [hmod, hlt, true_and]
        exact ⟨fun h => ⟨by omega, h⟩, And.right⟩
      · constructor
        · intro h
          have hN : N < n := by
            by_contra hle
            have := (h (n - 1) (by omega)).1
            rw [Nat.mod_eq_of_lt (by omega)] at this
            omega
          refine ⟨fun _ => hN, fun i hi => ?_⟩
          have := (h i hi).2
          rwa [Nat.mod_eq_of_lt (by omega : i < n)] at this
        · rintro ⟨hN, h⟩ i hi
          have hlt := hN (by omega)
          rw [Nat.mod_eq_of_lt (by omega : i < n)]
          exact ⟨by omega, h i hi⟩

/-- The numbers below `n` from `first` on, in strides. -/
def strided (stride n first : ℕ) : List ℕ :=
  if first < n ∧ 0 < stride then first :: strided stride n (first + stride) else []
termination_by n - first

theorem mem_strided {stride n first i : ℕ} (h : i ∈ strided stride n first) : i < n := by
  fun_induction strided stride n first with
  | case1 first hlt ih =>
    rcases List.mem_cons.mp h with rfl | hrest
    · exact hlt.1
    · exact ih hrest
  | case2 => cases h

/-- The strides meet each number below `n` that leaves the same remainder. -/
theorem strided_sum [AddCommMonoid A] {stride : ℕ} (hstride : 0 < stride) (n first : ℕ)
    (f : ℕ → A) : ((strided stride n first).map f).sum =
      ∑ i ∈ Finset.range n with first ≤ i ∧ i % stride = first % stride, f i := by
  fun_induction strided stride n first with
  | case1 first hlt ih =>
    rw [List.map_cons, List.sum_cons, ih]
    have hset : {i ∈ Finset.range n | first ≤ i ∧ i % stride = first % stride} =
        insert first {i ∈ Finset.range n |
          first + stride ≤ i ∧ i % stride = (first + stride) % stride} := by
      ext i
      simp only [Finset.mem_filter, Finset.mem_range, Finset.mem_insert, Nat.add_mod_right]
      constructor
      · rintro ⟨hi, hle, hmod⟩
        by_cases heq : i = first
        · exact .inl heq
        · refine .inr ⟨hi, ?_, hmod⟩
          have hdvd : stride ∣ i - first := (Nat.modEq_iff_dvd' hle).mp hmod.symm
          have := Nat.le_of_dvd (by omega) hdvd
          omega
      · rintro (rfl | ⟨hi, hle, hmod⟩)
        · exact ⟨hlt.1, le_refl i, rfl⟩
        · exact ⟨hi, by omega, hmod⟩
    rw [hset, Finset.sum_insert]
    simp only [Finset.mem_filter, not_and]
    omega
  | case2 first hlt =>
    rw [List.map_nil, List.sum_nil, Finset.filter_false_of_mem, Finset.sum_empty]
    intro i hi
    have := Finset.mem_range.mp hi
    omega

end Sem

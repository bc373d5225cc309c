import Mathlib.Algebra.Order.Floor.Ring
import Mathlib.Data.Nat.Sqrt
import Mathlib.Data.Rat.Floor
import Mathlib.Tactic.Linarith
import Mathlib.Tactic.Ring

/-!
# The dimensions of a matrix product

`OpenCL_Worker::MatrixMult` is given three buffers and finds the dimensions of the matrices in them
from their lengths. The square root of doubles is a parameter (`SqrtLaw`).

* `matrixDimensions`: what the call does before it looks for its kernel.
* `dimensionsLaw_iff`: it finds the dimensions that fit, and refuses lengths that none fit, exactly
  if the third is not too long and does not miss the length of a product by so little that the
  truncated quotient hides it.
* `not_dimensionsLaw`: a result that is a little too short, and one that is too long.
-/

namespace Sem.OpenCL

/-- What `sqrt` promises: a root that is a whole number is exact, any other lies between its
neighbours. -/
structure SqrtLaw (sqrt : ℕ → ℚ) : Prop where
  exact : ∀ k : ℕ, sqrt (k * k) = k
  between : ∀ k n : ℕ, k * k < n → n < (k + 1) * (k + 1) → (k : ℚ) < sqrt n ∧ sqrt n < k + 1

/-- What a call comes to before it looks for its kernel. -/
inductive Dimensions
  /-- "warning: performing multiplication on empty matrices" -/
  | empty
  /-- "one had length of 0" -/
  | zeroLength
  /-- "sizes of matrices don't match" -/
  | mismatch
  | divisionByZero
  | run (M K N : ℕ)
  deriving DecidableEq, Repr

/-- The call returns false. -/
def Dimensions.Refuses : Dimensions → Prop
  | .empty | .zeroLength | .mismatch => True
  | .divisionByZero | .run _ _ _ => False

/-- `MatrixMult` up to `GetKernel`; a `cl_uint` is a number below `2 ^ 32`, and the products are
those of `cl_ulong`. -/
def matrixDimensions (sqrt : ℕ → ℚ) (lenA lenB lenC : UInt32) : Dimensions :=
  if lenA = 0 ∨ lenB = 0 ∨ lenC = 0 then
    if lenA + lenB + lenC = 0 then .empty else .zeroLength
  else
    let Ksquared := lenA.toNat * lenB.toNat % 2 ^ 64 / lenC.toNat
    let K := ⌊sqrt Ksquared⌋₊ % 2 ^ 32
    if K = 0 then .divisionByZero
    else
      let M := lenA.toNat / K
      let N := lenB.toNat / K
      if K * K % 2 ^ 64 ≠ Ksquared ∨ M * K % 2 ^ 64 ≠ lenA.toNat ∨ N * K % 2 ^ 64 ≠ lenB.toNat then
        .mismatch
      else .run M K N

/-- The dimensions fit the lengths. -/
structure Fits (lenA lenB lenC : UInt32) (M K N : ℕ) : Prop where
  pos : 1 ≤ M ∧ 1 ≤ K ∧ 1 ≤ N
  lenA : lenA.toNat = M * K
  lenB : lenB.toNat = K * N
  lenC : lenC.toNat = M * N

/-- The call goes on with the dimensions that fit, and refuses the lengths that none fit. -/
def DimensionsLaw (sqrt : ℕ → ℚ) (lenA lenB lenC : UInt32) : Prop :=
  (∀ M K N, matrixDimensions sqrt lenA lenB lenC = .run M K N ↔ Fits lenA lenB lenC M K N) ∧
    ((¬ ∃ M K N, Fits lenA lenB lenC M K N) → (matrixDimensions sqrt lenA lenB lenC).Refuses)

/-- A length is zero; or the third is not greater than the product of the first two, and it never
falls short of the length of a product of these by so little that the quotient hides it. -/
def NoNearMiss (lenA lenB lenC : UInt32) : Prop :=
  lenA = 0 ∨ lenB = 0 ∨ lenC = 0 ∨
    lenC.toNat ≤ lenA.toNat * lenB.toNat ∧
      ∀ M K N, lenA.toNat = M * K → lenB.toNat = K * N → lenC.toNat < M * N →
        lenC.toNat ≤ K * K * (M * N - lenC.toNat)

section Roots

variable {sqrt : ℕ → ℚ}

theorem SqrtLaw.floor (h : SqrtLaw sqrt) (n : ℕ) : ⌊sqrt n⌋₊ = n.sqrt := by
  by_cases hsquare : n.sqrt * n.sqrt = n
  · have hexact := h.exact n.sqrt
    rw [hsquare] at hexact
    rw [hexact, Nat.floor_natCast]
  · have hlt : n.sqrt * n.sqrt < n := lt_of_le_of_ne (Nat.sqrt_le n) hsquare
    obtain ⟨hlow, hhigh⟩ := h.between n.sqrt n hlt (Nat.lt_succ_sqrt n)
    have hpos : (0 : ℚ) ≤ sqrt n := le_trans (Nat.cast_nonneg _) hlow.le
    exact (Nat.floor_eq_iff hpos).mpr ⟨hlow.le, hhigh⟩

variable {lenA lenB lenC : UInt32} {M K N : ℕ}

theorem product_lt (lenA lenB : UInt32) : lenA.toNat * lenB.toNat < 2 ^ 64 := by
  have hA := lenA.toNat_lt
  have hB := lenB.toNat_lt
  calc lenA.toNat * lenB.toNat ≤ (2 ^ 32 - 1) * (2 ^ 32 - 1) := Nat.mul_le_mul (by omega) (by omega)
    _ < 2 ^ 64 := by norm_num

/-- The dimensions, without the arithmetic of the machine. -/
theorem matrixDimensions_eq (h : SqrtLaw sqrt) (hA : lenA ≠ 0) (hB : lenB ≠ 0) (hC : lenC ≠ 0) :
    matrixDimensions sqrt lenA lenB lenC =
      let K := (lenA.toNat * lenB.toNat / lenC.toNat).sqrt
      if K = 0 then .divisionByZero
      else if K * K = lenA.toNat * lenB.toNat / lenC.toNat ∧ K ∣ lenA.toNat ∧ K ∣ lenB.toNat then
        .run (lenA.toNat / K) K (lenB.toNat / K)
      else .mismatch := by
  have hlt := product_lt lenA lenB
  have hquotient : lenA.toNat * lenB.toNat / lenC.toNat < 2 ^ 64 :=
    lt_of_le_of_lt (Nat.div_le_self _ _) hlt
  have hroot : (lenA.toNat * lenB.toNat / lenC.toNat).sqrt < 2 ^ 32 := by
    rw [Nat.sqrt_lt]
    exact lt_of_lt_of_eq hquotient (by norm_num)
  unfold matrixDimensions
  rw [if_neg (by simp [hA, hB, hC])]
  simp only [Nat.mod_eq_of_lt hlt, h.floor, Nat.mod_eq_of_lt hroot]
  generalize hq : lenA.toNat * lenB.toNat / lenC.toNat = q at *
  by_cases hK : q.sqrt = 0
  · rw [if_pos hK, if_pos hK]
  · rw [if_neg hK, if_neg hK]
    have hsquare : q.sqrt * q.sqrt % 2 ^ 64 = q.sqrt * q.sqrt :=
      Nat.mod_eq_of_lt (lt_of_le_of_lt (Nat.sqrt_le q) hquotient)
    have hproduct : ∀ len : UInt32, len.toNat / q.sqrt * q.sqrt % 2 ^ 64 = len.toNat ↔
        q.sqrt ∣ len.toNat := by
      intro len
      have hle := Nat.div_mul_le_self len.toNat q.sqrt
      have hlen := len.toNat_lt
      rw [Nat.mod_eq_of_lt (by omega)]
      exact ⟨fun heq => ⟨_, (Nat.mul_comm _ _).trans heq |>.symm⟩, Nat.div_mul_cancel⟩
    rw [hsquare]
    simp only [ne_eq, hproduct]
    by_cases hfits : q.sqrt * q.sqrt = q ∧ q.sqrt ∣ lenA.toNat ∧ q.sqrt ∣ lenB.toNat
    · rw [if_pos hfits, if_neg (by tauto)]
    · rw [if_neg hfits, if_pos (by tauto)]

/-- Lengths that dimensions fit. -/
theorem Fits.quotient (h : Fits lenA lenB lenC M K N) :
    lenA.toNat * lenB.toNat / lenC.toNat = K * K := by
  have hpos : 0 < M * N := Nat.mul_pos h.pos.1 h.pos.2.2
  rw [h.lenA, h.lenB, h.lenC]
  exact Nat.div_eq_of_eq_mul_left hpos (by ring)

theorem Fits.ne_zero (h : Fits lenA lenB lenC M K N) : lenA ≠ 0 ∧ lenB ≠ 0 ∧ lenC ≠ 0 := by
  obtain ⟨hM, hK, hN⟩ := h.pos
  have hne : ∀ len : UInt32, 0 < len.toNat → len ≠ 0 := by
    rintro len hlen rfl
    exact absurd hlen (by decide)
  refine ⟨hne _ ?_, hne _ ?_, hne _ ?_⟩
  · rw [h.lenA]
    exact Nat.mul_pos hM hK
  · rw [h.lenB]
    exact Nat.mul_pos hK hN
  · rw [h.lenC]
    exact Nat.mul_pos hM hN

theorem toNat_pos {len : UInt32} (h : len ≠ 0) : 0 < len.toNat :=
  Nat.pos_of_ne_zero fun hzero => h (UInt32.toNat_inj.mp hzero)

/-- When the quotient is the square of the inner dimension. -/
theorem quotient_eq_iff (hC : lenC ≠ 0) (hK : 0 < K) (hM : lenA.toNat = M * K)
    (hN : lenB.toNat = K * N) :
    lenA.toNat * lenB.toNat / lenC.toNat = K * K ↔
      lenC.toNat ≤ M * N ∧ K * K * (M * N - lenC.toNat) < lenC.toNat := by
  have hproduct : lenA.toNat * lenB.toNat = K * K * (M * N) := by
    rw [hM, hN]
    ring
  have hsquare : 0 < K * K := Nat.mul_pos hK hK
  rw [hproduct, Nat.div_eq_iff (toNat_pos hC), Nat.mul_comm (K * K) lenC.toNat]
  constructor
  · rintro ⟨hlow, hhigh⟩
    have hle : lenC.toNat ≤ M * N := by
      rw [Nat.mul_comm] at hlow
      exact Nat.le_of_mul_le_mul_left hlow hsquare
    refine ⟨hle, ?_⟩
    rw [Nat.mul_sub, Nat.mul_comm (K * K) lenC.toNat]
    have := toNat_pos hC
    omega
  · rintro ⟨hle, hlt⟩
    have hmul := Nat.mul_le_mul_left (K * K) hle
    rw [Nat.mul_sub] at hlt
    rw [Nat.mul_comm lenC.toNat]
    omega

/-- The third length is that of the product, where the quotient is the square. -/
theorem NoNearMiss.lenC_eq (h : NoNearMiss lenA lenB lenC) (hA : lenA ≠ 0) (hB : lenB ≠ 0)
    (hC : lenC ≠ 0) (hK : 0 < K) (hM : lenA.toNat = M * K) (hN : lenB.toNat = K * N)
    (hquotient : lenA.toNat * lenB.toNat / lenC.toNat = K * K) : lenC.toNat = M * N := by
  obtain ⟨hle, hlt⟩ := (quotient_eq_iff hC hK hM hN).mp hquotient
  unfold NoNearMiss at h
  simp only [hA, hB, hC, false_or] at h
  rcases Nat.eq_or_lt_of_le hle with heq | hless
  · exact heq
  · have := h.2 M K N hM hN hless
    omega

/-- What runs fits, where the third length is that of the product. -/
theorem fits_of_product (hA : lenA ≠ 0) (hB : lenB ≠ 0) (hK : 0 < K) (hM : lenA.toNat = M * K)
    (hN : lenB.toNat = K * N) (hC : lenC.toNat = M * N) : Fits lenA lenB lenC M K N := by
  refine ⟨⟨Nat.pos_of_ne_zero ?_, hK, Nat.pos_of_ne_zero ?_⟩, hM, hN, hC⟩
  · rintro rfl
    exact (toNat_pos hA).ne' (by rw [hM, Nat.zero_mul])
  · rintro rfl
    exact (toNat_pos hB).ne' (by rw [hN, Nat.mul_zero])

theorem Fits.matrixDimensions (hsqrt : SqrtLaw sqrt) (h : Fits lenA lenB lenC M K N) :
    matrixDimensions sqrt lenA lenB lenC = .run M K N := by
  obtain ⟨hA, hB, hC⟩ := h.ne_zero
  obtain ⟨hM, hK, hN⟩ := h.pos
  rw [matrixDimensions_eq hsqrt hA hB hC]
  simp only [h.quotient, Nat.sqrt_eq]
  have hKA : K ∣ lenA.toNat := ⟨M, h.lenA.trans (Nat.mul_comm M K)⟩
  have hKB : K ∣ lenB.toNat := ⟨N, h.lenB⟩
  rw [if_neg (by omega), if_pos ⟨trivial, hKA, hKB⟩, h.lenA, h.lenB,
    Nat.mul_div_cancel M (by omega), Nat.mul_div_cancel_left N (by omega)]

/-- Lengths with a zero are refused. -/
theorem dimensionsLaw_of_zero (h : lenA = 0 ∨ lenB = 0 ∨ lenC = 0) :
    DimensionsLaw sqrt lenA lenB lenC := by
  have hnot : ∀ M K N, ¬ Fits lenA lenB lenC M K N := by
    intro M K N hfits
    obtain ⟨hA, hB, hC⟩ := hfits.ne_zero
    tauto
  have heq : matrixDimensions sqrt lenA lenB lenC =
      if lenA + lenB + lenC = 0 then .empty else .zeroLength := by
    unfold matrixDimensions
    rw [if_pos h]
  by_cases hsum : lenA + lenB + lenC = 0
  · rw [if_pos hsum] at heq
    exact ⟨fun M K N => iff_of_false (by rw [heq]; nofun) (hnot M K N), fun _ => by rw [heq]; trivial⟩
  · rw [if_neg hsum] at heq
    exact ⟨fun M K N => iff_of_false (by rw [heq]; nofun) (hnot M K N), fun _ => by rw [heq]; trivial⟩

/-- The call does as it should exactly if no length misses the product so narrowly. -/
theorem dimensionsLaw_iff (hsqrt : SqrtLaw sqrt) (lenA lenB lenC : UInt32) :
    DimensionsLaw sqrt lenA lenB lenC ↔ NoNearMiss lenA lenB lenC := by
  by_cases hzero : lenA = 0 ∨ lenB = 0 ∨ lenC = 0
  · refine iff_of_true (dimensionsLaw_of_zero hzero) ?_
    unfold NoNearMiss
    tauto
  obtain ⟨hA, hB, hC⟩ : lenA ≠ 0 ∧ lenB ≠ 0 ∧ lenC ≠ 0 := by tauto
  have heq := matrixDimensions_eq hsqrt hA hB hC
  constructor
  · rintro ⟨hrun, hrefuses⟩
    refine .inr (.inr (.inr ⟨?_, ?_⟩))
    · by_contra hlt
      have hzero : lenA.toNat * lenB.toNat / lenC.toNat = 0 := Nat.div_eq_of_lt (by omega)
      simp only [hzero, Nat.sqrt_zero, if_true] at heq
      by_cases hsome : ∃ M K N, Fits lenA lenB lenC M K N
      · obtain ⟨M, K, N, h⟩ := hsome
        rw [(hrun M K N).mpr h] at heq
        cases heq
      · have := hrefuses hsome
        rw [heq] at this
        exact this
    · intro M K N hM hN hless
      by_contra hnear
      have hK : 0 < K := by
        refine Nat.pos_of_ne_zero ?_
        rintro rfl
        exact (toNat_pos hA).ne' (by rw [hM, Nat.mul_zero])
      have hquotient := (quotient_eq_iff hC hK hM hN).mpr ⟨hless.le, by omega⟩
      have hKA : K ∣ lenA.toNat := ⟨M, hM.trans (Nat.mul_comm M K)⟩
      have hKB : K ∣ lenB.toNat := ⟨N, hN⟩
      simp only [hquotient, Nat.sqrt_eq] at heq
      rw [if_neg hK.ne', if_pos ⟨trivial, hKA, hKB⟩, hM, hN, Nat.mul_div_cancel M hK,
        Nat.mul_div_cancel_left N hK] at heq
      have h := (hrun M K N).mp heq
      exact hless.ne h.lenC
  · intro hnear
    have hle : lenC.toNat ≤ lenA.toNat * lenB.toNat := by
      unfold NoNearMiss at hnear
      simp only [hA, hB, hC, false_or] at hnear
      exact hnear.1
    generalize hq : lenA.toNat * lenB.toNat / lenC.toNat = q at heq
    have hqpos : 0 < q := hq ▸ Nat.div_pos hle (toNat_pos hC)
    have hroot : 0 < q.sqrt := Nat.sqrt_pos.mpr hqpos
    simp only [if_neg hroot.ne'] at heq
    by_cases hfit : q.sqrt * q.sqrt = q ∧ q.sqrt ∣ lenA.toNat ∧ q.sqrt ∣ lenB.toNat
    · rw [if_pos hfit] at heq
      obtain ⟨hsquare, hKA, hKB⟩ := hfit
      have hM := (Nat.div_mul_cancel hKA).symm
      have hN := (Nat.mul_div_cancel' hKB).symm
      have h := fits_of_product hA hB hroot hM hN
        (hnear.lenC_eq hA hB hC hroot hM hN (hq.trans hsquare.symm))
      refine ⟨fun M K N => ⟨fun hrun => ?_, Fits.matrixDimensions hsqrt⟩,
        fun hnone => (hnone ⟨_, _, _, h⟩).elim⟩
      rw [heq] at hrun
      cases hrun
      exact h
    · rw [if_neg hfit] at heq
      refine ⟨fun M K N => ⟨fun hrun => ?_, Fits.matrixDimensions hsqrt⟩, fun _ => ?_⟩
      · rw [heq] at hrun
        cases hrun
      · rw [heq]
        trivial

end Roots

/-- A square root of doubles: exact, or half way to the next whole number. -/
def halfwaySqrt (n : ℕ) : ℚ := if n.sqrt * n.sqrt = n then n.sqrt else n.sqrt + 1 / 2

theorem halfwaySqrt_law : SqrtLaw halfwaySqrt where
  exact k := by
    unfold halfwaySqrt
    rw [Nat.sqrt_eq, if_pos rfl]
  between k n hlow hhigh := by
    have hsqrt : n.sqrt = k := (Nat.eq_sqrt.mpr ⟨hlow.le, hhigh⟩).symm
    unfold halfwaySqrt
    rw [hsqrt, if_neg hlow.ne]
    constructor <;> linarith

/-- Matrices of two by three and three by two. -/
theorem dimensionsLaw_six : SqrtLaw halfwaySqrt ∧ DimensionsLaw halfwaySqrt 6 6 4 := by
  refine ⟨halfwaySqrt_law, (dimensionsLaw_iff halfwaySqrt_law 6 6 4).mpr (.inr (.inr (.inr ?_)))⟩
  refine ⟨by decide, fun M K N hM hN hless => ?_⟩
  change 6 = M * K at hM
  change 6 = K * N at hN
  change 4 < M * N at hless
  change 4 ≤ K * K * (M * N - 4)
  have hK : K ≠ 0 := by
    rintro rfl
    omega
  rcases Nat.lt_or_ge K 2 with hone | htwo
  · obtain rfl : K = 1 := by omega
    obtain rfl : M = 6 := by omega
    obtain rfl : N = 6 := by omega
    decide
  · calc 4 ≤ K * K := Nat.mul_le_mul htwo htwo
      _ ≤ K * K * (M * N - 4) := Nat.le_mul_of_pos_right _ (by omega)

/-- A result of three elements for a product of four, and a product of one element for a result of
two. -/
theorem not_dimensionsLaw :
    matrixDimensions halfwaySqrt 2 2 3 = .run 2 1 2 ∧ ¬ DimensionsLaw halfwaySqrt 2 2 3 ∧
      matrixDimensions halfwaySqrt 1 1 2 = .divisionByZero ∧ ¬ DimensionsLaw halfwaySqrt 1 1 2 := by
  have hrun : matrixDimensions halfwaySqrt 2 2 3 = .run 2 1 2 := by
    rw [matrixDimensions_eq halfwaySqrt_law (by decide) (by decide) (by decide)]
    decide +kernel
  have hzero : matrixDimensions halfwaySqrt 1 1 2 = .divisionByZero := by
    rw [matrixDimensions_eq halfwaySqrt_law (by decide) (by decide) (by decide)]
    decide +kernel
  refine ⟨hrun, fun h => ?_, hzero, fun h => ?_⟩
  · have := ((h.1 2 1 2).mp hrun).lenC
    revert this
    decide
  · by_cases hsome : ∃ M K N, Fits 1 1 2 M K N
    · obtain ⟨M, K, N, hfits⟩ := hsome
      have := (h.1 M K N).mpr hfits
      rw [hzero] at this
      cases this
    · have := h.2 hsome
      rw [hzero] at this
      exact this

end Sem.OpenCL

import Mathlib.Algebra.Group.Nat.Defs
import Mathlib.Data.List.Basic

/-!
# Variable-length integers

A number is written as its base-128 digits, the low ones first, with the high bit set in all bytes
but the last.

* `read_write`: what is written is read back, with the bytes that follow it.
* `read_take_write`: a number whose last bytes are missing is not read.
-/

namespace Sem.Lib.Varint

/-- At most `k` bytes of `n`. -/
def write : ℕ → ℕ → List UInt8
  | 0, _ => []
  | k + 1, n =>
    if n < 128 then [UInt8.ofNat n] else UInt8.ofNat (n % 128 + 128) :: write k (n / 128)

/-- A number of at most `k` bytes, with the bytes after it. -/
def read : ℕ → List UInt8 → Option (ℕ × List UInt8)
  | 0, _ => none
  | _ + 1, [] => none
  | k + 1, b :: bytes =>
    if b.toNat < 128 then some (b.toNat, bytes)
    else (read k bytes).map fun r => (b.toNat - 128 + 128 * r.1, r.2)

variable {k l n : ℕ}

theorem length_write_pos (k n : ℕ) : 0 < (write (k + 1) n).length := by
  rw [write]
  split
  · exact Nat.one_pos
  · exact Nat.succ_pos _

@[simp] theorem read_nil (k : ℕ) : read k [] = none := by
  cases k <;> rfl

/-- A byte of the code. -/
theorem toNat_ofNat (h : n < 256) : (UInt8.ofNat n).toNat = n :=
  UInt8.toNat_ofNat_of_lt' h

/-- The last byte. -/
theorem read_write_of_lt (hn : n < 128) (k : ℕ) (rest : List UInt8) :
    read (l + 1) (write (k + 1) n ++ rest) = some (n, rest) := by
  rw [write, if_pos hn, List.singleton_append, read, toNat_ofNat (by omega), if_pos hn]

theorem read_write (h : n < 128 ^ (k + 1)) (hk : k < l) (rest : List UInt8) :
    read l (write (k + 1) n ++ rest) = some (n, rest) := by
  obtain ⟨l, rfl⟩ : ∃ l', l = l' + 1 := ⟨l - 1, by omega⟩
  by_cases hn : n < 128
  · exact read_write_of_lt hn k rest
  induction k generalizing l n with
  | zero => omega
  | succ k ih =>
    have hdiv : n / 128 < 128 ^ (k + 1) := by
      rw [Nat.pow_succ] at h
      omega
    -- the other digits are read back
    have hrest : read l (write (k + 1) (n / 128) ++ rest) = some (n / 128, rest) := by
      obtain ⟨l, rfl⟩ : ∃ l', l = l' + 1 := ⟨l - 1, by omega⟩
      by_cases hlt : n / 128 < 128
      · exact read_write_of_lt hlt k rest
      · exact ih hdiv l (by omega) hlt
    rw [write, if_neg hn, List.cons_append, read, toNat_ofNat (by omega), if_neg (by omega), hrest]
    simp only [Option.map_some, Option.some.injEq, Prod.mk.injEq, and_true]
    omega

/-- All bytes but the last ask for another one. -/
theorem read_eq_none {bytes : List UInt8} (h : ∀ b ∈ bytes, 128 ≤ b.toNat) (l : ℕ) :
    read l bytes = none := by
  induction bytes generalizing l with
  | nil => exact read_nil l
  | cons b bytes ih =>
    cases l with
    | zero => rfl
    | succ l =>
      have hb : ¬ b.toNat < 128 := Nat.not_lt.mpr (h b List.mem_cons_self)
      rw [read, if_neg hb, ih fun b hb => h b (List.mem_cons_of_mem _ hb)]
      rfl

theorem le_of_mem_take_write {j : ℕ} (hj : j < (write k n).length) {b : UInt8}
    (hb : b ∈ (write k n).take j) : 128 ≤ b.toNat := by
  induction k generalizing n j with
  | zero => exact absurd hj (Nat.not_lt_zero j)
  | succ k ih =>
    cases j with
    | zero => exact absurd hb List.not_mem_nil
    | succ j =>
      by_cases hn : n < 128
      · rw [write, if_pos hn, List.length_singleton] at hj
        omega
      · rw [write, if_neg hn] at hj hb
        obtain rfl | hb := List.mem_cons.mp hb
        · rw [toNat_ofNat (by omega)]
          omega
        · exact ih (Nat.lt_of_succ_lt_succ hj) hb

theorem read_take_write {j : ℕ} (hj : j < (write k n).length) (l : ℕ) :
    read l ((write k n).take j) = none :=
  read_eq_none (fun _ hb => le_of_mem_take_write hj hb) l

theorem length_of_read {bytes rest : List UInt8} (h : read l bytes = some (n, rest)) :
    rest.length < bytes.length := by
  induction l generalizing bytes n with
  | zero => cases h
  | succ l ih =>
    cases bytes with
    | nil => cases h
    | cons b bytes =>
      rw [read] at h
      split at h
      · cases h
        exact Nat.lt_succ_self _
      · obtain ⟨⟨n', rest'⟩, hread, hr⟩ := Option.map_eq_some_iff.mp h
        cases hr
        exact Nat.lt_succ_of_lt (ih hread)

end Sem.Lib.Varint

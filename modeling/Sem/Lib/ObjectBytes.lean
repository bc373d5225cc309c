import Mathlib.Data.List.Basic

/-!
# Object representations

The bytes of values of a fixed size, as `memcpy` moves them.

* `decodeAll_encodeAll`: values copied out and back are the same values.
* `memcpy_eq_some_iff`: a copy is defined when it stays inside both objects.
-/

namespace Sem.Lib

universe u

/-- Values with an object representation of a fixed size. -/
class ObjectBytes (α : Type u) where
  sizeof : ℕ
  encode : α → List UInt8
  decode : List UInt8 → α
  sizeof_pos : 0 < sizeof
  length_encode : ∀ a, (encode a).length = sizeof
  decode_encode : ∀ a, decode (encode a) = a

namespace ObjectBytes

variable {α : Type u} [ObjectBytes α]

/-- The bytes of an array. -/
def encodeAll (as : List α) : List UInt8 := as.flatMap encode

/-- The first `n` values of some bytes. -/
def decodeAll : ℕ → List UInt8 → List α
  | 0, _ => []
  | n + 1, bytes => decode (bytes.take (sizeof α)) :: decodeAll n (bytes.drop (sizeof α))

@[simp] theorem length_encodeAll (as : List α) :
    (encodeAll as).length = as.length * sizeof α := by
  induction as with
  | nil => simp [encodeAll]
  | cons a as ih =>
    rw [encodeAll] at ih
    rw [encodeAll, List.flatMap_cons, List.length_append, length_encode, ih, List.length_cons,
      Nat.succ_mul]
    omega

@[simp] theorem length_decodeAll (n : ℕ) (bytes : List UInt8) :
    (decodeAll n bytes : List α).length = n := by
  induction n generalizing bytes with
  | zero => rfl
  | succ n ih => rw [decodeAll, List.length_cons, ih]

theorem decodeAll_encodeAll (as : List α) : decodeAll as.length (encodeAll as) = as := by
  induction as with
  | nil => rfl
  | cons a as ih =>
    have hbytes : encodeAll (a :: as) = encode a ++ encodeAll as := List.flatMap_cons
    have hlen : sizeof α = (encode a).length := (length_encode a).symm
    rw [List.length_cons, decodeAll, hbytes, hlen, List.take_left, List.drop_left, decode_encode,
      ih]

end ObjectBytes

/-- `memcpy` of `length` bytes to `offset` of an object; undefined outside the two objects. -/
def memcpy (destination : List UInt8) (offset : ℕ) (source : List UInt8) (length : ℕ) :
    Option (List UInt8) :=
  if length ≤ source.length ∧ offset + length ≤ destination.length then
    some (destination.take offset ++ source.take length ++ destination.drop (offset + length))
  else none

section Memcpy

variable {destination source bytes : List UInt8} {offset length : ℕ}

theorem memcpy_eq_some_iff : memcpy destination offset source length = some bytes ↔
    (length ≤ source.length ∧ offset + length ≤ destination.length) ∧
      bytes = destination.take offset ++ source.take length ++
        destination.drop (offset + length) := by
  rw [memcpy]
  by_cases h : length ≤ source.length ∧ offset + length ≤ destination.length
  · rw [if_pos h, Option.some_inj]
    exact ⟨fun heq => ⟨h, heq.symm⟩, fun heq => heq.2.symm⟩
  · rw [if_neg h]
    refine ⟨fun heq => ?_, fun heq => absurd heq.1 h⟩
    cases heq

end Memcpy

theorem uint32_sizeof_pos : 0 < 4 := by decide

/-- Four bytes, the lowest first. -/
instance : ObjectBytes UInt32 where
  sizeof := 4
  encode w := [w.toUInt8, (w >>> 8).toUInt8, (w >>> 16).toUInt8, (w >>> 24).toUInt8]
  decode
    | [a, b, c, d] =>
      UInt32.ofNat (a.toNat + 256 * b.toNat + 65536 * c.toNat + 16777216 * d.toNat)
    | _ => 0
  sizeof_pos := uint32_sizeof_pos
  length_encode _ := rfl
  decode_encode w := by
    have hw := w.toNat_lt
    apply UInt32.toNat_inj.mp
    simp only [UInt32.toNat_ofNat', UInt32.toNat_toUInt8, UInt32.toNat_shiftRight,
      Nat.shiftRight_eq_div_pow]
    have h8 : (8 : UInt32).toNat % 32 = 8 := rfl
    have h16 : (16 : UInt32).toNat % 32 = 16 := rfl
    have h24 : (24 : UInt32).toNat % 32 = 24 := rfl
    simp only [h8, h16, h24]
    omega

end Sem.Lib

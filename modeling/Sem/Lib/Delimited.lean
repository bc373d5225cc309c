import Mathlib.Data.List.Basic
import Mathlib.Logic.Equiv.Defs

/-!
# Delimited records

A stream of records that are written one after the other, each with its own end. `Delimits` says
that a reader stops where the writer did, and that it fails on a record whose end is missing.

* `Delimits.readsAll_take`: from the start of a stream, reading until it fails gives the records
  that are whole.
-/

namespace Sem.Lib

universe u v

variable {α : Type u} {β : Type v}

/-- What `write` puts into a stream for a value with `Valid` is what `read` takes from it. -/
structure Delimits (Valid : α → Prop) (write : α → List β)
    (read : List β → Option (α × List β)) : Prop where
  read_nil : read [] = none
  read_write : ∀ {a}, Valid a → ∀ rest, read (write a ++ rest) = some (a, rest)
  read_take : ∀ {a}, Valid a → ∀ {k}, k < (write a).length → read ((write a).take k) = none

/-- Reading until it fails. -/
inductive ReadsAll (read : List β → Option (α × List β)) : List β → List α → Prop
  | stop {bytes} : read bytes = none → ReadsAll read bytes []
  | next {bytes a rest as} : read bytes = some (a, rest) → ReadsAll read rest as →
      ReadsAll read bytes (a :: as)

variable {Valid : α → Prop} {write : α → List β} {read : List β → Option (α × List β)}

theorem ReadsAll.unique {bytes : List β} {as as' : List α} (h : ReadsAll read bytes as)
    (h' : ReadsAll read bytes as') : as = as' := by
  induction h generalizing as' with
  | stop hnone =>
    cases h' with
    | stop => rfl
    | next hsome => rw [hnone] at hsome; cases hsome
  | next hsome _ ih =>
    cases h' with
    | stop hnone => rw [hsome] at hnone; cases hnone
    | next hsome' hrest =>
      rw [hsome] at hsome'
      cases hsome'
      exact congrArg _ (ih hrest)

namespace Delimits

variable (h : Delimits Valid write read)

include h

/-- A record of a stream that is cut off. -/
theorem read_take_append {a : α} (ha : Valid a) (rest : List β) (k : ℕ) :
    read ((write a ++ rest).take k) =
      if (write a).length ≤ k then some (a, rest.take (k - (write a).length)) else none := by
  split
  · next hle => rw [List.take_append, List.take_of_length_le hle, h.read_write ha]
  · next hlt =>
    have hzero : k - (write a).length = 0 := by omega
    rw [List.take_append, hzero, List.take_zero, List.append_nil, h.read_take ha (by omega)]

/-- Of the first `k` bytes the records are read that end there: the first `n`. -/
theorem readsAll_take {as : List α} (has : ∀ a ∈ as, Valid a) (k : ℕ) :
    ∃ n ≤ as.length, ReadsAll read ((as.flatMap write).take k) (as.take n) ∧
      ((as.take n).flatMap write).length ≤ k ∧
      (n < as.length → k < ((as.take (n + 1)).flatMap write).length) := by
  induction as generalizing k with
  | nil =>
    refine ⟨0, Nat.le_refl 0, ?_, Nat.zero_le k, fun hlt => absurd hlt (Nat.lt_irrefl 0)⟩
    rw [List.flatMap_nil, List.take_nil]
    exact .stop h.read_nil
  | cons a as ih =>
    have ha := h.read_take_append (has a List.mem_cons_self) (as.flatMap write) k
    by_cases hle : (write a).length ≤ k
    · obtain ⟨n, hn, hreads, hwhole, hnext⟩ :=
        ih (fun a ha => has a (List.mem_cons_of_mem _ ha)) (k - (write a).length)
      rw [if_pos hle] at ha
      refine ⟨n + 1, Nat.succ_le_succ hn, ?_, ?_, fun hlt => ?_⟩
      · rw [List.flatMap_cons]
        exact .next ha hreads
      · rw [List.take_succ_cons, List.flatMap_cons, List.length_append]
        omega
      · have := hnext (Nat.lt_of_succ_lt_succ hlt)
        rw [List.take_succ_cons, List.flatMap_cons, List.length_append]
        omega
    · rw [if_neg hle] at ha
      refine ⟨0, Nat.zero_le _, ?_, Nat.zero_le k, fun _ => ?_⟩
      · rw [List.flatMap_cons]
        exact .stop ha
      · simpa using hle

end Delimits

/-- One record after another is a record. -/
theorem Delimits.bind {γ : Type u} {Valid' : γ → Prop} {write' : γ → List β}
    {read' : List β → Option (γ × List β)} (h : Delimits Valid write read)
    (h' : Delimits Valid' write' read') :
    Delimits (fun ac : α × γ => Valid ac.1 ∧ Valid' ac.2) (fun ac => write ac.1 ++ write' ac.2)
      (fun bytes => (read bytes).bind fun r => (read' r.2).map fun r' => ((r.1, r'.1), r'.2)) where
  read_nil := by rw [h.read_nil]; rfl
  read_write := by
    rintro ⟨a, c⟩ ⟨ha, hc⟩ rest
    rw [List.append_assoc, h.read_write ha, Option.bind_some, h'.read_write hc, Option.map_some]
  read_take := by
    rintro ⟨a, c⟩ ⟨ha, hc⟩ k hk
    rw [List.length_append] at hk
    rw [h.read_take_append ha]
    split
    · rw [Option.bind_some, h'.read_take hc (by omega), Option.map_none]
    · rfl

/-- The same stream, of which the reader sees no more than its first `n` elements. -/
theorem Delimits.limit (h : Delimits Valid write read) (n : ℕ) :
    Delimits (fun a => Valid a ∧ (write a).length ≤ n) write
      (fun bytes => (read (bytes.take n)).map fun r => (r.1, r.2 ++ bytes.drop n)) where
  read_nil := by rw [List.take_nil, h.read_nil]; rfl
  read_write := by
    rintro a ⟨ha, hle⟩ rest
    rw [h.read_take_append ha, if_pos hle, Option.map_some, List.drop_append,
      List.drop_of_length_le hle, List.nil_append, List.take_append_drop]
  read_take := by
    rintro a ⟨ha, hle⟩ k hk
    rw [List.take_take, Nat.min_eq_right (by omega), h.read_take ha hk, Option.map_none]

/-- The same records under other names. -/
theorem Delimits.imap {γ : Type u} {Valid' : γ → Prop} (h : Delimits Valid write read)
    (e : γ ≃ α) (hvalid : ∀ {c}, Valid' c → Valid (e c)) :
    Delimits Valid' (fun c => write (e c))
      (fun bytes => (read bytes).map fun r => (e.symm r.1, r.2)) where
  read_nil := by rw [h.read_nil]; rfl
  read_write hc rest := by
    rw [h.read_write (hvalid hc), Option.map_some, Equiv.symm_apply_apply]
  read_take hc _ hk := by
    rw [h.read_take (hvalid hc) hk, Option.map_none]

end Sem.Lib

import Mathlib.Data.List.Sort
import Mathlib.Data.List.TakeWhile
import Mathlib.Order.Defs.LinearOrder

/-!
# Searches in sorted lists

`std::lower_bound` needs a list in which the elements with a property come first. `lowerBound` is
the number of these elements in such a list, and is not defined on other lists.

* `pairwise_le_iff_partitioned`: every search by a key is defined exactly if the list is sorted.
* `Partitioned.takeWhile_eq_filter`, `Partitioned.dropWhile_eq_filter`: the parts before and behind
  the place that is found.
* `drop_take_eq_filter`: the part of a sorted list between two keys.
-/

namespace Sem.Lib

universe u v

variable {α : Type u} {p q : α → Bool} {l : List α}

/-- The elements with the property come first. -/
def Partitioned (p : α → Bool) (l : List α) : Prop := l.Pairwise fun a b => p b = true → p a = true

instance (p : α → Bool) (l : List α) : Decidable (Partitioned p l) :=
  inferInstanceAs (Decidable (l.Pairwise _))

/-- The place of the first element without the property. -/
def lowerBound (p : α → Bool) (l : List α) : Option ℕ :=
  if Partitioned p l then some (l.takeWhile p).length else none

theorem lowerBound_of_partitioned (h : Partitioned p l) :
    lowerBound p l = some (l.takeWhile p).length := if_pos h

theorem partitioned_of_lowerBound {i : ℕ} (h : lowerBound p l = some i) : Partitioned p l := by
  by_contra hnot
  rw [lowerBound, if_neg hnot] at h
  cases h

theorem drop_length_takeWhile : l.drop (l.takeWhile p).length = l.dropWhile p := by
  induction l with
  | nil => rfl
  | cons a l ih => by_cases ha : p a = true <;> simp [ha, ih]

theorem take_length_takeWhile : l.take (l.takeWhile p).length = l.takeWhile p := by
  induction l with
  | nil => rfl
  | cons a l ih => by_cases ha : p a = true <;> simp [ha, ih]

/-- Going on from the first place with a property that holds before it. -/
theorem length_takeWhile_add (h : ∀ a, p a = true → q a = true) :
    (l.takeWhile p).length + ((l.drop (l.takeWhile p).length).takeWhile q).length =
      (l.takeWhile q).length := by
  induction l with
  | nil => rfl
  | cons a l ih =>
    by_cases ha : p a = true
    · have := ih
      simp [ha, h a ha]
      omega
    · simp [ha]

/-- Going on from a place with the property before it. -/
theorem length_takeWhile_drop {i : ℕ} (h : i ≤ (l.takeWhile p).length) :
    ((l.drop i).takeWhile p).length = (l.takeWhile p).length - i := by
  induction i generalizing l with
  | zero => rfl
  | succ i ih =>
    cases l with
    | nil => simp
    | cons a l =>
      by_cases ha : p a = true
      · rw [List.takeWhile_cons_of_pos ha, List.length_cons] at h ⊢
        rw [List.drop_succ_cons, ih (by omega)]
        omega
      · rw [List.takeWhile_cons_of_neg ha] at h
        simp at h

namespace Partitioned

theorem filter_of_head {a : α} (h : Partitioned p (a :: l)) (ha : p a = false) :
    l.filter p = [] := by
  rw [List.filter_eq_nil_iff]
  intro b hb hpb
  rw [(List.pairwise_cons.mp h).1 b hb hpb] at ha
  cases ha

theorem takeWhile_eq_filter (h : Partitioned p l) : l.takeWhile p = l.filter p := by
  induction l with
  | nil => rfl
  | cons a l ih =>
    by_cases ha : p a = true
    · rw [List.takeWhile_cons_of_pos ha, List.filter_cons_of_pos ha,
        ih (List.pairwise_cons.mp h).2]
    · rw [List.takeWhile_cons_of_neg ha, List.filter_cons_of_neg ha,
        h.filter_of_head (by simpa using ha)]

theorem dropWhile_eq_filter (h : Partitioned p l) : l.dropWhile p = l.filter fun a => !p a := by
  induction l with
  | nil => rfl
  | cons a l ih =>
    by_cases ha : p a = true
    · rw [List.dropWhile_cons_of_pos ha, List.filter_cons_of_neg (by simp [ha]),
        ih (List.pairwise_cons.mp h).2]
    · have hnone := h.filter_of_head (by simpa using ha)
      rw [List.dropWhile_cons_of_neg ha, List.filter_cons_of_pos (by simpa using ha)]
      congr 1
      refine (List.filter_eq_self.mpr fun b hb => ?_).symm
      simpa using List.filter_eq_nil_iff.mp hnone b hb

end Partitioned

section Keys

variable {κ : Type v} [LinearOrder κ] {f : α → κ}

theorem partitioned_lt (h : l.Pairwise fun a b => f a ≤ f b) (t : κ) :
    Partitioned (fun a => f a < t) l :=
  h.imp fun hab hb => by simpa using lt_of_le_of_lt hab (by simpa using hb)

theorem partitioned_le (h : l.Pairwise fun a b => f a ≤ f b) (t : κ) :
    Partitioned (fun a => f a ≤ t) l :=
  h.imp fun hab hb => by simpa using le_trans hab (by simpa using hb)

/-- **Every search by a key is defined exactly if the list is sorted by it.** -/
theorem pairwise_le_iff_partitioned :
    (l.Pairwise fun a b => f a ≤ f b) ↔ ∀ t, Partitioned (fun a => f a < t) l := by
  refine ⟨partitioned_lt, fun h => ?_⟩
  rw [List.pairwise_iff_getElem]
  intro i j hi hj hij
  by_contra hlt
  have hpart := List.pairwise_iff_getElem.mp (h (f l[i])) i j hi hj hij
  simp only [decide_eq_true_eq] at hpart
  exact lt_irrefl _ (hpart (not_le.mp hlt))

/-- What is between the first key from `a` on and the first one behind `b`. -/
theorem drop_take_eq_filter (h : l.Pairwise fun x y => f x ≤ f y) {a b : κ} (hab : a ≤ b) :
    (l.take (l.takeWhile fun x => f x ≤ b).length).drop (l.takeWhile fun x => f x < a).length =
      l.filter fun x => a ≤ f x ∧ f x ≤ b := by
  have htake : l.take (l.takeWhile fun x => f x ≤ b).length = l.filter fun x => f x ≤ b := by
    rw [take_length_takeWhile, (partitioned_le h b).takeWhile_eq_filter]
  have hsorted : (l.filter fun x => f x ≤ b).Pairwise fun x y => f x ≤ f y := h.filter _
  have hlength : (l.takeWhile fun x => f x < a).length =
      ((l.filter fun x => f x ≤ b).takeWhile fun x => f x < a).length := by
    rw [(partitioned_lt h a).takeWhile_eq_filter, (partitioned_lt hsorted a).takeWhile_eq_filter,
      List.filter_filter]
    congr 1
    refine List.filter_congr fun x _ => ?_
    grind
  rw [htake, hlength, drop_length_takeWhile, (partitioned_lt hsorted a).dropWhile_eq_filter,
    List.filter_filter]
  refine List.filter_congr fun x _ => ?_
  grind

end Keys

end Sem.Lib

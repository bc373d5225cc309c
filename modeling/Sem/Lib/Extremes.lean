import Mathlib.Data.Set.Image
import Mathlib.Order.Bounds.Basic

/-!
# Extremes that start at a sentinel

The least or the greatest value of a function on a set is kept in a variable that is a sentinel
while the set is empty: it is the extreme of the values with the sentinel among them.

* `isLeast_image_insert`, `isGreatest_image_update`: one more element, and a value that grows.
* `isLeast_of_insert`, `isGreatest_of_insert`: the sentinel is none of the extremes of a set that is
  not empty.
-/

namespace Sem.Lib

universe u v

variable {ι : Type u} {α : Type v} [LinearOrder α] {S : Set ι} {s : Set α} {f : ι → α} {i : ι}
  {sentinel m x : α}

theorem isLeast_image_insert (h : IsLeast (insert sentinel (f '' S)) m) :
    IsLeast (insert sentinel (f '' insert i S)) (min (f i) m) := by
  rw [Set.image_insert_eq, Set.insert_comm]
  exact h.insert (f i)

/-- The value of an element, old or new, becomes one that is not less. -/
theorem isGreatest_image_update [DecidableEq ι] (h : IsGreatest (insert sentinel (f '' S)) m)
    (hx : i ∈ S → f i ≤ x) :
    IsGreatest (insert sentinel (Function.update f i x '' insert i S)) (max x m) := by
  constructor
  · rcases le_or_gt m x with hle | hlt
    · rw [max_eq_left hle]
      exact .inr ⟨i, Set.mem_insert i S, Function.update_self i x f⟩
    · rw [max_eq_right hlt.le]
      rcases h.1 with rfl | ⟨j, hj, rfl⟩
      · exact .inl rfl
      · have hne : j ≠ i := by
          rintro rfl
          exact absurd (hx hj) (not_le.mpr hlt)
        exact .inr ⟨j, .inr hj, Function.update_of_ne hne x f⟩
  · rintro y (rfl | ⟨j, hj, rfl⟩)
    · exact (h.2 (.inl rfl)).trans (le_max_right x m)
    · rcases eq_or_ne j i with rfl | hne
      · rw [Function.update_self]
        exact le_max_left x m
      · rw [Function.update_of_ne hne]
        exact (h.2 (.inr ⟨j, hj.resolve_left hne, rfl⟩)).trans (le_max_right x m)

theorem isLeast_of_insert (h : IsLeast (insert sentinel s) m) (hne : s.Nonempty)
    (hle : ∀ y ∈ s, y ≤ sentinel) : IsLeast s m := by
  refine ⟨?_, fun y hy => h.2 (.inr hy)⟩
  rcases h.1 with rfl | hm
  · obtain ⟨y, hy⟩ := hne
    rwa [le_antisymm (h.2 (.inr hy)) (hle y hy)]
  · exact hm

theorem isGreatest_of_insert (h : IsGreatest (insert sentinel s) m) (hne : s.Nonempty)
    (hle : ∀ y ∈ s, sentinel ≤ y) : IsGreatest s m := by
  refine ⟨?_, fun y hy => h.2 (.inr hy)⟩
  rcases h.1 with rfl | hm
  · obtain ⟨y, hy⟩ := hne
    rwa [le_antisymm (hle y hy) (h.2 (.inr hy))]
  · exact hm

end Sem.Lib

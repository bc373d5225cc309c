import Mathlib.Data.List.Sort

/-!
# Ordered sets

A `std::set` as the list that an iteration over it sees.
-/

namespace Sem

universe u

/-- A set that is iterated in the order of its elements. -/
abbrev OrderedSet (α : Type u) := List α

namespace OrderedSet

variable {α : Type u} [LE α] [DecidableLE α] [DecidableEq α]

/-- `insert`: no effect when the element is there. -/
def insert (set : OrderedSet α) (a : α) : OrderedSet α :=
  if a ∈ set then set else List.orderedInsert (· ≤ ·) a set

/-- `erase`: no effect when the element is not there. -/
def erase (set : OrderedSet α) (a : α) : OrderedSet α :=
  List.filter (fun b => decide (b ≠ a)) set

/-- A new element. -/
theorem insert_perm {set : OrderedSet α} {a : α} (h : a ∉ set) : (set.insert a).Perm (a :: set) := by
  unfold insert
  rw [if_neg h]
  exact List.perm_orderedInsert _ a set

theorem pairwise_insert [Std.Total (α := α) (· ≤ ·)] [IsTrans α (· ≤ ·)] {set : OrderedSet α}
    (h : set.Pairwise (· ≤ ·)) (a : α) : (set.insert a).Pairwise (· ≤ ·) := by
  unfold insert
  split
  · exact h
  · exact h.orderedInsert a set

omit [LE α] [DecidableLE α] in
theorem perm_cons_erase {set : OrderedSet α} {a : α} (hnodup : set.Nodup) (h : a ∈ set) :
    set.Perm (a :: set.erase a) := by
  have heq : set.erase a = List.erase set a := by
    rw [hnodup.erase_eq_filter]
    refine List.filter_congr fun b _ => ?_
    by_cases hb : b = a <;> simp [hb]
  rw [heq]
  exact List.perm_cons_erase h

omit [DecidableLE α] in
theorem pairwise_erase {set : OrderedSet α} (h : set.Pairwise (· ≤ ·)) (a : α) :
    (set.erase a).Pairwise (· ≤ ·) :=
  h.filter _

end OrderedSet

end Sem

import Mathlib.Data.List.Basic

/-!
# Groups by a numeric key

Elements are put at the end of the group that their key names; a key behind the last group drops
the element.

* `getElem?_foldl_putInGroup`: what each group holds.
* `flatten_foldl_putInGroup`: the groups of a list that is sorted by the key, one behind the other,
  are the elements that have a group, in their order.
-/

namespace Sem.Lib

universe u

variable {α : Type u}

/-- Puts an element at the end of a group. -/
def putInGroup (key : α → ℕ) (groups : List (List α)) (a : α) : List (List α) :=
  groups.modify (key a) (· ++ [a])

variable {key : α → ℕ} {groups : List (List α)} {l : List α}

@[simp] theorem length_putInGroup (a : α) : (putInGroup key groups a).length = groups.length :=
  List.length_modify _ _ _

theorem getElem?_putInGroup (a : α) (i : ℕ) :
    (putInGroup key groups a)[i]? = groups[i]?.map (· ++ [a].filter fun b => key b = i) := by
  rw [putInGroup, List.getElem?_modify]
  by_cases h : key a = i
  · simp [h]
  · simp [h]

theorem getElem?_foldl_putInGroup (i : ℕ) :
    (l.foldl (putInGroup key) groups)[i]? = groups[i]?.map (· ++ l.filter fun b => key b = i) := by
  induction l generalizing groups with
  | nil => simp
  | cons a l ih =>
    rw [List.foldl_cons, ih, getElem?_putInGroup, Option.map_map]
    congr 1
    funext group
    rw [Function.comp_apply, List.append_assoc, ← List.filter_append, List.singleton_append]

/-- From empty groups. -/
theorem foldl_putInGroup_replicate (n : ℕ) : l.foldl (putInGroup key) (List.replicate n []) =
    (List.range n).map fun i => l.filter fun b => key b = i := by
  refine List.ext_getElem? fun i => ?_
  rw [getElem?_foldl_putInGroup, List.getElem?_replicate, List.getElem?_map]
  by_cases h : i < n
  · simp [h]
  · rw [if_neg h, List.getElem?_eq_none (by simpa using h)]
    rfl

section Sorted

/-- The elements with the keys before `n + 1` are those with the keys before `n` and then those
with the key `n`. -/
theorem filter_lt_succ (h : l.Pairwise fun a b => key a ≤ key b) (n : ℕ) :
    (l.filter fun a => key a < n + 1) =
      (l.filter fun a => key a < n) ++ l.filter fun a => key a = n := by
  induction l with
  | nil => rfl
  | cons a l ih =>
    obtain ⟨ha, hl⟩ := List.pairwise_cons.mp h
    by_cases hlt : key a < n
    · have hsucc : key a < n + 1 := Nat.lt_succ_of_lt hlt
      have hne : ¬ key a = n := Nat.ne_of_lt hlt
      have hfirst : (a :: l).filter (fun b => key b < n + 1) =
          a :: l.filter fun b => key b < n + 1 := List.filter_cons_of_pos (by simpa using hsucc)
      have hbefore : (a :: l).filter (fun b => key b < n) = a :: l.filter fun b => key b < n :=
        List.filter_cons_of_pos (by simpa using hlt)
      have hat : (a :: l).filter (fun b => key b = n) = l.filter fun b => key b = n :=
        List.filter_cons_of_neg (by simpa using hne)
      rw [hfirst, hbefore, hat, ih hl, List.cons_append]
    · have hnone : (a :: l).filter (fun a => key a < n) = [] := by
        rw [List.filter_eq_nil_iff]
        intro b hb
        rcases List.mem_cons.mp hb with rfl | hb
        · simpa using hlt
        · have := ha b hb
          simp
          omega
      rw [hnone, List.nil_append]
      refine List.filter_congr fun b hb => ?_
      have : n ≤ key b := by
        rcases List.mem_cons.mp hb with rfl | hb
        · omega
        · have := ha b hb
          omega
      have hiff : key b < n + 1 ↔ key b = n := by omega
      simp [hiff]

/-- **The groups of a sorted list**, one behind the other. -/
theorem flatten_foldl_putInGroup (h : l.Pairwise fun a b => key a ≤ key b) (n : ℕ) :
    (l.foldl (putInGroup key) (List.replicate n [])).flatten = l.filter fun a => key a < n := by
  rw [foldl_putInGroup_replicate]
  induction n with
  | zero => simp
  | succ n ih =>
    rw [List.range_succ, List.map_append, List.flatten_append, ih, filter_lt_succ h]
    simp

end Sorted

end Sem.Lib

import Mathlib.Data.List.Nodup

/-!
# Items put where the load is least

Items come one after the other, and each is put at a place whose load is least when it comes. An
item adds one to the load of its place.

* `Greedy`: the sequences that such choices give.
* `Greedy.load_le`: a place that got an item is at most one above any other place.
-/

namespace Sem

universe u v

variable {ι : Type u} {α : Type v}

/-- Of different items each is at one place. -/
theorem existsUnique_place {placed : List (ι × α)} (hnodup : (placed.map Prod.snd).Nodup) {a : α}
    (ha : a ∈ placed.map Prod.snd) : ∃! i, (i, a) ∈ placed := by
  obtain ⟨⟨i, b⟩, hmem, rfl⟩ := List.mem_map.mp ha
  refine ⟨i, hmem, fun j hj => ?_⟩
  exact congrArg Prod.fst (List.inj_on_of_nodup_map hnodup hj hmem rfl)

variable [DecidableEq ι]

/-- The items at a place. -/
def itemsAt (placed : List (ι × α)) (i : ι) : List α :=
  (placed.filter fun p => p.1 = i).map Prod.snd

@[simp] theorem itemsAt_nil (i : ι) : itemsAt ([] : List (ι × α)) i = [] := rfl

theorem itemsAt_concat (placed : List (ι × α)) (i j : ι) (a : α) :
    itemsAt (placed ++ [(i, a)]) j = itemsAt placed j ++ if i = j then [a] else [] := by
  unfold itemsAt
  rw [List.filter_append, List.map_append]
  congr 1
  by_cases h : i = j <;> simp [h]

theorem itemsAt_concat_self (placed : List (ι × α)) (i : ι) (a : α) :
    itemsAt (placed ++ [(i, a)]) i = itemsAt placed i ++ [a] := by
  rw [itemsAt_concat, if_pos rfl]

theorem itemsAt_concat_of_ne (placed : List (ι × α)) {i j : ι} (h : j ≠ i) (a : α) :
    itemsAt (placed ++ [(i, a)]) j = itemsAt placed j := by
  rw [itemsAt_concat, if_neg (Ne.symm h), List.append_nil]

theorem mem_itemsAt {placed : List (ι × α)} {i : ι} {a : α} :
    a ∈ itemsAt placed i ↔ (i, a) ∈ placed := by
  unfold itemsAt
  constructor
  · intro h
    obtain ⟨⟨j, b⟩, hfilter, rfl⟩ := List.mem_map.mp h
    obtain ⟨hmem, hj⟩ := List.mem_filter.mp hfilter
    exact of_decide_eq_true hj ▸ hmem
  · intro h
    exact List.mem_map.mpr ⟨(i, a), List.mem_filter.mpr ⟨h, decide_eq_true rfl⟩, rfl⟩

/-- The load of a place. -/
def loadOf (load : ι → ℕ) (placed : List (ι × α)) (i : ι) : ℕ :=
  load i + (itemsAt placed i).length

/-- Each item was put at a place of least load. -/
inductive Greedy (places : ι → Prop) (load : ι → ℕ) : List (ι × α) → Prop
  | nil : Greedy places load []
  | put {placed : List (ι × α)} (i : ι) (a : α) : Greedy places load placed → places i →
      (∀ j, places j → loadOf load placed i ≤ loadOf load placed j) →
      Greedy places load (placed ++ [(i, a)])

theorem Greedy.places {places : ι → Prop} {load : ι → ℕ} {placed : List (ι × α)}
    (h : Greedy places load placed) {i : ι} {a : α} (ha : (i, a) ∈ placed) : places i := by
  induction h with
  | nil => exact absurd ha List.not_mem_nil
  | put i' a' _ hi' _ ih =>
    obtain hold | hnew := List.mem_append.mp ha
    · exact ih hold
    · obtain ⟨rfl, rfl⟩ := Prod.mk.inj (List.mem_singleton.mp hnew)
      exact hi'

theorem Greedy.load_le {places : ι → Prop} {load : ι → ℕ} {placed : List (ι × α)}
    (h : Greedy places load placed) {i : ι} {a : α} (ha : (i, a) ∈ placed) {j : ι}
    (hj : places j) : loadOf load placed i ≤ loadOf load placed j + 1 := by
  induction h generalizing a with
  | nil => exact absurd ha List.not_mem_nil
  | @put placed i' a' h _ hleast ih =>
    have hgrows : loadOf load placed j ≤ loadOf load (placed ++ [(i', a')]) j := by
      simp [loadOf, itemsAt_concat]
    by_cases heq : i = i'
    · -- the place that got this item had the least load
      subst heq
      have hload : loadOf load (placed ++ [(i, a')]) i = loadOf load placed i + 1 := by
        simp [loadOf, itemsAt_concat_self, Nat.add_assoc]
      have := hleast j hj
      omega
    · have hload : loadOf load (placed ++ [(i', a')]) i = loadOf load placed i := by
        rw [loadOf, itemsAt_concat_of_ne placed heq, loadOf]
      have hold : (i, a) ∈ placed := by
        obtain hold | hnew := List.mem_append.mp ha
        · exact hold
        · exact absurd (congrArg Prod.fst (List.mem_singleton.mp hnew)) heq
      have := ih hold
      omega

end Sem

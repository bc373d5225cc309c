import Mathlib.Data.List.Basic
import Mathlib.Data.List.Nodup

/-!
# Putting an element into a sorted list

A list that is sorted by a preorder keeps its order when an element is inserted anywhere and the
result is sorted again by a stable sort: only the new element moves, to a place among its equals
that is as near as can be to where it was inserted.

* `Placed`: where the element ends up.
* `placed_mergeSort`: the stable sort puts it there.
* `Placed.unique`: there is only one such place.
-/

namespace Sem

universe u

variable {α : Type u} {le : α → α → Bool} {others l l' : List α} {c : α} {r : ℕ}

/-- `l` is the list `others` with `c` put in where the order allows it; the elements equal to `c`
that come before it are those before the position `r`. -/
def Placed (le : α → α → Bool) (others : List α) (c : α) (r : ℕ) (l : List α) : Prop :=
  ∃ before after, others = before ++ after ∧ l = before ++ c :: after ∧
    (∀ p ∈ before, le p c) ∧ (∀ p ∈ after, le c p) ∧
    ∀ i p, others[i]? = some p → le p c → le c p → (i < before.length ↔ i < r)

namespace Placed

theorem perm (h : Placed le others c r l) : l.Perm (c :: others) := by
  obtain ⟨before, after, rfl, rfl, -⟩ := h
  exact List.perm_middle

theorem pairwise (h : Placed le others c r l) (hsorted : others.Pairwise fun a b => le a b) :
    l.Pairwise fun a b => le a b := by
  obtain ⟨before, after, rfl, rfl, hbefore, hafter, -⟩ := h
  obtain ⟨h₁, h₂, h₁₂⟩ := List.pairwise_append.mp hsorted
  refine List.pairwise_append.mpr ⟨h₁, List.pairwise_cons.mpr ⟨hafter, h₂⟩, fun a ha b hb => ?_⟩
  rcases List.mem_cons.mp hb with rfl | hb
  · exact hbefore a ha
  · exact h₁₂ a ha b hb

theorem unique (h : Placed le others c r l) (h' : Placed le others c r l') : l = l' := by
  have hle : ∀ {before after before' after' : List α}, before ++ after = before' ++ after' →
      (∀ p ∈ after, le c p) → (∀ p ∈ before', le p c) →
      (∀ i p, (before ++ after)[i]? = some p → le p c → le c p →
        (i < before.length ↔ i < r)) →
      (∀ i p, (before ++ after)[i]? = some p → le p c → le c p →
        (i < before'.length ↔ i < r)) → before'.length ≤ before.length := by
    intro before after before' after' heq hafter hbefore hr hr'
    by_contra hlt
    rw [Nat.not_le] at hlt
    have hlength := congrArg List.length heq
    rw [List.length_append, List.length_append] at hlength
    obtain ⟨p, hp⟩ : ∃ p, (before ++ after)[before.length]? = some p :=
      ⟨_, List.getElem?_eq_getElem (by rw [List.length_append]; omega)⟩
    have hmem : p ∈ after := by
      rw [List.getElem?_append_right (Nat.le_refl _), Nat.sub_self] at hp
      exact List.mem_of_getElem? hp
    have hmem' : p ∈ before' := by
      rw [heq, List.getElem?_append_left hlt] at hp
      exact List.mem_of_getElem? hp
    have h1 := hr _ p hp (hbefore p hmem') (hafter p hmem)
    have h2 := hr' _ p hp (hbefore p hmem') (hafter p hmem)
    omega
  obtain ⟨before, after, rfl, rfl, hbefore, hafter, hr⟩ := h
  obtain ⟨before', after', heq, rfl, hbefore', hafter', hr'⟩ := h'
  have hlength : before.length = before'.length :=
    Nat.le_antisymm (hle heq.symm hafter' hbefore (heq ▸ hr') (heq ▸ hr))
      (hle heq hafter hbefore' hr hr')
  obtain ⟨rfl, rfl⟩ := List.append_inj heq hlength
  rfl

/-- The last place is the place `r` if no equal element is at `r` or behind it. -/
theorem iff_of_last {n : ℕ} (hc : c ∉ others) (hn : others.length ≤ n)
    (h : Placed le others c n l) :
    Placed le others c r l ↔ ∀ i p, others[i]? = some p → le p c → le c p → i < r := by
  have hlt : ∀ {i p}, others[i]? = some p → i < n := fun hp =>
    Nat.lt_of_lt_of_le (List.getElem?_eq_some_iff.mp hp).1 hn
  constructor
  · intro h' i p hp hpc hcp
    obtain ⟨before, after, rfl, rfl, -, -, hr⟩ := h'
    obtain ⟨before', after', heq, heq', -, -, hn⟩ := h
    rw [heq, List.mem_append, not_or] at hc
    obtain ⟨rfl, -⟩ := (List.append_cons_inj_of_notMem hc.1 hc.2).mp heq'.symm
    exact (hr i p hp hpc hcp).mp ((hn i p hp hpc hcp).mpr (hlt hp))
  · intro hr
    obtain ⟨before, after, rfl, rfl, hbefore, hafter, hn⟩ := h
    refine ⟨before, after, rfl, rfl, hbefore, hafter, fun i p hp hpc hcp => ?_⟩
    rw [hn i p hp hpc hcp]
    exact iff_of_true (hlt hp) (hr i p hp hpc hcp)

end Placed

/-- In a list without duplicates, what comes before `c` is before it. -/
theorem mem_of_pair_sublist {before after : List α} {p : α} (hne : p ≠ c)
    (hnodup : (before ++ c :: after).Nodup) (h : [p, c].Sublist (before ++ c :: after)) :
    p ∈ before := by
  have hc := List.nodup_middle.mp hnodup
  rw [List.nodup_cons, List.mem_append, not_or] at hc
  obtain ⟨l₁, l₂, heq, h₁, h₂⟩ := List.sublist_append_iff.mp h
  match l₁, heq with
  | [], heq =>
    rw [List.nil_append] at heq
    rw [← heq] at h₂
    rcases List.sublist_cons_iff.mp h₂ with h₂ | ⟨t, ht, -⟩
    · exact absurd (h₂.subset (by simp)) hc.1.2
    · exact absurd (List.cons.inj ht).1 hne
  | [q], heq =>
    obtain ⟨rfl, -⟩ := List.cons.inj heq
    exact h₁.subset List.mem_cons_self
  | q :: q' :: l₁, heq =>
    obtain ⟨rfl, -⟩ := List.cons.inj heq
    exact h₁.subset List.mem_cons_self

theorem mem_of_sublist_pair {before after : List α} {p : α}
    (hnodup : (before ++ c :: after).Nodup) (h : [c, p].Sublist (before ++ c :: after)) :
    p ∈ after := by
  have hc := List.nodup_middle.mp hnodup
  rw [List.nodup_cons, List.mem_append, not_or] at hc
  obtain ⟨l₁, l₂, heq, h₁, h₂⟩ := List.sublist_append_iff.mp h
  match l₁, heq with
  | [], heq =>
    rw [List.nil_append] at heq
    rw [← heq] at h₂
    exact (List.cons_sublist_cons.mp h₂).subset List.mem_cons_self
  | q :: l₁, heq =>
    obtain ⟨rfl, -⟩ := List.cons.inj heq
    exact absurd (h₁.subset List.mem_cons_self) hc.1.1

theorem placed_mergeSort (htrans : ∀ a b c : α, le a b → le b c → le a c)
    (htotal : ∀ a b : α, le a b || le b a) (hsorted : others.Pairwise fun a b => le a b)
    (hnodup : (c :: others).Nodup) :
    Placed le others c r ((others.take r ++ c :: others.drop r).mergeSort le) := by
  classical
  obtain ⟨hc, hothers⟩ := List.nodup_cons.mp hnodup
  have hperm : ((others.take r ++ c :: others.drop r).mergeSort le).Perm (c :: others) :=
    (List.mergeSort_perm _ _).trans
      (List.perm_middle.trans (List.Perm.of_eq (by rw [List.take_append_drop])))
  have hsub : others.Sublist ((others.take r ++ c :: others.drop r).mergeSort le) := by
    refine List.sublist_mergeSort htrans htotal hsorted ?_
    conv_lhs => rw [← List.take_append_drop r others]
    exact (List.Sublist.refl _).append (List.sublist_cons_self _ _)
  have hpair : ∀ x y, le x y → [x, y].Sublist (others.take r ++ c :: others.drop r) →
      [x, y].Sublist ((others.take r ++ c :: others.drop r).mergeSort le) :=
    fun x y hxy h => List.pair_sublist_mergeSort htrans htotal hxy h
  have hpairwise := List.pairwise_mergeSort htrans htotal (others.take r ++ c :: others.drop r)
  obtain ⟨before, after, heq⟩ := List.append_of_mem (hperm.mem_iff.mpr List.mem_cons_self)
  rw [heq] at hperm hsub hpair hpairwise
  have hnodup' := hperm.nodup_iff.mpr hnodup
  have hnotMem := List.nodup_middle.mp hnodup'
  rw [List.nodup_cons, List.mem_append, not_or] at hnotMem
  -- without `c` both lists are the same
  have hsame : others = before ++ after := by
    have herase := hsub.erase c
    rw [List.erase_of_not_mem hc, List.erase_append_right _ hnotMem.1.1, List.erase_cons_head]
      at herase
    refine herase.eq_of_length ?_
    have hlength := hperm.length_eq
    simp only [List.length_append, List.length_cons] at hlength ⊢
    omega
  obtain ⟨hbefore, hafter, hacross⟩ := List.pairwise_append.mp hpairwise
  refine ⟨before, after, hsame, heq, fun p hp => hacross p hp c List.mem_cons_self,
    (List.pairwise_cons.mp hafter).1, fun i p hp hpc hcp => ?_⟩
  have hpne : p ≠ c := by
    rintro rfl
    exact hc (List.mem_of_getElem? hp)
  by_cases hi : i < r
  · -- `p` comes before `c` in both
    have hmem : p ∈ before := by
      refine mem_of_pair_sublist hpne hnodup' (hpair p c hpc ?_)
      have htake : p ∈ others.take r :=
        List.mem_of_getElem? (by rw [List.getElem?_take, if_pos hi, hp])
      exact (List.singleton_sublist.mpr htake).append
        (List.singleton_sublist.mpr List.mem_cons_self)
    refine iff_of_true ?_ hi
    by_contra hge
    rw [hsame, List.getElem?_append_right (by omega)] at hp
    rw [hsame] at hothers
    exact List.disjoint_of_nodup_append hothers hmem (List.mem_of_getElem? hp)
  · have hmem : p ∈ after := by
      refine mem_of_sublist_pair hnodup' (hpair c p hcp ?_)
      have hdrop : p ∈ others.drop r :=
        List.mem_of_getElem? (i := i - r)
          (by rw [List.getElem?_drop, Nat.add_sub_cancel' (by omega), hp])
      exact (List.cons_sublist_cons.mpr (List.singleton_sublist.mpr hdrop)).trans
        (List.sublist_append_right _ _)
    refine iff_of_false ?_ hi
    intro hlt
    rw [hsame, List.getElem?_append_left hlt] at hp
    rw [hsame] at hothers
    exact List.disjoint_of_nodup_append hothers (List.mem_of_getElem? hp) hmem

end Sem

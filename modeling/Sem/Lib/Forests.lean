import Mathlib.Data.Finset.Card
import Mathlib.Data.List.Induction
import Mathlib.Logic.Relation
import Mathlib.Tactic.ByContra

/-!
# Forests

* `IsForest.addEdge`: a node that has no parent becomes the child of one that is not below it.
* `IsForest.disjoint`: nothing is below two children of a node.
* `IsForest.heightLt`: no way down is longer than there are nodes.
* `uncovered`: of a list, what nothing before covers.
-/

namespace Sem

variable {α : Type*} {R S : α → α → Prop} {c d i j p q : α}

/-- Every node is the child of at most one, and none is below itself. -/
structure IsForest (R : α → α → Prop) : Prop where
  parent : ∀ {p q c}, R p c → R q c → p = q
  acyclic : ∀ i, ¬ Relation.TransGen R i i

/-- Less than so many nodes are on every way down. -/
def HeightLt (R : α → α → Prop) : ℕ → α → Prop
  | 0, _ => False
  | n + 1, i => ∀ c, R i c → HeightLt R n c

namespace IsForest

theorem mono (h : IsForest R) (hle : ∀ p c, S p c → R p c) : IsForest S where
  parent hp hq := h.parent (hle _ _ hp) (hle _ _ hq)
  acyclic i hi := h.acyclic i (Relation.TransGen.mono hle i i hi)

theorem not_below (h : IsForest R) (hc : R i c) : ¬ Relation.ReflTransGen R c i :=
  fun hbelow => h.acyclic i (Relation.TransGen.head' hc hbelow)

/-- What is below a node's child and not the child is below the node only through its own parent. -/
theorem below_parent (h : IsForest R) (hij : Relation.ReflTransGen R i j) (hne : j ≠ i)
    (hq : R q j) : Relation.ReflTransGen R i q := by
  rcases Relation.ReflTransGen.cases_tail hij with heq | ⟨p, hip, hp⟩
  · exact absurd heq hne
  · exact h.parent hp hq ▸ hip

/-- Of two nodes above one, one is above the other. -/
theorem below_total (h : IsForest R) (hc : Relation.ReflTransGen R c j)
    (hd : Relation.ReflTransGen R d j) :
    Relation.ReflTransGen R c d ∨ Relation.ReflTransGen R d c := by
  induction hc with
  | refl => exact .inr hd
  | @tail p j hcp hp ih =>
    by_cases heq : j = d
    · subst heq
      exact .inl (hcp.tail hp)
    · exact ih (h.below_parent hd heq hp)

theorem disjoint (h : IsForest R) (hc : R i c) (hd : R i d) (hne : c ≠ d)
    (hcj : Relation.ReflTransGen R c j) : ¬ Relation.ReflTransGen R d j := by
  intro hdj
  rcases h.below_total hcj hdj with hcd | hdc
  · exact h.not_below hc (h.below_parent hcd hne.symm hd)
  · exact h.not_below hd (h.below_parent hdc hne hc)

/-- A way down that may use a new edge does so at most once. -/
theorem below_addEdge (hpc : ¬ Relation.ReflTransGen R c p)
    (hij : Relation.ReflTransGen (fun q d => R q d ∨ q = p ∧ d = c) i j) :
    Relation.ReflTransGen R i j ∨ Relation.ReflTransGen R i p ∧ Relation.ReflTransGen R c j := by
  induction hij with
  | refl => exact .inl .refl
  | @tail k j _ hstep ih =>
    rcases hstep with hkj | ⟨rfl, rfl⟩
    · exact ih.imp (·.tail hkj) fun ⟨hip, hck⟩ => ⟨hip, hck.tail hkj⟩
    · rcases ih with hip | ⟨-, hcp⟩
      · exact .inr ⟨hip, .refl⟩
      · exact absurd hcp hpc

theorem addEdge (h : IsForest R) (hfree : ∀ q, ¬ R q c) (hpc : ¬ Relation.ReflTransGen R c p) :
    IsForest fun q d => R q d ∨ q = p ∧ d = c where
  parent := by
    rintro q q' d (hq | ⟨rfl, rfl⟩) (hq' | ⟨rfl, hd⟩)
    · exact h.parent hq hq'
    · exact absurd (hd ▸ hq) (hfree q)
    · exact absurd hq' (hfree q')
    · rfl
  acyclic := by
    intro i hi
    obtain ⟨j, hij, hji⟩ := Relation.TransGen.head'_iff.mp hi
    rcases hij with hij | ⟨rfl, rfl⟩ <;> rcases below_addEdge hpc hji with hback | ⟨hjp, hci⟩
    · exact h.not_below hij hback
    · exact hpc (hci.trans (hjp.head hij))
    · exact hpc hback
    · exact hpc hjp

/-- The nodes on the way to one are different from all below it. -/
theorem heightLt_of_card [DecidableEq α] (h : IsForest R) {nodes : Finset α}
    (hnodes : ∀ {p c}, R p c → c ∈ nodes) {n : ℕ} {i : α} (hi : i ∈ nodes) (above : Finset α)
    (habove : ∀ j ∈ above, Relation.TransGen R j i) (hsub : above ⊆ nodes)
    (hcard : nodes.card ≤ above.card + n) : HeightLt R n i := by
  induction n generalizing i above with
  | zero =>
    have hall : above = nodes := Finset.eq_of_subset_of_card_le hsub hcard
    exact (h.acyclic i (habove i (hall ▸ hi))).elim
  | succ n ih =>
    intro c hc
    have hnew : i ∉ above := fun hmem => h.acyclic i (habove i hmem)
    refine ih (hnodes hc) (insert i above) ?_ (Finset.insert_subset hi hsub) ?_
    · intro j hj
      rcases Finset.mem_insert.mp hj with rfl | hj
      · exact .single hc
      · exact (habove j hj).tail hc
    · rw [Finset.card_insert_of_notMem hnew]
      omega

theorem heightLt [DecidableEq α] (h : IsForest R) (nodes : Finset α)
    (hnodes : ∀ {p c}, R p c → c ∈ nodes) (hi : i ∈ nodes) : HeightLt R nodes.card i :=
  h.heightLt_of_card hnodes hi ∅ (by simp) (by simp) (by simp)

end IsForest

/-! ## What covers the rest -/

/-- What nothing before it that was kept covers. -/
def uncovered (covers : α → α → Bool) (l : List α) : List α :=
  l.foldl (fun kept a => if kept.any (covers · a) then kept else kept ++ [a]) []

section Uncovered

variable {l : List α} (covers : α → α → Bool)

theorem uncovered_concat (l : List α) (a : α) : uncovered covers (l ++ [a]) =
    if (uncovered covers l).any (covers · a) then uncovered covers l
    else uncovered covers l ++ [a] := by
  rw [uncovered, List.foldl_concat]
  rfl

theorem uncovered_subset (l : List α) : uncovered covers l ⊆ l := by
  induction l using List.reverseRecOn with
  | nil => exact List.Subset.refl _
  | append_singleton l a ih =>
    rw [uncovered_concat]
    split
    · exact List.Subset.trans ih (List.subset_append_left l [a])
    · exact List.append_subset.mpr
        ⟨List.Subset.trans ih (List.subset_append_left l [a]), List.subset_append_right l [a]⟩

/-- Everything is kept or covered by what is kept. -/
theorem exists_covers (l : List α) :
    ∀ a ∈ l, ∃ b ∈ uncovered covers l, b = a ∨ covers b a = true := by
  induction l using List.reverseRecOn with
  | nil => simp
  | append_singleton l a ih =>
    intro b hb
    rw [uncovered_concat]
    rcases List.mem_append.mp hb with hb | hb
    · obtain ⟨k, hk, hcovers⟩ := ih b hb
      split
      · exact ⟨k, hk, hcovers⟩
      · exact ⟨k, List.mem_append_left _ hk, hcovers⟩
    · obtain rfl := List.mem_singleton.mp hb
      split
      · next hany =>
        obtain ⟨k, hk, hcovers⟩ := List.any_eq_true.mp hany
        exact ⟨k, hk, .inr hcovers⟩
      · exact ⟨b, List.mem_append_right _ hb, .inl rfl⟩

/-- **Nothing that is kept covers another thing that is**, if what comes later covers only what it
is covered by. -/
theorem pairwise_uncovered {covers : α → α → Bool}
    (h : l.Pairwise fun a b => covers b a → covers a b) :
    (uncovered covers l).Pairwise fun a b => covers a b = false ∧ covers b a = false := by
  induction l using List.reverseRecOn with
  | nil => exact .nil
  | append_singleton l a ih =>
    obtain ⟨hl, -, hlast⟩ := List.pairwise_append.mp h
    rw [uncovered_concat]
    split
    · exact ih hl
    · next hany =>
      refine List.pairwise_append.mpr ⟨ih hl, List.pairwise_singleton _ _, fun k hk b hb => ?_⟩
      obtain rfl := List.mem_singleton.mp hb
      have hnot : covers k b = false := by
        by_contra hcovers
        exact hany (List.any_eq_true.mpr ⟨k, hk, by simpa using hcovers⟩)
      refine ⟨hnot, ?_⟩
      have himp := hlast k (uncovered_subset covers l hk) b hb
      cases hback : covers b k
      · rfl
      · rw [himp hback] at hnot
        cases hnot

end Uncovered

end Sem

import Sem.Medea.DataUpdates
import Mathlib.Data.Finset.Card

/-!
# Linked data

The two sides of the links agree in every run (`Mutual`). As long as no link closes a circle and no
`Data` loses one of several parents, a linked `Data` holds the value of a parent and every update
returns (`consistent_of_reachBy`).

`removeParentData` sets the empty string even if there are parents left, and `updateChildren` calls
the children even if the value is what it was, so that it never returns from a circle.
-/

namespace Sem.Medea

universe u

variable {Value : Type u} {hooks : Hooks Value} {s s' t : DataState Value} {d e c p : ℕ}
  {v w : Value} {fuel n m : ℕ}

/-! ## Both sides of the links -/

/-- The links are kept on both sides, and their ends are alive. -/
structure Mutual (s : DataState Value) : Prop where
  inverse : ∀ p c, c ∈ s.childDatas p ↔ p ∈ s.parentDatas c
  live : ∀ p c, c ∈ s.childDatas p → p ∈ s.datas ∧ c ∈ s.datas

/-- A link from `d` to `c`. -/
def addLink (s : DataState Value) (d c : ℕ) : DataState Value :=
  { s with
    childDatas := Function.update s.childDatas d (insert c (s.childDatas d))
    parentDatas := Function.update s.parentDatas c (insert d (s.parentDatas c)) }

/-- No link from `d` to `c`. -/
def removeLink (s : DataState Value) (d c : ℕ) : DataState Value :=
  { s with
    childDatas := Function.update s.childDatas d ((s.childDatas d).erase c)
    parentDatas := Function.update s.parentDatas c ((s.parentDatas c).erase d) }

theorem mem_child_addLink : e ∈ (addLink s d c).childDatas p ↔
    (p = d ∧ e = c) ∨ e ∈ s.childDatas p := by
  unfold addLink
  by_cases hp : p = d
  · subst hp
    simp
  · simp [hp]

theorem mem_parent_addLink : p ∈ (addLink s d c).parentDatas e ↔
    (p = d ∧ e = c) ∨ p ∈ s.parentDatas e := by
  unfold addLink
  by_cases he : e = c
  · subst he
    simp
  · simp [he]

theorem mem_child_removeLink : e ∈ (removeLink s d c).childDatas p ↔
    ¬(p = d ∧ e = c) ∧ e ∈ s.childDatas p := by
  unfold removeLink
  by_cases hp : p = d
  · subst hp
    simp
  · simp [hp]

theorem mem_parent_removeLink : p ∈ (removeLink s d c).parentDatas e ↔
    ¬(p = d ∧ e = c) ∧ p ∈ s.parentDatas e := by
  unfold removeLink
  by_cases he : e = c
  · subst he
    simp
  · simp [he]

namespace Mutual

theorem of_sameLinks (h : Mutual s) (hs : SameLinks s s') : Mutual s' := by
  obtain ⟨inverse, live⟩ := h
  refine ⟨fun p c => ?_, fun p c hc => ?_⟩
  · rw [hs.childDatas, hs.parentDatas]
    exact inverse p c
  · rw [hs.childDatas] at hc
    rw [hs.datas]
    exact live p c hc

theorem addLink (h : Mutual s) (hd : d ∈ s.datas) (hc : c ∈ s.datas) : Mutual (addLink s d c) := by
  refine ⟨fun p e => ?_, fun p e he => ?_⟩
  · rw [mem_child_addLink, mem_parent_addLink, h.inverse]
  · rcases mem_child_addLink.mp he with ⟨rfl, rfl⟩ | he
    · exact ⟨hd, hc⟩
    · exact h.live p e he

theorem removeLink (h : Mutual s) : Mutual (removeLink s d c) := by
  refine ⟨fun p e => ?_, fun p e he => ?_⟩
  · rw [mem_child_removeLink, mem_parent_removeLink, h.inverse]
  · exact h.live p e (mem_child_removeLink.mp he).2

/-- What is not alive has no links. -/
theorem links_eq_empty (h : Mutual s) (hd : d ∉ s.datas) :
    s.parentDatas d = ∅ ∧ s.childDatas d = ∅ := by
  refine ⟨Finset.eq_empty_of_forall_notMem fun p hp => ?_,
    Finset.eq_empty_of_forall_notMem fun c hc => ?_⟩
  · exact hd (h.live p d ((h.inverse p d).mpr hp)).2
  · exact hd (h.live d c hc).1

end Mutual

/-! ## What the functions do to the links -/

theorem linkData_eq [DecidableEq Value] (hm : Mutual s) (hc : c ∉ s.childDatas d) :
    linkData hooks fuel s d c = if s.value d = s.value c then some (addLink s d c)
      else setValue hooks fuel (addLink s d c) c (s.value d) := by
  have hd : d ∉ s.parentDatas c := fun hd => hc ((hm.inverse d c).mpr hd)
  unfold linkData
  rw [if_neg hc, addParentData, if_neg hd]
  rfl

theorem linkData_cases [DecidableEq Value] (hm : Mutual s)
    (h : linkData hooks fuel s d c = some s') :
    (c ∈ s.childDatas d ∧ s' = s) ∨ (c ∉ s.childDatas d ∧ s.value d = s.value c ∧
      s' = addLink s d c) ∨ (c ∉ s.childDatas d ∧ s.value d ≠ s.value c ∧
        setValue hooks fuel (addLink s d c) c (s.value d) = some s') := by
  by_cases hc : c ∈ s.childDatas d
  · rw [linkData, if_pos hc] at h
    exact Or.inl ⟨hc, (Option.some.inj h).symm⟩
  · rw [linkData_eq hm hc] at h
    by_cases hvalue : s.value d = s.value c
    · rw [if_pos hvalue] at h
      exact Or.inr (Or.inl ⟨hc, hvalue, (Option.some.inj h).symm⟩)
    · rw [if_neg hvalue] at h
      exact Or.inr (Or.inr ⟨hc, hvalue, h⟩)

theorem unlinkData_cases (hm : Mutual s) (h : unlinkData hooks fuel s d c = some s') :
    (c ∉ s.childDatas d ∧ s' = s) ∨ (c ∈ s.childDatas d ∧
      setValue hooks fuel (removeLink s d c) c hooks.emptyString = some s') := by
  unfold unlinkData at h
  by_cases hc : c ∈ s.childDatas d
  · have hd : d ∈ s.parentDatas c := (hm.inverse d c).mp hc
    rw [if_pos hc, removeParentData, if_pos hd] at h
    exact Or.inr ⟨hc, h⟩
  · rw [if_neg hc] at h
    exact Or.inl ⟨hc, (Option.some.inj h).symm⟩

/-- A new `Data`, which has no links. -/
def addData (hooks : Hooks Value) (s : DataState Value) (d : ℕ) : DataState Value :=
  { s with datas := insert d s.datas, value := Function.update s.value d hooks.invalid }

theorem construct_eq [DecidableEq Value] (hm : Mutual s) (hd : d ∉ s.datas) :
    construct hooks fuel s d v = if v = hooks.invalid then some (addData hooks s d)
      else setValue hooks fuel (addData hooks s d) d v := by
  obtain ⟨hparents, hchildren⟩ := hm.links_eq_empty hd
  have hparents : Function.update s.parentDatas d ∅ = s.parentDatas := by
    rw [← hparents, Function.update_eq_self]
  have hchildren : Function.update s.childDatas d ∅ = s.childDatas := by
    rw [← hchildren, Function.update_eq_self]
  unfold construct
  rw [hparents, hchildren]
  rfl

theorem construct_cases [DecidableEq Value] (hm : Mutual s) (hd : d ∉ s.datas)
    (h : construct hooks fuel s d v = some s') :
    s' = addData hooks s d ∨
      (v ≠ hooks.invalid ∧ setValue hooks fuel (addData hooks s d) d v = some s') := by
  rw [construct_eq hm hd] at h
  by_cases hinvalid : v = hooks.invalid
  · rw [if_pos hinvalid] at h
    exact Or.inl (Option.some.inj h).symm
  · rw [if_neg hinvalid] at h
    exact Or.inr ⟨hinvalid, h⟩

theorem Mutual.addData (hm : Mutual s) : Mutual (addData hooks s d) :=
  ⟨hm.inverse, fun p c hc => ⟨Finset.mem_insert_of_mem (hm.live p c hc).1,
    Finset.mem_insert_of_mem (hm.live p c hc).2⟩⟩

theorem linkData_mutual [DecidableEq Value] (hm : Mutual s) (hd : d ∈ s.datas) (hc : c ∈ s.datas)
    (h : linkData hooks fuel s d c = some s') : Mutual s' := by
  rcases linkData_cases hm h with ⟨-, rfl⟩ | ⟨-, -, rfl⟩ | ⟨-, -, h⟩
  · exact hm
  · exact hm.addLink hd hc
  · exact (hm.addLink hd hc).of_sameLinks (setValue_sameLinks h)

theorem unlinkData_mutual (hm : Mutual s) (h : unlinkData hooks fuel s d c = some s') :
    Mutual s' := by
  rcases unlinkData_cases hm h with ⟨-, rfl⟩ | ⟨-, h⟩
  · exact hm
  · exact hm.removeLink.of_sameLinks (setValue_sameLinks h)

/-- After the first loop there are no parents. -/
theorem unlinkParents_mutual (hm : Mutual s) (h : unlinkParents hooks fuel n s d = some s') :
    Mutual s' ∧ s'.datas = s.datas ∧ s'.parentDatas d = ∅ := by
  induction n generalizing s with
  | zero => cases h
  | succ n ih =>
    unfold unlinkParents at h
    split at h
    · next hnil =>
      obtain rfl := Option.some.inj h
      refine ⟨hm, rfl, Finset.eq_empty_of_forall_notMem fun p hp => ?_⟩
      have := (hooks.mem_iterate _ p).mpr hp
      rw [hnil] at this
      cases this
    · obtain ⟨t, ht, h⟩ := Option.bind_eq_some_iff.mp h
      obtain ⟨hm', hdatas, hempty⟩ := ih (unlinkData_mutual hm ht) h
      refine ⟨hm', hdatas.trans ?_, hempty⟩
      rcases unlinkData_cases hm ht with ⟨-, rfl⟩ | ⟨-, ht⟩
      · rfl
      · exact (setValue_sameLinks ht).datas

/-- A link that goes takes no parent to anyone. -/
theorem parentDatas_unlinkData (hm : Mutual s) (h : unlinkData hooks fuel s d c = some s') :
    s'.parentDatas e ⊆ s.parentDatas e := by
  rcases unlinkData_cases hm h with ⟨-, rfl⟩ | ⟨-, h⟩
  · exact Finset.Subset.refl _
  · rw [(setValue_sameLinks h).parentDatas]
    exact fun p hp => (mem_parent_removeLink.mp hp).2

/-- After the second loop there are no children, and the parents are not more than they were. -/
theorem unlinkChildren_mutual (hm : Mutual s) (h : unlinkChildren hooks fuel n s d = some s') :
    Mutual s' ∧ s'.datas = s.datas ∧ s'.childDatas d = ∅ ∧
      s'.parentDatas d ⊆ s.parentDatas d := by
  induction n generalizing s with
  | zero => cases h
  | succ n ih =>
    unfold unlinkChildren at h
    split at h
    · next hnil =>
      obtain rfl := Option.some.inj h
      refine ⟨hm, rfl, Finset.eq_empty_of_forall_notMem fun c hc => ?_, Finset.Subset.refl _⟩
      have := (hooks.mem_iterate _ c).mpr hc
      rw [hnil] at this
      cases this
    · obtain ⟨t, ht, h⟩ := Option.bind_eq_some_iff.mp h
      obtain ⟨hm', hdatas, hempty, hparents⟩ := ih (unlinkData_mutual hm ht) h
      refine ⟨hm', hdatas.trans ?_, hempty, hparents.trans (parentDatas_unlinkData hm ht)⟩
      rcases unlinkData_cases hm ht with ⟨-, rfl⟩ | ⟨-, ht⟩
      · rfl
      · exact (setValue_sameLinks ht).datas

/-- The destructor leaves no link to what it destroys. -/
theorem destruct_mutual (hm : Mutual s) (h : destruct hooks fuel s d = some s') :
    Mutual s' ∧ s'.datas = s.datas.erase d ∧ ∀ e, d ∉ s'.parentDatas e ∧ d ∉ s'.childDatas e := by
  obtain ⟨s₁, h₁, h⟩ := Option.bind_eq_some_iff.mp h
  obtain ⟨s₂, h₂, rfl⟩ := Option.map_eq_some_iff.mp h
  obtain ⟨hm₁, hdatas₁, hparents₁⟩ := unlinkParents_mutual hm h₁
  obtain ⟨hm₂, hdatas₂, hchildren, hparents₂⟩ := unlinkChildren_mutual hm₁ h₂
  rw [hparents₁, Finset.subset_empty] at hparents₂
  have hparent : ∀ e, d ∉ s₂.parentDatas e := by
    intro e hd
    have := (hm₂.inverse d e).mpr hd
    rw [hchildren] at this
    cases this
  have hchild : ∀ e, d ∉ s₂.childDatas e := by
    intro e hd
    have := (hm₂.inverse e d).mp hd
    rw [hparents₂] at this
    cases this
  refine ⟨⟨hm₂.inverse, fun p c hc => ?_⟩, ?_, fun e => ⟨hparent e, hchild e⟩⟩
  · have hp : p ≠ d := by
      rintro rfl
      exact hparent c ((hm₂.inverse p c).mp hc)
    have hc' : c ≠ d := by
      rintro rfl
      exact hchild p hc
    obtain ⟨hlivep, hlivec⟩ := hm₂.live p c hc
    exact ⟨Finset.mem_erase.mpr ⟨hp, hlivep⟩, Finset.mem_erase.mpr ⟨hc', hlivec⟩⟩
  · show s₂.datas.erase d = s.datas.erase d
    rw [hdatas₂, hdatas₁]

/-! ## Both sides agree in every run -/

theorem Mutual.step [DecidableEq Value] {a : DataAction Value} (hm : Mutual s)
    (h : perform hooks fuel s a = some s') : Mutual s' := by
  cases a with
  | construct d v =>
    obtain ⟨hd, h⟩ : d ∉ s.datas ∧ construct hooks fuel s d v = some s' := by
      simpa [perform] using h
    rcases construct_cases hm hd h with rfl | ⟨-, h⟩
    · exact hm.addData
    · exact hm.addData.of_sameLinks (setValue_sameLinks h)
  | destruct d =>
    obtain ⟨-, h⟩ : d ∈ s.datas ∧ destruct hooks fuel s d = some s' := by simpa [perform] using h
    exact (destruct_mutual hm h).1
  | registerParent d =>
    obtain ⟨-, h⟩ : d ∈ s.datas ∧ registerParent hooks fuel s d = some s' := by
      simpa [perform] using h
    obtain ⟨t, ht, h⟩ := Option.bind_eq_some_iff.mp h
    exact hm.of_sameLinks ((setValue_sameLinks ht).trans
      (updateChildren_sameLinks (fun _ _ _ _ => setValue_sameLinks) h))
  | setValue d v =>
    obtain ⟨-, h⟩ : d ∈ s.datas ∧ setValue hooks fuel s d v = some s' := by
      simpa [perform] using h
    exact hm.of_sameLinks (setValue_sameLinks h)
  | linkData d c =>
    obtain ⟨⟨hd, hc⟩, h⟩ : (d ∈ s.datas ∧ c ∈ s.datas) ∧
        linkData hooks fuel s d c = some s' := by simpa [perform] using h
    exact linkData_mutual hm hd hc h
  | unlinkData d c =>
    obtain ⟨-, h⟩ : (d ∈ s.datas ∧ c ∈ s.datas) ∧ unlinkData hooks fuel s d c = some s' := by
      simpa [perform] using h
    exact unlinkData_mutual hm h

/-- In every run. -/
theorem mutual_of_reach [DecidableEq Value] (h : (dataSystem hooks).Reach s) : Mutual s := by
  refine Lts.InductiveBy.reach ⟨?_, fun hm _ ⟨fuel, hstep⟩ => hm.step hstep⟩ h
  rintro s rfl
  refine ⟨fun p c => ?_, fun p c hc => ?_⟩
  · simp
  · cases hc

end Sem.Medea

import Sem.Medea.SiblingIndex

/-!
# What the hooks keep

Between two actions the children are numbered from 0 in an order by row and column (`Represents`).
During an action one child is out of order (`Loose`), and to set its index puts it in its place.
-/

namespace Sem.Medea

open Sibling (le)

/-! ## Numbered children -/

/-- The children of an ordered list of nodes. -/
def renumber (l : List Sibling) : List Child := l.map (placeIn l)

/-- The ids of the nodes. -/
def ids (l : List Sibling) : List ℕ := l.map (·.id)

/-- The children are those of an ordered list of nodes. -/
structure Represents (children : List Child) (l : List Sibling) : Prop where
  nodup : (ids l).Nodup
  sorted : l.Pairwise fun a b => le a b
  perm : children.Perm (renumber l)

/-- The children other than `child` are numbered upwards, in an order by row and column. -/
structure Loose (children : List Child) (child : Child) (others : List Sibling) : Prop where
  nodup : (ids (child.node :: others)).Nodup
  sorted : others.Pairwise fun a b => le a b
  perm : ∃ rest : List Child, children.Perm (child :: rest) ∧
    (rest.Pairwise fun a b => a.index < b.index) ∧ rest.map (·.node) = others

/-- A place among the siblings is granted as it is. -/
theorem requestedPosition_of_lt {maxIndex i : ℕ} (hi : i < maxIndex) :
    requestedPosition maxIndex i = i := by
  have hneg : ¬(i : Int) < -1 := by omega
  unfold requestedPosition
  rw [if_neg hneg, if_neg (by omega), Int.toNat_natCast]

/-- The last place among the siblings. -/
theorem requestedPosition_of_ge {maxIndex i : ℕ} (hi : maxIndex ≤ i + 1) :
    maxIndex ≤ requestedPosition maxIndex i + 1 := by
  have hneg : ¬(i : Int) < -1 := by omega
  unfold requestedPosition
  rw [if_neg hneg]
  by_cases hlast : (i : Int) = -1 ∨ (maxIndex : Int) < i
  · rw [if_pos hlast]
    omega
  · rw [if_neg hlast, Int.toNat_natCast]
    exact hi

variable {children : List Child} {child : Child} {l others : List Sibling} {id : ℕ}

/-- The index of a node is the number of nodes before it. -/
theorem findIdx_append {before after : List Sibling} {s : Sibling}
    (hnodup : (ids (before ++ s :: after)).Nodup) :
    (before ++ s :: after).findIdx (fun sibling => decide (sibling.id = s.id)) = before.length := by
  induction before with
  | nil => simp [List.findIdx_cons]
  | cons t before ih =>
    obtain ⟨hnotMem, htail⟩ := List.nodup_cons.mp hnodup
    have hne : t.id ≠ s.id := by
      intro heq
      exact hnotMem (List.mem_map.mpr ⟨s, List.mem_append_right _ List.mem_cons_self, heq.symm⟩)
    rw [List.cons_append, List.findIdx_cons, ih htail]
    simp [hne]

theorem map_findIdx {before l : List Sibling} (hnodup : (ids (before ++ l)).Nodup) :
    (l.map fun s => (before ++ l).findIdx fun sibling => decide (sibling.id = s.id)) =
      List.range' before.length l.length := by
  induction l generalizing before with
  | nil => rfl
  | cons s l ih =>
    rw [List.map_cons, findIdx_append hnodup, List.length_cons, List.range'_succ]
    refine congrArg _ ?_
    have happend : before ++ s :: l = (before ++ [s]) ++ l := by simp
    rw [happend] at hnodup ⊢
    rw [ih hnodup]
    simp

theorem index_renumber (hnodup : (ids l).Nodup) :
    (renumber l).map (·.index) = (List.range l.length).map fun i : ℕ => (i : Int) := by
  have h := congrArg (List.map fun i : ℕ => (i : Int)) (@map_findIdx [] l hnodup)
  rw [List.map_map, List.nil_append] at h
  rw [renumber, List.map_map, List.range_eq_range']
  exact h

theorem node_renumber (l : List Sibling) : (renumber l).map (·.node) = l := by
  rw [renumber, List.map_map]
  exact List.map_id l

theorem pairwise_renumber (hnodup : (ids l).Nodup) :
    (renumber l).Pairwise fun a b => a.index < b.index := by
  have h : ((renumber l).map (·.index)).Pairwise (· < ·) := by
    rw [index_renumber hnodup, List.pairwise_map]
    exact List.pairwise_lt_range.imp fun hab => by simpa using hab
  exact List.pairwise_map.mp h

theorem eq_of_perm {sorted sorted' : List Child} (hperm : sorted.Perm sorted')
    (hsorted : sorted.Pairwise fun a b => a.index ≤ b.index)
    (hsorted' : sorted'.Pairwise fun a b => a.index < b.index) : sorted = sorted' := by
  refine List.Perm.eq_of_pairwise ?_ hsorted (hsorted'.imp Int.le_of_lt) hperm
  intro a b ha hb hab hba
  by_contra hne
  have hdistinct : sorted'.Pairwise fun a b => a.index ≠ b.index := hsorted'.imp fun h => by omega
  have : Std.Symm fun a b : Child => a.index ≠ b.index := ⟨fun _ _ h => h.symm⟩
  exact hdistinct.forall (hperm.mem_iff.mp ha) hb hne (by omega)

theorem pairwise_getChildren (children : List Child) :
    (getChildren children).Pairwise fun a b => a.index ≤ b.index := by
  have htrans : ∀ a b c : Child, decide (a.index ≤ b.index) → decide (b.index ≤ c.index) →
      decide (a.index ≤ c.index) := by
    intro a b c hab hbc
    simp only [decide_eq_true_eq] at *
    omega
  have htotal : ∀ a b : Child, decide (a.index ≤ b.index) || decide (b.index ≤ a.index) := by
    intro a b
    simp only [Bool.or_eq_true, decide_eq_true_eq]
    omega
  exact (List.pairwise_mergeSort htrans htotal children).imp of_decide_eq_true

/-- Children with different indices have one order. -/
theorem getChildren_eq_of_perm {sorted : List Child} (hperm : children.Perm sorted)
    (hsorted : sorted.Pairwise fun a b => a.index < b.index) : getChildren children = sorted :=
  eq_of_perm ((List.mergeSort_perm children _).trans hperm) (pairwise_getChildren children) hsorted

theorem Represents.getChildren_eq (h : Represents children l) :
    getChildren children = renumber l :=
  getChildren_eq_of_perm h.perm (pairwise_renumber h.nodup)

theorem Represents.order_eq (h : Represents children l) : order children = l := by
  rw [order, h.getChildren_eq, node_renumber]

/-- A list of nodes in order, numbered. -/
theorem Represents.of_placeIn (hnodup : (ids l).Nodup) (hsorted : l.Pairwise fun a b => le a b)
    (hperm : (children.map (·.node)).Perm l) :
    Represents (children.map fun child => placeIn l child.node) l := by
  refine ⟨hnodup, hsorted, ?_⟩
  have h := hperm.map (placeIn l)
  rwa [List.map_map] at h

/-! ## One child out of order -/

theorem id_ne_of_nodup {c s : Sibling} (hnodup : (ids (c :: others)).Nodup) (hs : s ∈ others) :
    s.id ≠ c.id := by
  intro heq
  exact (List.nodup_cons.mp hnodup).1 (List.mem_map.mpr ⟨s, hs, heq⟩)

theorem filter_others {c : Sibling} (hnodup : (ids (c :: others)).Nodup) :
    others.filter (fun s => s.id ≠ c.id) = others := by
  rw [List.filter_eq_self]
  exact fun s hs => decide_eq_true (id_ne_of_nodup hnodup hs)

/-- One of the children, as it is. -/
theorem Represents.loose {before after : List Sibling} {c : Sibling}
    (h : Represents children (before ++ c :: after)) :
    Loose children ⟨c, before.length⟩ (before ++ after) := by
  obtain ⟨hnodup, hsorted, hperm⟩ := h
  have hmiddle : (ids (c :: (before ++ after))).Nodup := by
    have hp : (ids (before ++ c :: after)).Perm (ids (c :: (before ++ after))) :=
      List.perm_middle.map Sibling.id
    exact hp.nodup_iff.mp hnodup
  have hplace : placeIn (before ++ c :: after) c = ⟨c, before.length⟩ := by
    rw [placeIn, findIdx_append hnodup]
  refine ⟨hmiddle, hsorted.sublist ((List.sublist_cons_self c after).append_left before),
    (before ++ after).map (placeIn (before ++ c :: after)), ?_, ?_, ?_⟩
  · rw [← hplace]
    exact hperm.trans (List.perm_middle.map (placeIn (before ++ c :: after)))
  · exact (pairwise_renumber hnodup).sublist
      (((List.sublist_cons_self c after).append_left before).map _)
  · rw [List.map_map]
    exact List.map_id _

/-- A child is added. -/
theorem Represents.add (h : Represents children l) (hid : child.node.id ∉ ids l) :
    Loose (child :: children) child l :=
  ⟨List.nodup_cons.mpr ⟨hid, h.nodup⟩, h.sorted, renumber l, h.perm.cons child,
    pairwise_renumber h.nodup, node_renumber l⟩

namespace Loose

variable (h : Loose children child others)

include h

theorem find?_eq : children.find? (fun c => c.node.id = child.node.id) = some child := by
  obtain ⟨hnodup, -, rest, hperm, -, hrest⟩ := h
  have hmem : child ∈ children := hperm.mem_iff.mpr List.mem_cons_self
  cases hfind : children.find? fun c => c.node.id = child.node.id with
  | none =>
    have hne := List.find?_eq_none.mp hfind child hmem
    simp at hne
  | some found =>
    have hid : found.node.id = child.node.id := by simpa using List.find?_some hfind
    rcases List.mem_cons.mp (hperm.mem_iff.mp (List.mem_of_find?_eq_some hfind)) with rfl | hmem
    · rfl
    · refine absurd hid (id_ne_of_nodup hnodup ?_)
      rw [← hrest]
      exact List.mem_map.mpr ⟨found, hmem, rfl⟩

/-- The others are seen in their order. -/
theorem filter_order :
    (order children).filter (fun s => s.id ≠ child.node.id) = others := by
  obtain ⟨hnodup, -, rest, hperm, hsorted, hrest⟩ := h
  have hothers : rest.filter (fun c => c.node.id ≠ child.node.id) = rest := by
    rw [List.filter_eq_self]
    intro c hc
    refine decide_eq_true (id_ne_of_nodup hnodup ?_)
    rw [← hrest]
    exact List.mem_map.mpr ⟨c, hc, rfl⟩
  have hfilter : (getChildren children).filter (fun c => c.node.id ≠ child.node.id) = rest := by
    have hp : (getChildren children).Perm (child :: rest) :=
      (List.mergeSort_perm children _).trans hperm
    have hp := hp.filter fun c => c.node.id ≠ child.node.id
    rw [List.filter_cons_of_neg (by simp), hothers] at hp
    exact eq_of_perm hp ((pairwise_getChildren children).filter _) hsorted
  rw [order, List.filter_map]
  exact (congrArg (List.map (·.node)) hfilter).trans hrest

theorem length_order : (order children).length = others.length + 1 := by
  obtain ⟨-, -, rest, hperm, -, rfl⟩ := h
  rw [order, getChildren, List.length_map, List.length_mergeSort, hperm.length_eq,
    List.length_cons, List.length_map]

/-- To set the index of a child numbers the children again, with the child in its place. -/
theorem exists_setIndex (newIndex : Int) : ∃ l,
    Medea.setIndex children child.node.id newIndex =
      (children.map fun child => placeIn l child.node) ∧
    Represents (Medea.setIndex children child.node.id newIndex) l ∧
    Placed le others child.node (requestedPosition (others.length + 1) newIndex) l := by
  have hnodup : (child.node :: others).Nodup := List.Nodup.of_map _ h.nodup
  have hplaced : Placed le others child.node (requestedPosition (others.length + 1) newIndex)
      (sortSiblings (insertAt others (requestedPosition (others.length + 1) newIndex)
        child.node)) := by
    unfold sortSiblings
    rw [List.mergeSort_zipIdx]
    exact placed_mergeSort Sibling.le_trans Sibling.le_total h.sorted hnodup
  have heq : Medea.setIndex children child.node.id newIndex = children.map fun child' =>
      placeIn (sortSiblings (insertAt others (requestedPosition (others.length + 1) newIndex)
        child.node)) child'.node := by
    unfold Medea.setIndex
    simp only [h.find?_eq, h.filter_order, h.length_order]
  refine ⟨_, heq, ?_, hplaced⟩
  rw [heq]
  refine Represents.of_placeIn ?_ (hplaced.pairwise h.sorted) ?_
  · exact (hplaced.perm.map Sibling.id).nodup_iff.mpr h.nodup
  · obtain ⟨-, -, rest, hperm, -, rfl⟩ := h
    have hp : (children.map (·.node)).Perm (child.node :: rest.map (·.node)) :=
      hperm.map Child.node
    exact hp.trans hplaced.perm.symm

theorem setIndex (newIndex : Int) : ∃ l, Represents (setIndex children child.node.id newIndex) l ∧
    Placed le others child.node (requestedPosition (others.length + 1) newIndex) l := by
  obtain ⟨l, -, h⟩ := h.exists_setIndex newIndex
  exact ⟨l, h⟩

/-- The row or the column of the child changes. -/
theorem mapNode {f : Sibling → Sibling} (hf : ∀ s, (f s).id = s.id) :
    Loose (mapNode children child.node.id f) { child with node := f child.node } others := by
  obtain ⟨hnodup, hsorted, rest, hperm, hrest, hothers⟩ := h
  refine ⟨?_, hsorted, rest, ?_, hrest, hothers⟩
  · have hids : ids (f child.node :: others) = ids (child.node :: others) :=
      congrArg (· :: ids others) (hf child.node)
    exact hids ▸ hnodup
  · have hp := hperm.map fun c : Child =>
      if c.node.id = child.node.id then { c with node := f c.node } else c
    rw [List.map_cons, if_pos rfl] at hp
    have hid : rest.map (fun c : Child =>
        if c.node.id = child.node.id then { c with node := f c.node } else c) = rest := by
      conv_rhs => rw [← List.map_id rest]
      refine List.map_congr_left fun c hc => if_neg (id_ne_of_nodup hnodup ?_)
      rw [← hothers]
      exact List.mem_map.mpr ⟨c, hc, rfl⟩
    rwa [hid] at hp

/-- A new row or column puts the child in the last place. -/
theorem setGrid {f : Sibling → Sibling} (hf : ∀ s, (f s).id = s.id) :
    ∃ l, Represents (Medea.setIndex (Medea.mapNode children child.node.id f) child.node.id (-1)) l ∧
      Placed le others (f child.node) (others.length + 1) l := by
  obtain ⟨l, hl, hplaced⟩ := (h.mapNode hf).setIndex (-1)
  rw [hf] at hl
  exact ⟨l, hl, hplaced⟩

theorem setRow (newRow : Int) : ∃ l, Represents (setRow children child.node.id newRow) l ∧
    Placed le others { child.node with row := some (validRow newRow) } (others.length + 1) l :=
  h.setGrid fun _ => rfl

theorem setColumn (newColumn : Int) :
    ∃ l, Represents (setColumn children child.node.id newColumn) l ∧
      Placed le others { child.node with column := some newColumn } (others.length + 1) l :=
  h.setGrid fun _ => rfl

end Loose

/-! ## What each action keeps -/

/-- The child in its place is one of the children. -/
theorem Represents.loose_of_placed {c : Sibling} {r : ℕ} (h : Represents children l)
    (hplaced : Placed le others c r l) : ∃ i : Int, Loose children ⟨c, i⟩ others := by
  obtain ⟨before, after, rfl, rfl, -⟩ := hplaced
  exact ⟨before.length, h.loose⟩

/-- The place of a child among the others. -/
theorem Represents.placed {before after : List Sibling} {c : Sibling}
    (h : Represents children (before ++ c :: after)) :
    Placed le (before ++ after) c before.length (before ++ c :: after) := by
  have hsorted := List.pairwise_append.mp h.sorted
  exact ⟨before, after, rfl, rfl, fun p hp => hsorted.2.2 p hp c List.mem_cons_self,
    (List.pairwise_cons.mp hsorted.2.1).1, fun _ _ _ _ _ => Iff.rfl⟩

/-- To set an index to what it is changes nothing. -/
theorem Represents.setIndex_self {before after : List Sibling} {c : Sibling}
    (h : Represents children (before ++ c :: after)) :
    Represents (setIndex children c.id before.length) (before ++ c :: after) := by
  obtain ⟨l, hl, hplaced⟩ := h.loose.setIndex before.length
  have hself : Placed le (before ++ after) c
      (requestedPosition ((before ++ after).length + 1) before.length) (before ++ c :: after) := by
    rw [requestedPosition_of_lt (by rw [List.length_append]; omega)]
    exact h.placed
  rwa [hplaced.unique hself] at hl

theorem mem_childIds (h : Represents children l) : id ∈ childIds children ↔ id ∈ ids l := by
  have hperm : (childIds children).Perm ((renumber l).map (·.node.id)) := h.perm.map _
  have hids : (renumber l).map (·.node.id) = ids l := by
    rw [renumber, List.map_map]
    rfl
  rw [hperm.mem_iff, hids]

/-- A child and the ones before and after it. -/
theorem Represents.split (h : Represents children l) (hid : id ∈ childIds children) :
    ∃ before c after, l = before ++ c :: after ∧ c.id = id := by
  obtain ⟨c, hc, hid⟩ := List.mem_map.mp ((mem_childIds h).mp hid)
  obtain ⟨before, after, rfl⟩ := List.append_of_mem hc
  exact ⟨before, c, after, rfl, hid⟩

/-- The node at the end of the list, without another one, has an index that is large enough. -/
theorem length_le_findIdx {before after init : List Sibling} {c d : Sibling}
    (hnodup : (ids (before ++ c :: after)).Nodup) (heq : before ++ after = init ++ [d]) :
    init.length ≤ (before ++ c :: after).findIdx fun s => decide (s.id = d.id) := by
  rcases List.eq_nil_or_concat after with rfl | ⟨after, e, rfl⟩
  · rw [List.append_nil] at heq
    subst heq
    have happend : init ++ [d] ++ [c] = init ++ d :: [c] := by simp
    rw [happend] at hnodup ⊢
    exact Nat.le_of_eq (findIdx_append hnodup).symm
  · rw [List.concat_eq_append, ← List.append_assoc] at heq
    obtain ⟨rfl, hlast⟩ := List.append_inj' heq rfl
    obtain ⟨rfl, -⟩ := List.cons.inj hlast
    have happend : before ++ c :: after.concat e = (before ++ c :: after) ++ [e] := by simp
    rw [happend] at hnodup ⊢
    rw [findIdx_append hnodup]
    simp

/-- The others close the gap. -/
theorem Represents.removeChild {before after : List Sibling} {c : Sibling}
    (h : Represents children (before ++ c :: after)) :
    Represents (removeChild children c.id) (before ++ after) := by
  obtain ⟨hmiddle, hsorted, -⟩ := h.loose
  have hnodup : (ids (before ++ after)).Nodup := (List.nodup_cons.mp hmiddle).2
  have hperm : (children.filter fun child => child.node.id ≠ c.id).Perm
      ((before ++ after).map (placeIn (before ++ c :: after))) := by
    have hp := (h.perm.trans (List.perm_middle.map (placeIn (before ++ c :: after)))).filter
      fun child => child.node.id ≠ c.id
    rw [List.map_cons, List.filter_cons_of_neg (by simp [placeIn]), List.filter_map] at hp
    have hfilter : (before ++ after).filter ((fun child : Child => decide (child.node.id ≠ c.id)) ∘
        placeIn (before ++ c :: after)) = before ++ after := filter_others hmiddle
    rwa [hfilter] at hp
  have hincreasing := (pairwise_renumber h.nodup).sublist
    (((List.sublist_cons_self c after).append_left before).map (placeIn (before ++ c :: after)))
  unfold Medea.removeChild
  simp only
  rw [getChildren_eq_of_perm hperm hincreasing]
  rcases List.eq_nil_or_concat (before ++ after) with hnil | ⟨init, d, heq⟩
  · rw [hnil] at hperm hnodup hsorted ⊢
    exact ⟨hnodup, hsorted, hperm⟩
  · rw [List.concat_eq_append] at heq
    have hlast := length_le_findIdx h.nodup heq
    rw [heq] at hperm hnodup hsorted hincreasing ⊢
    rw [List.map_append, List.map_singleton, List.getLast?_append]
    have hloose : Loose (children.filter fun child => child.node.id ≠ c.id)
        (placeIn (before ++ c :: after) d) init := by
      refine ⟨?_, (List.pairwise_append.mp hsorted).1,
        init.map (placeIn (before ++ c :: after)), ?_, ?_, ?_⟩
      · exact (List.perm_append_comm.map Sibling.id).nodup_iff.mp hnodup
      · rw [List.map_append] at hperm
        exact hperm.trans List.perm_append_comm
      · rw [List.map_append] at hincreasing
        exact (List.pairwise_append.mp hincreasing).1
      · rw [List.map_map]
        exact List.map_id _
    obtain ⟨l, hl, hplaced⟩ := hloose.setIndex (placeIn (before ++ c :: after) d).index
    have hself : Placed le init d
        (requestedPosition (init.length + 1) (placeIn (before ++ c :: after) d).index)
        (init ++ [d]) := by
      refine ⟨init, [], (List.append_nil init).symm, rfl, fun p hp => ?_, by simp, ?_⟩
      · exact (List.pairwise_append.mp hsorted).2.2 p hp d List.mem_cons_self
      · intro i p hp _ _
        have hi := (List.getElem?_eq_some_iff.mp hp).1
        have hr := @requestedPosition_of_ge (init.length + 1) _ (Nat.succ_le_succ hlast)
        refine iff_of_true hi (Nat.lt_of_lt_of_le hi ?_)
        exact Nat.le_of_succ_le_succ hr
    rwa [hplaced.unique hself] at hl

end Sem.Medea

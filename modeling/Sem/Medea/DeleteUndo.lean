import Sem.Medea.SiblingPlaces

/-!
# Deleting a child and undoing it

The undo of a deletion makes a node from the stored data, sets that data while the node has no
parent yet, and then adds the node to its parent, which sets the data again.

* `sameIndices_iff`: every child has its index again if and only if the deleted one had neither a
  row nor a column, or was the last among its equals.
-/

namespace Sem.Medea

open Sibling (le)

/-- `setData_` of stored data on a node without a parent: the value is taken as it is, and a row or
a column sets the index to -1. -/
def setStored (stored child : Child) : SiblingKey → Child
  | .index => { child with index := stored.index }
  | .row => match stored.node.row with
    | some row => ⟨{ child.node with row := some row }, -1⟩
    | none => child
  | .column => match stored.node.column with
    | some column => ⟨{ child.node with column := some column }, -1⟩
    | none => child

/-- The node that `importGraphML` makes of the stored data; the keys are in the order of the hash
table of the `TempEntity`. -/
def reconstruct (stored : Child) (keys : List SiblingKey) : Child :=
  keys.foldl (setStored stored) ⟨⟨stored.node.id, none, none⟩, -1⟩

/-- `destructEntities` of one child, and `reverseAction` of that. -/
def deleteUndo (children : List Child) (child : Child) (keys keys' : List SiblingKey) :
    List Child :=
  addChild (removeChild children child.node.id) (reconstruct child keys) keys'

/-- The index of a child. -/
def indexOf (children : List Child) (id : ℕ) : Option Int :=
  (children.find? fun child => child.node.id = id).map (·.index)

/-- Every child has the index that it had. -/
def SameIndices (children children' : List Child) : Prop :=
  ∀ id, indexOf children' id = indexOf children id

/-- The child has neither a row nor a column, or its equals are all before it. -/
def LastOfGroup (children : List Child) (child : Child) : Prop :=
  (child.node.row = none ∧ child.node.column = none) ∨
    ∀ other ∈ children, le other.node child.node → le child.node other.node →
      other.index ≤ child.index

variable {children children' : List Child} {child stored : Child} {l : List Sibling}
  {keys keys' : List SiblingKey}

/-! ## The stored data -/

theorem id_foldl_setStored (start : Child) :
    (keys.foldl (setStored stored) start).node.id = start.node.id := by
  induction keys generalizing start with
  | nil => rfl
  | cons key keys ih =>
    rw [List.foldl_cons, ih]
    cases key <;> unfold setStored <;> simp only <;> split <;> rfl

theorem row_foldl_setStored (start : Child) : (keys.foldl (setStored stored) start).node.row =
    if .row ∈ keys then stored.node.row.or start.node.row else start.node.row := by
  induction keys generalizing start with
  | nil => rfl
  | cons key keys ih =>
    rw [List.foldl_cons, ih]
    cases key with
    | index => simp [setStored]
    | row => cases hrow : stored.node.row <;> simp [setStored, hrow]
    | column => cases hcolumn : stored.node.column <;> simp [setStored, hcolumn]

theorem column_foldl_setStored (start : Child) :
    (keys.foldl (setStored stored) start).node.column =
      if .column ∈ keys then stored.node.column.or start.node.column else start.node.column := by
  induction keys generalizing start with
  | nil => rfl
  | cons key keys ih =>
    rw [List.foldl_cons, ih]
    cases key with
    | index => simp [setStored]
    | row => cases hrow : stored.node.row <;> simp [setStored, hrow]
    | column => cases hcolumn : stored.node.column <;> simp [setStored, hcolumn]

theorem index_foldl_setStored (hrow : stored.node.row = none) (hcolumn : stored.node.column = none)
    (start : Child) : (keys.foldl (setStored stored) start).index =
      if .index ∈ keys then stored.index else start.index := by
  induction keys generalizing start with
  | nil => rfl
  | cons key keys ih =>
    rw [List.foldl_cons, ih]
    cases key <;> simp [setStored, hrow, hcolumn]

section

variable (hkeys : keys.Perm [.index, .row, .column])

include hkeys

/-- The node has its row and column again. -/
theorem node_reconstruct : (reconstruct stored keys).node = stored.node := by
  have hrow : .row ∈ keys := hkeys.mem_iff.mpr (by decide)
  have hcolumn : .column ∈ keys := hkeys.mem_iff.mpr (by decide)
  have hid : (reconstruct stored keys).node.id = stored.node.id := id_foldl_setStored _
  have hrow : (reconstruct stored keys).node.row = stored.node.row := by
    rw [reconstruct, row_foldl_setStored, if_pos hrow, Option.or_none]
  have hcolumn : (reconstruct stored keys).node.column = stored.node.column := by
    rw [reconstruct, column_foldl_setStored, if_pos hcolumn, Option.or_none]
  calc (reconstruct stored keys).node
      = ⟨(reconstruct stored keys).node.id, (reconstruct stored keys).node.row,
          (reconstruct stored keys).node.column⟩ := rfl
    _ = stored.node := by rw [hid, hrow, hcolumn]

/-- A node without a row and a column has its index again. -/
theorem index_reconstruct (hrow : stored.node.row = none) (hcolumn : stored.node.column = none) :
    (reconstruct stored keys).index = stored.index := by
  rw [reconstruct, index_foldl_setStored hrow hcolumn, if_pos (hkeys.mem_iff.mpr (by decide))]

end

/-! ## The indices -/

theorem Represents.indexOf_eq {before after : List Sibling} {c : Sibling}
    (h : Represents children (before ++ c :: after)) :
    indexOf children c.id = some (before.length : Int) := by
  rw [indexOf, h.loose.find?_eq]
  rfl

theorem Represents.indexOf_eq_none (h : Represents children l) {id : ℕ} (hid : id ∉ ids l) :
    indexOf children id = none := by
  rw [indexOf, Option.map_eq_none_iff, List.find?_eq_none]
  intro child hchild hmem
  refine hid ((mem_childIds h).mp (List.mem_map.mpr ⟨child, hchild, by simpa using hmem⟩))

/-- The indices say in which order the children are. -/
theorem Represents.sameIndices (h : Represents children l) (h' : Represents children' l) :
    SameIndices children children' := by
  intro id
  by_cases hid : id ∈ ids l
  · obtain ⟨before, c, after, rfl, rfl⟩ := h.split ((mem_childIds h).mpr hid)
    rw [h.indexOf_eq, h'.indexOf_eq]
  · rw [h.indexOf_eq_none hid, h'.indexOf_eq_none hid]

/-- Where the child is added again. -/
theorem placed_deleteUndo {before after : List Sibling} {c : Sibling}
    (h : Represents children (before ++ c :: after)) (hrow : c.row.map validRow = c.row)
    (hkeys : keys.Perm [.index, .row, .column]) (hkeys' : keys'.Perm [.index, .row, .column]) :
    ∃ l, Represents (deleteUndo children ⟨c, before.length⟩ keys keys') l ∧
      Placed le (before ++ after) c
        (if c.row.isSome ∨ c.column.isSome then (before ++ after).length + 1 else before.length)
        l := by
  have hremoved := h.removeChild
  have hid : c.id ∉ childIds (removeChild children c.id) := by
    rw [mem_childIds hremoved]
    exact (List.nodup_cons.mp h.loose.nodup).1
  have hnode : (reconstruct ⟨c, before.length⟩ keys).node = c := node_reconstruct hkeys
  obtain ⟨l, hl, hplaced⟩ := hremoved.addChild (by rwa [hnode]) hkeys'
  refine ⟨l, hl, ?_⟩
  rw [hnode, hrow] at hplaced
  by_cases hgrid : c.row.isSome ∨ c.column.isSome
  · rw [if_pos hgrid] at hplaced ⊢
    exact hplaced
  · rw [if_neg hgrid] at hplaced ⊢
    rw [not_or, Option.not_isSome_iff_eq_none, Option.not_isSome_iff_eq_none] at hgrid
    rw [index_reconstruct hkeys hgrid.1 hgrid.2,
      requestedPosition_of_lt (by rw [List.length_append]; omega)] at hplaced
    exact hplaced

/-- The child has its place again. -/
theorem sameIndices_iff_placed {before after : List Sibling} {c : Sibling}
    (h : Represents children (before ++ c :: after)) (hl : Represents children' l)
    {r : ℕ} (hplaced : Placed le (before ++ after) c r l) :
    SameIndices children children' ↔ Placed le (before ++ after) c before.length l := by
  constructor
  · intro hsame
    obtain ⟨before', after', heq, rfl, -⟩ := hplaced
    have hindex := hsame c.id
    rw [hl.indexOf_eq, h.indexOf_eq, Option.some.injEq, Int.natCast_inj] at hindex
    obtain ⟨rfl, rfl⟩ := List.append_inj heq hindex.symm
    exact h.placed
  · intro hplaced
    obtain rfl := hplaced.unique h.placed
    exact h.sameIndices hl

/-- A child is where its index says. -/
theorem Represents.mem_iff (h : Represents children l) : child ∈ children ↔
    ∃ before after, l = before ++ child.node :: after ∧ child.index = before.length := by
  constructor
  · intro hmem
    obtain ⟨s, hs, rfl⟩ := List.mem_map.mp (h.perm.mem_iff.mp hmem)
    obtain ⟨before, after, rfl⟩ := List.append_of_mem hs
    exact ⟨before, after, rfl, congrArg (fun i : ℕ => (i : Int)) (findIdx_append h.nodup)⟩
  · rintro ⟨before, after, rfl, hindex⟩
    have hplace : child = placeIn (before ++ child.node :: after) child.node := by
      rw [placeIn, findIdx_append h.nodup, ← hindex]
    rw [h.perm.mem_iff, hplace]
    exact List.mem_map.mpr ⟨child.node, List.mem_append_right _ List.mem_cons_self, rfl⟩

/-- No equal sibling stands behind the child. -/
theorem lastOfGroup_iff {before after : List Sibling} {c : Sibling}
    (h : Represents children (before ++ c :: after)) (hgrid : c.row.isSome ∨ c.column.isSome) :
    LastOfGroup children ⟨c, before.length⟩ ↔ ∀ (i : ℕ) p, (before ++ after)[i]? = some p →
      le p c → le c p → i < before.length := by
  have hnone : ¬(c.row = none ∧ c.column = none) := by
    rw [← Option.not_isSome_iff_eq_none, ← Option.not_isSome_iff_eq_none]
    tauto
  rw [LastOfGroup, or_iff_right hnone]
  constructor
  · intro hlast i p hp hpc hcp
    by_contra hge
    rw [List.getElem?_append_right (by omega)] at hp
    obtain ⟨between, rest, rfl⟩ := List.append_of_mem (List.mem_of_getElem? hp)
    have happend : before ++ c :: (between ++ p :: rest) =
        (before ++ c :: between) ++ p :: rest := by simp
    have hother : (⟨p, (before ++ c :: between).length⟩ : Child) ∈ children :=
      h.mem_iff.mpr ⟨before ++ c :: between, rest, happend, rfl⟩
    have hle := hlast _ hother hpc hcp
    simp only [List.length_append, List.length_cons] at hle
    omega
  · intro hbefore other hother hpc hcp
    obtain ⟨before', after', heq, hindex⟩ := h.mem_iff.mp hother
    rw [hindex]
    by_contra hlt
    rcases List.append_eq_append_iff.mp heq with ⟨between, hbetween, hrest⟩ | ⟨between, hbetween, -⟩
    · cases between with
      | nil =>
        rw [List.append_nil] at hbetween
        rw [hbetween] at hlt
        exact hlt (Int.le_refl _)
      | cons d between =>
        obtain ⟨rfl, rfl⟩ := List.cons.inj hrest
        have hp : (before ++ (between ++ other.node :: after'))[before.length + between.length]? =
            some other.node := by
          rw [List.getElem?_append_right (by omega), Nat.add_sub_cancel_left,
            List.getElem?_append_right (by omega), Nat.sub_self, List.getElem?_cons_zero]
        have := hbefore _ _ hp hpc hcp
        omega
    · have hlength := congrArg List.length hbetween
      rw [List.length_append] at hlength
      dsimp only at hlt
      omega

/-- To delete a child and to undo that. -/
theorem Numbered.sameIndices_deleteUndo (h : Numbered children) (hmem : child ∈ children)
    (hkeys : keys.Perm [.index, .row, .column]) (hkeys' : keys'.Perm [.index, .row, .column]) :
    SameIndices children (deleteUndo children child keys keys') ↔ LastOfGroup children child := by
  obtain ⟨l, h, hrows⟩ := h
  obtain ⟨before, after, rfl, hindex⟩ := h.mem_iff.mp hmem
  obtain ⟨c, i⟩ := child
  obtain rfl := hindex
  obtain ⟨l', hl, hplaced⟩ := placed_deleteUndo h (hrows c (by simp)) hkeys hkeys'
  rw [sameIndices_iff_placed h hl hplaced]
  by_cases hgrid : c.row.isSome ∨ c.column.isSome
  · rw [if_pos hgrid] at hplaced
    have hc : c ∉ before ++ after := fun hmem =>
      (List.nodup_cons.mp h.loose.nodup).1 (List.mem_map.mpr ⟨c, hmem, rfl⟩)
    rw [hplaced.iff_of_last hc (Nat.le_succ _), lastOfGroup_iff h hgrid]
  · rw [if_neg hgrid] at hplaced
    rw [not_or, Option.not_isSome_iff_eq_none, Option.not_isSome_iff_eq_none] at hgrid
    exact iff_of_true hplaced (Or.inl hgrid)

/-- In every run, to delete a child and to undo that gives every child the index that it had if and
only if the child has neither a row nor a column, or is the last among its equals. -/
theorem sameIndices_iff (h : siblingSystem.Reach children) (hmem : child ∈ children)
    (hkeys : keys.Perm [.index, .row, .column]) (hkeys' : keys'.Perm [.index, .row, .column]) :
    SameIndices children (deleteUndo children child keys keys') ↔ LastOfGroup children child :=
  (numbered_of_reach h).sameIndices_deleteUndo hmem hkeys hkeys'

/-- The first of two children in a row. -/
theorem not_forall_sameIndices : ¬∀ children child keys keys', siblingSystem.Reach children →
    child ∈ children → keys.Perm [.index, .row, .column] → keys'.Perm [.index, .row, .column] →
      SameIndices children (deleteUndo children child keys keys') := by
  intro hall
  have hperm := List.Perm.refl [SiblingKey.index, .row, .column]
  have hreach := reach_onlyChild.next _ (@siblingStep_addChild [⟨⟨1, some 0, none⟩, 0⟩]
    ⟨⟨2, some 0, none⟩, 1⟩ [.index, .row, .column] (by decide) hperm)
  have honly : Represents [⟨⟨1, some 0, none⟩, 0⟩] [⟨1, some 0, none⟩] :=
    ⟨by decide, List.pairwise_singleton _ _, by decide⟩
  obtain ⟨l, hl, hplaced⟩ := @Represents.addChild _ ⟨⟨2, some 0, none⟩, 1⟩ _ _ honly (by decide)
    hperm
  have hsecond : Placed le [⟨1, some 0, none⟩] ⟨2, some 0, none⟩ 2
      [⟨1, some 0, none⟩, ⟨2, some 0, none⟩] :=
    ⟨[⟨1, some 0, none⟩], [], rfl, rfl, by decide, by decide, fun i _ hp _ _ => by
      have hi := (List.getElem?_eq_some_iff.mp hp).1
      simp only [List.length_singleton] at hi ⊢
      omega⟩
  obtain rfl := hplaced.unique hsecond
  have hlast := ((numbered_of_reach hreach).sameIndices_deleteUndo (hl.mem_iff.mpr
    ⟨[], _, rfl, rfl⟩) hperm hperm).mp (hall _ ⟨⟨1, some 0, none⟩, 0⟩ _ _ hreach
      (hl.mem_iff.mpr ⟨[], _, rfl, rfl⟩) hperm hperm)
  rcases hlast with ⟨hrow, -⟩ | hlast
  · cases hrow
  · have h := hlast ⟨⟨2, some 0, none⟩, 1⟩ (hl.mem_iff.mpr ⟨[⟨1, some 0, none⟩], [], rfl, rfl⟩)
      (by decide) (by decide)
    exact absurd h (by decide)

/-- The second of three children is the last one in its row, the first one is not. -/
theorem sameIndices_iff_threeSiblings :
    SameIndices threeSiblings (deleteUndo threeSiblings ⟨⟨2, some 0, none⟩, 1⟩
        [.row, .index, .column] [.index, .row, .column]) ∧
      ¬ SameIndices threeSiblings (deleteUndo threeSiblings ⟨⟨1, some 0, none⟩, 0⟩
        [.index, .row, .column] [.column, .row, .index]) := by
  rw [sameIndices_iff reach_threeSiblings (by decide) (by decide) (by decide),
    sameIndices_iff reach_threeSiblings (by decide) (by decide) (by decide)]
  constructor
  · refine Or.inr fun other hother hle _ => ?_
    simp only [threeSiblings, List.mem_cons, List.not_mem_nil, or_false] at hother
    rcases hother with rfl | rfl | rfl
    · exact absurd hle (by decide)
    · exact Int.le_refl _
    · decide
  · rintro (⟨hrow, -⟩ | hlast)
    · cases hrow
    · exact absurd (hlast ⟨⟨2, some 0, none⟩, 1⟩ (by decide) (by decide) (by decide)) (by decide)

end Sem.Medea

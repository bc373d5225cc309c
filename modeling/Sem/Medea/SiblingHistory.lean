import Sem.Medea.DeleteUndo
import Sem.Medea.UndoRedoGroups

/-!
# Undo among siblings

A change of the `Index` of a child can be taken back (`reversible_index`). A change of its `Row`
cannot: the child goes to the last place, and the undo, which only sets the `Row` again, sends it to
the last place once more.
-/

namespace Sem.Medea

open Sibling (le)
open ModelController

/-- `getDataValue` of a child; there are only children that have the data. -/
def siblingValue (children : List Child) (ref : ℕ × SiblingKey) : Int :=
  match children.find? fun child => child.node.id = ref.1 with
  | none => 0
  | some child =>
    match ref.2 with
    | .index => child.index
    | .row => child.node.row.getD 0
    | .column => child.node.column.getD 0

/-- `setDataValue` -/
def setSiblingValue (children : List Child) (ref : ℕ × SiblingKey) (value : Int) : List Child :=
  match ref.2 with
  | .index => setIndex children ref.1 value
  | .row => setRow children ref.1 value
  | .column => setColumn children ref.1 value

/-- The `Index`, `Row` and `Column` data of the children of a node. -/
def siblingLayer : DataLayer (List Child) (ℕ × SiblingKey) Int where
  getDataValue := siblingValue
  setDataValue children ref value :=
    let children' := setSiblingValue children ref value
    (children', decide (siblingValue children' ref ≠ siblingValue children ref))

variable {children : List Child} {l before after : List Sibling} {c : Sibling} {v w : Int}

theorem siblingValue_index (h : Represents children (before ++ c :: after)) :
    siblingValue children (c.id, .index) = before.length := by
  unfold siblingValue
  rw [h.loose.find?_eq]

/-- The children are those of the ordered list, in their own order. -/
theorem Represents.map_placeIn (h : Represents children l) :
    (children.map fun child => placeIn l child.node) = children := by
  conv_rhs => rw [← List.map_id children]
  refine List.map_congr_left fun child hchild => ?_
  obtain ⟨s, -, rfl⟩ := List.mem_map.mp (h.perm.mem_iff.mp hchild)
  rfl

/-- To set an index to the place that the child has in the ordered list. -/
theorem setIndex_eq {children' : List Child} (h : Represents children (before ++ c :: after))
    {l' before' after' : List Sibling} (h' : Represents children' l')
    (hl' : l' = before' ++ c :: after') (hothers : before' ++ after' = before ++ after)
    (hmap : children' = children.map fun child => placeIn l' child.node) :
    setIndex children' c.id before.length = children := by
  subst hl'
  obtain ⟨l, heq, -, hplaced⟩ := h'.loose.exists_setIndex before.length
  have hlength : (before' ++ after').length = before.length + after.length := by
    rw [hothers, List.length_append]
  rw [hlength, requestedPosition_of_lt (by omega), hothers] at hplaced
  obtain rfl := hplaced.unique h.placed
  refine heq.trans ?_
  rw [hmap, List.map_map]
  exact h.map_placeIn

/-- The index of a child can be changed and changed back. -/
theorem reversible_index (h : Represents children (before ++ c :: after)) (v : Int) :
    Reversible siblingLayer children (c.id, .index) v := by
  obtain ⟨l, hmap, hl, hplaced⟩ := h.loose.exists_setIndex v
  obtain ⟨before', after', hothers, hl', -⟩ := hplaced
  subst hl'
  have hvalue := siblingValue_index h
  have hvalue' := siblingValue_index hl
  have hback : setIndex (setIndex children c.id v) c.id before.length = children :=
    setIndex_eq h hl rfl hothers.symm hmap
  have hself : setIndex children c.id before.length = children :=
    setIndex_eq h h rfl rfl h.map_placeIn.symm
  have hagain : setIndex children c.id before'.length = setIndex children c.id v := by
    refine setIndex_eq hl h rfl hothers ?_
    rw [hmap, List.map_map]
    exact h.map_placeIn.symm
  unfold Reversible
  change siblingValue (setIndex children c.id v) (c.id, .index) = _ at hvalue'
  simp only [siblingLayer, setSiblingValue, hvalue, hvalue', hback, hagain]
  by_cases hne : (before'.length : Int) = before.length
  · have heq : setIndex children c.id v = children := by
      rw [← hagain, hne, hself]
    simp [hne, heq]
  · simp [hne, Ne.symm hne]

/-- So can any changes of indices, one after the other. -/
theorem allReversible_index (h : Represents children l) (changes : List (ℕ × Int))
    (hmem : ∀ change ∈ changes, change.1 ∈ ids l) :
    AllReversible siblingLayer children
      (changes.map fun change => ((change.1, .index), change.2)) := by
  induction changes generalizing children l with
  | nil => trivial
  | cons change changes ih =>
    obtain ⟨c, hc, hid⟩ := List.mem_map.mp (hmem change List.mem_cons_self)
    obtain ⟨before, after, rfl⟩ := List.append_of_mem hc
    obtain ⟨l, -, hl, hplaced⟩ := h.loose.exists_setIndex change.2
    obtain ⟨before', after', hothers, rfl, -⟩ := hplaced
    have hperm : (before' ++ c :: after').Perm (before ++ c :: after) := by
      refine List.perm_middle.trans (List.Perm.trans ?_ List.perm_middle.symm)
      rw [hothers]
    rw [List.map_cons, AllReversible, ← hid]
    exact ⟨reversible_index h change.2, ih hl fun change' hchange =>
      (hperm.map _).mem_iff.mpr (hmem change' (List.mem_cons_of_mem _ hchange))⟩

/-! ## Two children in a row -/

/-- Two children with the same row. -/
def twoChildren : List Child := [⟨⟨1, some 0, none⟩, 0⟩, ⟨⟨2, some 0, none⟩, 1⟩]

theorem represents_twoChildren :
    Represents twoChildren [⟨1, some 0, none⟩, ⟨2, some 0, none⟩] :=
  ⟨by decide, by decide, by decide⟩

/-- A controller that has just opened the model. -/
def opened {D Ref Value : Type} (data : D) : ModelController D Ref Value :=
  ⟨data, [], [], 0, "", 0⟩

theorem reach_opened {D Ref Value : Type} (layer : DataLayer D Ref Value) (data : D) :
    (historySystem layer).Reach (opened data) :=
  .init ⟨rfl, rfl⟩

/-- Two user actions move children, the first of them two. -/
def moves : List (UserAction (ℕ × SiblingKey) Int) :=
  [⟨"Move", [((1, .index), 2), ((3, .index), 0)]⟩, ⟨"Swap", [((2, .index), 0)]⟩]

theorem undo_redo_userActions_moves :
    let threeChildren : List Child :=
      [⟨⟨1, some 0, none⟩, 0⟩, ⟨⟨2, some 0, none⟩, 1⟩, ⟨⟨3, some 0, none⟩, 2⟩]
    let m₁ := userActions siblingLayer (opened threeChildren) moves
    let k := effective siblingLayer (opened threeChildren) moves
    let m₂ := (undo siblingLayer)^[k] m₁
    m₂.data = threeChildren ∧ ((redo siblingLayer)^[k] m₂).data = m₁.data := by
  intro threeChildren m₁ k m₂
  have hchildren : Represents threeChildren
      [⟨1, some 0, none⟩, ⟨2, some 0, none⟩, ⟨3, some 0, none⟩] :=
    ⟨by decide, by decide, by decide⟩
  obtain ⟨⟨hundo, -⟩, hredo, -⟩ := undo_redo_userActions (reach_opened siblingLayer threeChildren)
    moves (allReversible_index hchildren [(1, 2), (3, 0), (2, 0)] (by decide))
  exact ⟨hundo, hredo⟩

/-- One value. -/
def oneValue : DataLayer ℕ Unit ℕ where
  getDataValue data _ := data
  setDataValue data _ value := (value, decide (data ≠ value))

/-- The row of the first child changes and is set back. -/
theorem row_twoChildren (v w : Int) (hv : validRow v = 1) (hw : validRow w = 0) :
    order (setRow twoChildren 1 v) = [⟨2, some 0, none⟩, ⟨1, some 1, none⟩] ∧
      order (setRow (setRow twoChildren 1 v) 1 w) = [⟨2, some 0, none⟩, ⟨1, some 0, none⟩] := by
  have hlast : ∀ row, 0 ≤ row → Placed le [⟨2, some 0, none⟩] ⟨1, some row, none⟩ 2
      [⟨2, some 0, none⟩, ⟨1, some row, none⟩] := by
    intro row hrow
    refine ⟨[⟨2, some 0, none⟩], [], rfl, rfl, ?_, by simp, ?_⟩
    · intro p hp
      rw [List.mem_singleton] at hp
      subst hp
      rw [Sibling.le_iff]
      simp only [Option.getD_some, Option.getD_none]
      omega
    · intro i p hp _ _
      have hi := (List.getElem?_eq_some_iff.mp hp).1
      simp only [List.length_singleton] at hi ⊢
      omega
  obtain ⟨l, hl, hplaced⟩ := (@Represents.loose _ [] [⟨2, some 0, none⟩] ⟨1, some 0, none⟩
    represents_twoChildren).setRow v
  rw [hv] at hplaced
  obtain rfl := hplaced.unique (hlast 1 (by decide))
  obtain ⟨l', hl', hplaced'⟩ := (@Represents.loose _ [⟨2, some 0, none⟩] [] ⟨1, some 1, none⟩
    hl).setRow w
  rw [hw] at hplaced'
  obtain rfl := hplaced'.unique (hlast 0 (by decide))
  exact ⟨hl.order_eq, hl'.order_eq⟩

/-- Neither a user action that changes nothing nor a change of a row is taken back by one undo. -/
theorem not_forall_undone :
    (¬∀ (actions : List (UserAction Unit ℕ)) k, k ≤ actions.length →
      ((undo oneValue)^[k] (userActions oneValue (opened 0) actions)).data =
        (userActions oneValue (opened 0) (actions.take (actions.length - k))).data) ∧
    ¬∀ (actions : List (UserAction (ℕ × SiblingKey) Int)) k, k ≤ actions.length →
      ((undo siblingLayer)^[k] (userActions siblingLayer (opened twoChildren) actions)).data =
        (userActions siblingLayer (opened twoChildren)
          (actions.take (actions.length - k))).data := by
  constructor
  · intro hall
    have h := hall [⟨"Set", [((), 1)]⟩, ⟨"Set", [((), 1)]⟩] 1 (by decide)
    exact absurd h (by decide)
  · intro hall
    obtain ⟨hset, hundo⟩ := row_twoChildren 1 0 rfl rfl
    have horder := represents_twoChildren.order_eq
    have h : ((undo siblingLayer) (userAction siblingLayer (opened twoChildren)
        ⟨"Set Row", [((1, .row), 1)]⟩)).data = twoChildren :=
      hall [⟨"Set Row", [((1, .row), 1)]⟩] 1 (by decide)
    have hne : order (setRow twoChildren 1 1) ≠ order twoChildren ∧
        order (setRow (setRow twoChildren 1 1) 1 0) ≠ order twoChildren := by
      rw [hset, hundo, horder]
      decide
    cases hchanged : (siblingLayer.setDataValue twoChildren (1, .row) 1).2 with
    | false =>
      -- then there is nothing to undo
      have huser : userAction siblingLayer (opened twoChildren) ⟨"Set Row", [((1, .row), 1)]⟩ =
          ⟨setRow twoChildren 1 1, [], [], 1, "Set Row", 1⟩ := by
        simp only [userAction, List.foldl_cons, List.foldl_nil, setData, triggerAction, opened,
          hchanged]
        rfl
      rw [huser] at h
      exact hne.1 (congrArg order h)
    | true =>
      have huser : userAction siblingLayer (opened twoChildren) ⟨"Set Row", [((1, .row), 1)]⟩ =
          ⟨setRow twoChildren 1 1, [⟨1, "Set Row", (1, .row), 0,
            siblingValue (setRow twoChildren 1 1) (1, .row)⟩], [], 1, "Set Row", 1⟩ := by
        simp only [userAction, List.foldl_cons, List.foldl_nil, setData, triggerAction, opened,
          hchanged]
        rfl
      rw [huser] at h
      change (setData siblingLayer .undo ⟨setRow twoChildren 1 1, [], [], 2, "Set Row", 2⟩
        (1, .row) 0).data = twoChildren at h
      rw [data_setData] at h
      exact hne.2 (congrArg order h)

end Sem.Medea

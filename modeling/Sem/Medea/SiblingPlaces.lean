import Sem.Medea.SiblingOrder

/-!
# The place a child asks for

What an action on the children of a node should do (`Lawful`), and when it does it (`Clean`).

A child that is added has all its data set again. The hooks of `Row` and `Column` send the child to
the last place even if the value stays what it was, and so the index that came with the child is
lost.
-/

namespace Sem.Medea

open Sibling (le)

/-! ## Adding a child -/

/-- The node once the data of the keys `seen` is set again. -/
def seenNode (node : Sibling) (seen : List SiblingKey) : Sibling :=
  if .row ∈ seen then { node with row := node.row.map validRow } else node

/-- Whether a row or a column was set again. -/
def Regridded (node : Sibling) (seen : List SiblingKey) : Prop :=
  (.row ∈ seen ∧ node.row.isSome) ∨ (.column ∈ seen ∧ node.column.isSome)

instance (node : Sibling) (seen : List SiblingKey) : Decidable (Regridded node seen) :=
  inferInstanceAs (Decidable (_ ∨ _))

/-- Where the child is then. -/
def seenPlace (child : Child) (seen : List SiblingKey) (maxIndex : ℕ) : ℕ :=
  if Regridded child.node seen then maxIndex else requestedPosition maxIndex child.index

/-- The child waits for its place or has it. -/
def Adding (others : List Sibling) (child : Child) (seen : List SiblingKey)
    (children : List Child) : Prop :=
  (.index ∉ seen ∧ ¬Regridded child.node seen ∧ Loose children child others) ∨
    ∃ l, Represents children l ∧ Placed le others (seenNode child.node seen)
      (seenPlace child seen (others.length + 1)) l

variable {children children' : List Child} {child : Child} {l others : List Sibling}
  {seen keys : List SiblingKey} {key : SiblingKey}

@[simp]
theorem id_seenNode (node : Sibling) (seen : List SiblingKey) : (seenNode node seen).id = node.id := by
  unfold seenNode
  split <;> rfl

theorem seenNode_of_not_regridded {node : Sibling} (h : ¬Regridded node seen) :
    seenNode node seen = node := by
  unfold seenNode
  split
  · next hrow =>
    have hnone : node.row = none := by
      by_contra hsome
      exact h (Or.inl ⟨hrow, Option.isSome_iff_ne_none.mpr hsome⟩)
    obtain ⟨id, row, column⟩ := node
    simp_all
  · rfl

theorem Adding.loose (h : Adding others child seen children) :
    ∃ i, Loose children ⟨seenNode child.node seen, i⟩ others := by
  rcases h with ⟨-, hgrid, hloose⟩ | ⟨l, hl, hplaced⟩
  · rw [seenNode_of_not_regridded hgrid]
    exact ⟨child.index, hloose⟩
  · exact hl.loose_of_placed hplaced

/-- Data that the child does not have is not set. -/
theorem Adding.skip (hkey : key ≠ .index) (hgrid : Regridded child.node (key :: seen) ↔
      Regridded child.node seen) (hnode : seenNode child.node (key :: seen) = seenNode child.node seen)
    (h : Adding others child seen children) : Adding others child (key :: seen) children := by
  unfold Adding seenPlace at *
  simp only [hgrid, hnode]
  rcases h with ⟨hindex, hgrid, hloose⟩ | hplaced
  · exact Or.inl ⟨by simp [hindex, hkey.symm], hgrid, hloose⟩
  · exact Or.inr hplaced

/-- One key after the other. -/
theorem Adding.revalidate (hkey : key ∉ seen) (h : Adding others child seen children) :
    Adding others child (key :: seen) (revalidate child.node.id children key) := by
  obtain ⟨i, hloose⟩ := h.loose
  have hfind := hloose.find?_eq
  rw [id_seenNode] at hfind
  unfold Medea.revalidate
  rw [hfind]
  cases key with
  | index =>
    have hgrid : Regridded child.node (.index :: seen) ↔ Regridded child.node seen := by
      simp [Regridded]
    have hnode : seenNode child.node (.index :: seen) = seenNode child.node seen := by
      simp [seenNode]
    refine Or.inr ?_
    unfold seenPlace
    simp only [hgrid, hnode]
    rcases h with ⟨-, hnot, hwaits⟩ | ⟨l, hl, hplaced⟩
    · have hindex : i = child.index := by
        have := hwaits.find?_eq
        rw [hfind] at this
        exact congrArg Child.index (Option.some.inj this)
      rw [if_neg hnot, seenNode_of_not_regridded hnot]
      rw [hindex]
      exact hwaits.setIndex child.index
    · refine ⟨l, ?_, hplaced⟩
      obtain ⟨before, after, rfl, rfl, -⟩ := hplaced
      have hplace := hl.loose.find?_eq
      rw [id_seenNode, hfind] at hplace
      have hindex : i = before.length := congrArg Child.index (Option.some.inj hplace)
      have hself := hl.setIndex_self
      rw [id_seenNode] at hself
      rwa [hindex]
  | row =>
    have hrow : (seenNode child.node seen).row = child.node.row := by
      rw [seenNode, if_neg hkey]
    simp only [hrow]
    cases hr : child.node.row with
    | none =>
      refine h.skip (by decide) (by simp [Regridded, hr]) ?_
      have hself : ({ child.node with row := none } : Sibling) = child.node := by rw [← hr]
      simp [seenNode, hr, hself]
    | some row =>
      obtain ⟨l, hl, hplaced⟩ := hloose.setRow row
      rw [id_seenNode] at hl
      have hgrid : Regridded child.node (.row :: seen) := by simp [Regridded, hr]
      have hnode : seenNode child.node (.row :: seen) =
          { seenNode child.node seen with row := some (validRow row) } := by
        simp [seenNode, hkey, hr]
      refine Or.inr ⟨l, hl, ?_⟩
      rw [hnode, seenPlace, if_pos hgrid]
      exact hplaced
  | column =>
    have hcolumn : (seenNode child.node seen).column = child.node.column := by
      unfold seenNode
      split <;> rfl
    have hnode : seenNode child.node (.column :: seen) = seenNode child.node seen := by
      simp [seenNode]
    simp only [hcolumn]
    cases hc : child.node.column with
    | none => exact h.skip (by decide) (by simp [Regridded, hc]) hnode
    | some column =>
      obtain ⟨l, hl, hplaced⟩ := hloose.setColumn column
      rw [id_seenNode] at hl
      have hgrid : Regridded child.node (.column :: seen) := by simp [Regridded, hc]
      have hself : ({ seenNode child.node seen with column := some column } : Sibling) =
          seenNode child.node seen := by rw [← hc, ← hcolumn]
      refine Or.inr ⟨l, hl, ?_⟩
      rw [hnode, seenPlace, if_pos hgrid, ← hself]
      exact hplaced

theorem Adding.foldl (hnodup : (seen.reverse ++ keys).Nodup) (h : Adding others child seen children) :
    Adding others child (keys.reverse ++ seen)
      (keys.foldl (Medea.revalidate child.node.id) children) := by
  induction keys generalizing seen children with
  | nil => exact h
  | cons key keys ih =>
    have hkey : key ∉ seen := by
      have := (List.nodup_middle.mp hnodup)
      rw [List.nodup_cons, List.mem_append, not_or, List.mem_reverse] at this
      exact this.1.1
    have hnodup' : ((key :: seen).reverse ++ keys).Nodup := by
      rw [List.reverse_cons, List.append_assoc]
      exact hnodup
    have := ih hnodup' (h.revalidate hkey)
    rwa [List.foldl_cons, List.reverse_cons, List.append_assoc]

/-- A child that is added is last among its equals if it has a row or a column. -/
theorem Represents.addChild (h : Represents children l) (hid : child.node.id ∉ childIds children)
    (hkeys : keys.Perm [.index, .row, .column]) :
    ∃ l', Represents (addChild children child keys) l' ∧
      Placed le l { child.node with row := child.node.row.map validRow }
        (if child.node.row.isSome ∨ child.node.column.isSome then l.length + 1
          else requestedPosition (l.length + 1) child.index) l' := by
  have hmem : ∀ key, key ∈ keys := fun key => hkeys.mem_iff.mpr (by cases key <;> decide)
  have hnodup : keys.Nodup := hkeys.nodup_iff.mpr (by decide)
  have hwaits : Adding l child [] (child :: children) :=
    Or.inl ⟨by simp, by simp [Regridded], h.add (fun hmem => hid ((mem_childIds h).mpr hmem))⟩
  rcases Adding.foldl (by simpa using hnodup) hwaits with ⟨hindex, -⟩ | ⟨l', hl', hplaced⟩
  · exact absurd (List.mem_append_left _ (List.mem_reverse.mpr (hmem .index))) hindex
  · refine ⟨l', hl', ?_⟩
    simpa [seenNode, seenPlace, Regridded, hmem] using hplaced

/-! ## What an action should do -/

namespace SiblingAction

/-- The child that comes or goes, or whose data is set. -/
def id : SiblingAction → ℕ
  | .addChild child _ => child.node.id
  | .removeChild id => id
  | .setIndex id _ => id
  | .setRow id _ => id
  | .setColumn id _ => id

/-- The row or the column of the child is set, be it to what it was. -/
def regrids : SiblingAction → Bool
  | .addChild child _ => child.node.row.isSome || child.node.column.isSome
  | .removeChild _ => false
  | .setIndex _ _ => false
  | .setRow _ _ => true
  | .setColumn _ _ => true

/-- The node that the child becomes, and the place among the other children that is asked for. A row
or column that stays what it was asks for no other place. -/
def request (children : List Child) : SiblingAction → Option (Sibling × ℕ)
  | .addChild child _ =>
    some ({ child.node with row := child.node.row.map validRow },
      requestedPosition (children.length + 1) child.index)
  | .removeChild _ => none
  | .setIndex id newIndex =>
    (children.find? fun child => child.node.id = id).map fun child =>
      (child.node, requestedPosition children.length newIndex)
  | .setRow id newRow =>
    (children.find? fun child => child.node.id = id).map fun child =>
      ({ child.node with row := some (validRow newRow) },
        if child.node.row = some (validRow newRow) then child.index.toNat else children.length)
  | .setColumn id newColumn =>
    (children.find? fun child => child.node.id = id).map fun child =>
      ({ child.node with column := some newColumn },
        if child.node.column = some newColumn then child.index.toNat else children.length)

end SiblingAction

open SiblingAction (request)

/-- The children that an action does not touch, in their order. -/
def untouched (children : List Child) (action : SiblingAction) : List Sibling :=
  (order children).filter fun sibling => sibling.id ≠ action.id

/-- The children are numbered from 0 in an order by row and column, the untouched ones stay in their
order, and among its equals the touched one is where it asked to be. -/
structure Lawful (children : List Child) (action : SiblingAction) (children' : List Child) :
    Prop where
  numbered : (getChildren children').map (·.index) =
    (List.range children'.length).map fun i : ℕ => (i : Int)
  sorted : (order children').Pairwise fun a b => le a b
  unmoved : untouched children' action = untouched children action
  place : ∀ node r, request children action = some (node, r) →
    Placed le (untouched children action) node r (order children')
  gone : request children action = none → action.id ∉ childIds children'

/-- If the row or the column is set, no other child with that row and column stands at the place
that is asked for, or behind it. -/
def Clean (children : List Child) (action : SiblingAction) : Prop :=
  action.regrids → ∀ node r, request children action = some (node, r) →
    ∀ i sibling, (untouched children action)[i]? = some sibling →
      le sibling node → le node sibling → i < r

variable {action : SiblingAction} {node : Sibling} {r : ℕ}

theorem Represents.length_eq (h : Represents children l) : children.length = l.length := by
  rw [h.perm.length_eq, renumber, List.length_map]

theorem Loose.untouched_eq (h : Loose children child others) (hid : action.id = child.node.id) :
    untouched children action = others := by
  unfold untouched
  rw [hid]
  exact h.filter_order

/-- A child whose data is set, and the others. -/
theorem Represents.loose_of_mem (h : Represents children l) (hid : action.id ∈ childIds children) :
    ∃ child, child.node.id = action.id ∧ Loose children child (untouched children action) ∧
      children.find? (fun child => child.node.id = action.id) = some child ∧
      children.length = (untouched children action).length + 1 := by
  obtain ⟨before, c, after, rfl, hc⟩ := h.split hid
  have hothers := h.loose.untouched_eq hc.symm
  have hfind := h.loose.find?_eq
  rw [hc] at hfind
  refine ⟨⟨c, before.length⟩, hc, hothers ▸ h.loose, hfind, ?_⟩
  rw [h.length_eq, hothers, List.length_append, List.length_append, List.length_cons]
  omega

theorem Represents.untouched_of_notMem (h : Represents children l)
    (hid : action.id ∉ childIds children) : untouched children action = l := by
  unfold untouched
  rw [h.order_eq, List.filter_eq_self]
  intro sibling hsibling
  refine decide_eq_true fun heq => hid ?_
  rw [mem_childIds h, ← heq]
  exact List.mem_map.mpr ⟨sibling, hsibling, rfl⟩

/-- The place that is granted. -/
theorem placed_of_step (h : Represents children l)
    (hstep : siblingStep children action = some children')
    (hrequest : request children action = some (node, r)) :
    node.id = action.id ∧ node.id ∉ ids (untouched children action) ∧
      ∃ l', Represents children' l' ∧ Placed le (untouched children action) node
        (if action.regrids then (untouched children action).length + 1 else r) l' := by
  cases action with
  | addChild child keys =>
    obtain ⟨⟨hid, hkeys⟩, rfl⟩ : (child.node.id ∉ childIds children ∧
        keys.Perm [.index, .row, .column]) ∧ addChild children child keys = children' := by
      simpa [siblingStep] using hstep
    obtain ⟨rfl, rfl⟩ := Prod.mk.inj (Option.some.inj hrequest)
    rw [@Represents.untouched_of_notMem _ _ (.addChild child keys) h hid, h.length_eq]
    refine ⟨rfl, fun hmem => hid ((mem_childIds h).mpr hmem), ?_⟩
    simpa [SiblingAction.regrids] using h.addChild hid hkeys
  | removeChild id => exact absurd hrequest (by simp [request])
  | setIndex id newIndex =>
    obtain ⟨hid, rfl⟩ : id ∈ childIds children ∧ setIndex children id newIndex = children' := by
      simpa [siblingStep] using hstep
    obtain ⟨child, hchild, hloose, hfind, hlength⟩ :=
      @Represents.loose_of_mem _ _ (.setIndex id newIndex) h hid
    simp only [SiblingAction.id] at hchild hfind
    subst hchild
    obtain ⟨found, hfound, heq⟩ := Option.map_eq_some_iff.mp hrequest
    obtain rfl := Option.some.inj (hfind.symm.trans hfound)
    obtain ⟨rfl, rfl⟩ := Prod.mk.inj heq
    rw [hlength]
    exact ⟨rfl, (List.nodup_cons.mp hloose.nodup).1, hloose.setIndex newIndex⟩
  | setRow id newRow =>
    obtain ⟨hid, rfl⟩ : id ∈ childIds children ∧ setRow children id newRow = children' := by
      simpa [siblingStep] using hstep
    obtain ⟨child, hchild, hloose, hfind, -⟩ :=
      @Represents.loose_of_mem _ _ (.setRow id newRow) h hid
    simp only [SiblingAction.id] at hchild hfind
    subst hchild
    obtain ⟨found, hfound, heq⟩ := Option.map_eq_some_iff.mp hrequest
    obtain rfl := Option.some.inj (hfind.symm.trans hfound)
    obtain ⟨rfl, -⟩ := Prod.mk.inj heq
    exact ⟨rfl, (List.nodup_cons.mp hloose.nodup).1, hloose.setRow newRow⟩
  | setColumn id newColumn =>
    obtain ⟨hid, rfl⟩ : id ∈ childIds children ∧ setColumn children id newColumn = children' := by
      simpa [siblingStep] using hstep
    obtain ⟨child, hchild, hloose, hfind, -⟩ :=
      @Represents.loose_of_mem _ _ (.setColumn id newColumn) h hid
    simp only [SiblingAction.id] at hchild hfind
    subst hchild
    obtain ⟨found, hfound, heq⟩ := Option.map_eq_some_iff.mp hrequest
    obtain rfl := Option.some.inj (hfind.symm.trans hfound)
    obtain ⟨rfl, -⟩ := Prod.mk.inj heq
    exact ⟨rfl, (List.nodup_cons.mp hloose.nodup).1, hloose.setColumn newColumn⟩

/-- An action without a request is the removal of a child. -/
theorem removed_of_step (h : Represents children l)
    (hstep : siblingStep children action = some children')
    (hrequest : request children action = none) :
    Represents children' (untouched children action) ∧
      action.id ∉ ids (untouched children action) ∧ action.regrids = false := by
  have hnotFound : ∀ id, id ∈ childIds children →
      children.find? (fun child => child.node.id = id) ≠ none := by
    intro id hid hnone
    obtain ⟨child, hchild, rfl⟩ := List.mem_map.mp hid
    exact List.find?_eq_none.mp hnone child hchild (by simp)
  cases action with
  | addChild child keys => exact absurd hrequest (by simp [request])
  | removeChild id =>
    obtain ⟨hid, rfl⟩ : id ∈ childIds children ∧ removeChild children id = children' := by
      simpa [siblingStep] using hstep
    obtain ⟨before, c, after, rfl, rfl⟩ := h.split hid
    rw [@Loose.untouched_eq _ _ _ (.removeChild c.id) h.loose rfl]
    exact ⟨h.removeChild, (List.nodup_cons.mp h.loose.nodup).1, rfl⟩
  | setIndex id newIndex =>
    obtain ⟨hid, -⟩ : id ∈ childIds children ∧ setIndex children id newIndex = children' := by
      simpa [siblingStep] using hstep
    exact absurd (Option.map_eq_none_iff.mp hrequest) (hnotFound id hid)
  | setRow id newRow =>
    obtain ⟨hid, -⟩ : id ∈ childIds children ∧ setRow children id newRow = children' := by
      simpa [siblingStep] using hstep
    exact absurd (Option.map_eq_none_iff.mp hrequest) (hnotFound id hid)
  | setColumn id newColumn =>
    obtain ⟨hid, -⟩ : id ∈ childIds children ∧ setColumn children id newColumn = children' := by
      simpa [siblingStep] using hstep
    exact absurd (Option.map_eq_none_iff.mp hrequest) (hnotFound id hid)

/-! ## Every run -/

/-- The children are numbered, and no row is below 0. -/
def Numbered (children : List Child) : Prop :=
  ∃ l, Represents children l ∧ ∀ sibling ∈ l, sibling.row.map validRow = sibling.row

theorem siblingStep_addChild (hid : child.node.id ∉ childIds children)
    (hkeys : keys.Perm [.index, .row, .column]) :
    siblingStep children (.addChild child keys) = some (addChild children child keys) := by
  unfold siblingStep
  exact if_pos ⟨hid, hkeys⟩

theorem validRow_validRow (row : Int) : validRow (validRow row) = validRow row := by
  unfold validRow
  by_cases hneg : row < 0
  · rw [if_pos hneg, if_neg (Int.lt_irrefl 0)]
  · rw [if_neg hneg, if_neg hneg]

/-- What is asked for has a valid row. -/
theorem row_of_request (h : Represents children l)
    (hrows : ∀ sibling ∈ l, sibling.row.map validRow = sibling.row)
    (hrequest : request children action = some (node, r)) : node.row.map validRow = node.row := by
  have hfound : ∀ id child, children.find? (fun child => child.node.id = id) = some child →
      child.node.row.map validRow = child.node.row := by
    intro id child hfind
    refine hrows _ ?_
    rw [← node_renumber l]
    exact List.mem_map.mpr ⟨child, h.perm.mem_iff.mp (List.mem_of_find?_eq_some hfind), rfl⟩
  cases action with
  | addChild child keys =>
    obtain ⟨rfl, -⟩ := Prod.mk.inj (Option.some.inj hrequest)
    cases child.node.row with
    | none => rfl
    | some row => simp [validRow_validRow]
  | removeChild id => exact absurd hrequest (by simp [request])
  | setIndex id newIndex =>
    obtain ⟨child, hfind, heq⟩ := Option.map_eq_some_iff.mp hrequest
    obtain ⟨rfl, -⟩ := Prod.mk.inj heq
    exact hfound id child hfind
  | setRow id newRow =>
    obtain ⟨child, hfind, heq⟩ := Option.map_eq_some_iff.mp hrequest
    obtain ⟨rfl, -⟩ := Prod.mk.inj heq
    simp [validRow_validRow]
  | setColumn id newColumn =>
    obtain ⟨child, hfind, heq⟩ := Option.map_eq_some_iff.mp hrequest
    obtain ⟨rfl, -⟩ := Prod.mk.inj heq
    exact hfound id child hfind

theorem mem_of_mem_untouched (h : Represents children l) {sibling : Sibling}
    (hmem : sibling ∈ untouched children action) : sibling ∈ l := by
  have hmem := (List.mem_filter.mp hmem).1
  rwa [h.order_eq] at hmem

theorem Numbered.step (h : Numbered children)
    (hstep : siblingStep children action = some children') : Numbered children' := by
  obtain ⟨l, h, hrows⟩ := h
  cases hrequest : request children action with
  | none =>
    exact ⟨_, (removed_of_step h hstep hrequest).1,
      fun sibling hmem => hrows sibling (mem_of_mem_untouched h hmem)⟩
  | some asked =>
    obtain ⟨node, r⟩ := asked
    obtain ⟨-, -, l', hl', hplaced⟩ := placed_of_step h hstep hrequest
    refine ⟨l', hl', fun sibling hmem => ?_⟩
    rcases List.mem_cons.mp (hplaced.perm.mem_iff.mp hmem) with rfl | hmem
    · exact row_of_request h hrows hrequest
    · exact hrows sibling (mem_of_mem_untouched h hmem)

theorem numbered_of_reach (h : siblingSystem.Reach children) : Numbered children := by
  refine Lts.InductiveBy.reach ⟨?_, fun h _ hstep => h.step hstep⟩ h
  intro children hinit
  exact ⟨[], hinit ▸ ⟨List.nodup_nil, List.Pairwise.nil, List.Perm.nil⟩, by simp⟩

/-- The numbers of the children. -/
theorem Represents.numbered (h : Represents children l) : (getChildren children).map (·.index) =
    (List.range children.length).map fun i : ℕ => (i : Int) := by
  rw [h.getChildren_eq, index_renumber h.nodup, h.length_eq]

/-- The other children once the child has its place. -/
theorem Placed.untouched_eq (hl : Represents children' l) (hplaced : Placed le others node r l)
    (hnotMem : node.id ∉ ids others) (hid : node.id = action.id) :
    untouched children' action = others := by
  obtain ⟨before, after, rfl, rfl, -⟩ := hplaced
  exact hl.loose.untouched_eq hid.symm

/-- What the step does is what it should do, but for the place. -/
theorem Numbered.lawful_iff_of_step (h : Numbered children)
    (hstep : siblingStep children action = some children') :
    Lawful children action children' ↔ Clean children action := by
  obtain ⟨l, h, -⟩ := h
  cases hrequest : request children action with
  | none =>
    obtain ⟨hl, hnotMem, hregrids⟩ := removed_of_step h hstep hrequest
    refine iff_of_true ⟨hl.numbered, ?_, ?_, ?_, ?_⟩ ?_
    · rw [hl.order_eq]
      exact hl.sorted
    · exact hl.untouched_of_notMem fun hmem => hnotMem ((mem_childIds hl).mp hmem)
    · intro node r h
      rw [hrequest] at h
      cases h
    · exact fun _ hmem => hnotMem ((mem_childIds hl).mp hmem)
    · intro hgrid
      rw [hregrids] at hgrid
      cases hgrid
  | some asked =>
    obtain ⟨node, r⟩ := asked
    obtain ⟨hid, hnotMem, l', hl, hplaced⟩ := placed_of_step h hstep hrequest
    have hplace : Lawful children action children' ↔
        Placed le (untouched children action) node r l' := by
      refine ⟨fun hlawful => hl.order_eq ▸ hlawful.place node r hrequest, fun hplace =>
        ⟨hl.numbered, ?_, Placed.untouched_eq hl hplaced hnotMem hid, ?_, ?_⟩⟩
      · rw [hl.order_eq]
        exact hl.sorted
      · intro node' r' h
        obtain ⟨rfl, rfl⟩ := Prod.mk.inj (Option.some.inj (hrequest.symm.trans h))
        rwa [hl.order_eq]
      · intro h
        rw [hrequest] at h
        cases h
    rw [hplace]
    unfold Clean
    by_cases hregrids : action.regrids = true
    · rw [if_pos hregrids] at hplaced
      have hnode : node ∉ untouched children action := fun hmem =>
        hnotMem (List.mem_map.mpr ⟨node, hmem, rfl⟩)
      rw [hplaced.iff_of_last hnode (Nat.le_succ _)]
      refine ⟨fun hlast _ node' r' h => ?_, fun hclean => hclean hregrids node r hrequest⟩
      obtain ⟨rfl, rfl⟩ := Prod.mk.inj (Option.some.inj (hrequest.symm.trans h))
      exact hlast
    · rw [if_neg hregrids] at hplaced
      exact iff_of_true hplaced fun h => absurd h hregrids

/-- In every run, an action gives the children the numbers and the order that it should if and only
if it does not set a row or a column before equal siblings. -/
theorem lawful_iff_clean (h : siblingSystem.Reach children)
    (hstep : siblingStep children action = some children') :
    Lawful children action children' ↔ Clean children action :=
  (numbered_of_reach h).lawful_iff_of_step hstep

/-- An only child that has a row. -/
theorem reach_onlyChild : siblingSystem.Reach [⟨⟨1, some 0, none⟩, 0⟩] := by
  apply Lts.reach_of_run
  show Lts.run siblingStep [] [.addChild ⟨⟨1, some 0, none⟩, 0⟩ [.index, .row, .column]] = _
  decide +kernel

/-- A child with that row and the index 0 is added. -/
theorem not_forall_lawful_siblings : ¬∀ children action children', siblingSystem.Reach children →
    siblingStep children action = some children' → Lawful children action children' := by
  intro hall
  have hstep := @siblingStep_addChild [⟨⟨1, some 0, none⟩, 0⟩] ⟨⟨2, some 0, none⟩, 0⟩
    [.index, .row, .column] (by decide) (List.Perm.refl _)
  have hclean := ((numbered_of_reach reach_onlyChild).lawful_iff_of_step hstep).mp
    (hall _ _ _ reach_onlyChild hstep)
  have h := hclean rfl ⟨2, some 0, none⟩ 0 (by decide +kernel) 0 ⟨1, some 0, none⟩
    (by decide +kernel) (by decide) (by decide)
  exact Nat.not_lt_zero 0 h

/-- Two children in row 0 and one in row 1. -/
def threeSiblings : List Child :=
  [⟨⟨3, some 1, none⟩, 2⟩, ⟨⟨2, some 0, none⟩, 1⟩, ⟨⟨1, some 0, none⟩, 0⟩]

theorem order_threeSiblings :
    order threeSiblings = [⟨1, some 0, none⟩, ⟨2, some 0, none⟩, ⟨3, some 1, none⟩] := by
  simp [order, getChildren, threeSiblings, List.mergeSort,
    List.MergeSort.Internal.splitInTwo]

theorem reach_threeSiblings : siblingSystem.Reach threeSiblings := by
  have hsecond : siblingStep [⟨⟨1, some 0, none⟩, 0⟩]
      (.addChild ⟨⟨2, some 0, none⟩, 1⟩ [.row, .index, .column]) =
        some [⟨⟨2, some 0, none⟩, 1⟩, ⟨⟨1, some 0, none⟩, 0⟩] := by
    simp +decide [siblingStep, addChild, revalidate, setIndex, setRow, mapNode, order, getChildren,
      sortSiblings, insertAt, placeIn, List.mergeSort, List.MergeSort.Internal.splitInTwo,
      List.zipIdxLE, requestedPosition, validRow, List.findIdx, List.findIdx.go]
  have hthird : siblingStep [⟨⟨2, some 0, none⟩, 1⟩, ⟨⟨1, some 0, none⟩, 0⟩]
      (.addChild ⟨⟨3, some 1, none⟩, 2⟩ [.index, .row, .column]) = some threeSiblings := by
    simp +decide [siblingStep, addChild, revalidate, setIndex, setRow, mapNode, order, getChildren,
      sortSiblings, insertAt, placeIn, List.mergeSort, List.MergeSort.Internal.splitInTwo,
      List.zipIdxLE, requestedPosition, validRow, List.findIdx, List.findIdx.go, threeSiblings]
  exact (reach_onlyChild.next _ hsecond).next _ hthird

/-- The third child gets the row of the others and the last place. The first one gets the row that
it has already, and loses its place. -/
theorem lawful_iff_clean_threeSiblings :
    Lawful threeSiblings (.setRow 3 0)
        [⟨⟨3, some 0, none⟩, 2⟩, ⟨⟨2, some 0, none⟩, 1⟩, ⟨⟨1, some 0, none⟩, 0⟩] ∧
      ¬ Lawful threeSiblings (.setRow 1 0)
        [⟨⟨3, some 1, none⟩, 2⟩, ⟨⟨2, some 0, none⟩, 0⟩, ⟨⟨1, some 0, none⟩, 1⟩] := by
  have hmoved : siblingStep threeSiblings (.setRow 3 0) =
      some [⟨⟨3, some 0, none⟩, 2⟩, ⟨⟨2, some 0, none⟩, 1⟩, ⟨⟨1, some 0, none⟩, 0⟩] := by
    simp +decide [siblingStep, setIndex, setRow, mapNode, order, getChildren,
      sortSiblings, insertAt, placeIn, List.mergeSort, List.MergeSort.Internal.splitInTwo,
      List.zipIdxLE, requestedPosition, validRow, List.findIdx, List.findIdx.go, threeSiblings]
  have hsame : siblingStep threeSiblings (.setRow 1 0) =
      some [⟨⟨3, some 1, none⟩, 2⟩, ⟨⟨2, some 0, none⟩, 0⟩, ⟨⟨1, some 0, none⟩, 1⟩] := by
    simp +decide [siblingStep, setIndex, setRow, mapNode, order, getChildren,
      sortSiblings, insertAt, placeIn, List.mergeSort, List.MergeSort.Internal.splitInTwo,
      List.zipIdxLE, requestedPosition, validRow, List.findIdx, List.findIdx.go, threeSiblings]
  rw [lawful_iff_clean reach_threeSiblings hmoved, lawful_iff_clean reach_threeSiblings hsame]
  unfold Clean untouched
  rw [order_threeSiblings]
  constructor
  · intro _ node r hrequest i sibling hi _ _
    have hlt := (List.getElem?_eq_some_iff.mp hi).1
    obtain ⟨-, rfl⟩ := Prod.mk.inj (Option.some.inj hrequest)
    exact Nat.lt_of_lt_of_le hlt (by decide)
  · intro hclean
    exact Nat.not_lt_zero 0 (hclean rfl ⟨1, some 0, none⟩ 0 (by decide +kernel) 0
      ⟨2, some 0, none⟩ (by decide) (by decide) (by decide))
end Sem.Medea

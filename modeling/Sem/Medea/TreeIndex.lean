import Sem.Lib.Forests
import Sem.Medea.CommonAncestor

/-!
# Indices of nodes that are moved (`Entities/node.cpp`, `modelcontroller.cpp`)

Children are taken from their parents and added again. The parent of a node is set once; the index
is that of the parent with the node's branch.

* `indexed_of_reach`: in every run, a node that is among its parent's children has the index of its
  parent with its own branch.
* `treeIndex_law`: indices say the same as parents about the nodes of a tree, each of which is among
  its parent's children, and `getOrderedEntities` keeps the topmost of them.
* `not_treeIndex_law`: a child that was taken from a parent and added to another one.
-/

namespace Sem.Medea

namespace Forest

variable (f : Forest)

/-- `removeChild` -/
def removeChild (parent child : ℕ) : Forest :=
  if child ∈ f.children parent then
    f.modify parent fun node => { node with children := node.children.filter (· ≠ child) }
  else f

/-- `getDepth`: the length of the index. -/
def getDepth (i : ℕ) : ℕ := (f.treeIndex i).length

/-- A `Model` is a root. -/
def createNode (isModel : Bool) : Forest where
  nodes := fun j => if j = f.next then some { treeIndex := if isModel then [0] else [] }
    else f.nodes j
  next := f.next + 1

end Forest

/-! ## Ordered entities -/

/-- `Entity`: an edge has the nodes at its ends. -/
inductive SelectedEntity
  | node (i : ℕ)
  | edge (source destination : ℕ)
  deriving DecidableEq, Repr

namespace Forest

variable (f : Forest)

/-- `isAncestorOf` -/
def isAncestorOf (i : ℕ) : SelectedEntity → Bool
  | .node j => f.ancestorOf i j
  | .edge source destination => f.ancestorOf i source || f.ancestorOf i destination

/-- The order of `getOrderedEntities`: deepest nodes later, edges last. -/
def isBefore : SelectedEntity → SelectedEntity → Bool
  | .node i, .node j => f.getDepth i < f.getDepth j
  | .node _, .edge .. => true
  | .edge .., _ => false

/-- What makes `got_parent`. -/
def gotParent : SelectedEntity → SelectedEntity → Bool
  | .node i, entity => f.isAncestorOf i entity
  | .edge .., _ => false

/-- `getOrderedEntities`; what is equal for the order is sorted in any way. -/
def GetOrderedEntities (entities topEntities : List SelectedEntity) : Prop :=
  ∃ sorted, sorted.Perm entities ∧ sorted.Pairwise (fun a b => f.isBefore b a = false) ∧
    topEntities = uncovered f.gotParent sorted

end Forest

/-! ## Runs -/

/-- The calls that change a forest, with those that take nodes apart. -/
inductive ForestAction
  | createNode (isModel : Bool)
  | addChild (parent child : ℕ) (adoptable : Bool)
  | removeChild (parent child : ℕ)
  deriving DecidableEq, Repr

namespace Forest

/-- The children of a node are those in its set. -/
def Contains (f : Forest) (p c : ℕ) : Prop := c ∈ f.children p

end Forest

/-- What is added is no one's child, and its new parent is not below it. -/
inductive ForestStep (f : Forest) : ForestAction → Forest → Prop
  | createNode (isModel : Bool) : ForestStep f (.createNode isModel) (f.createNode isModel)
  | addChild {parent child : ℕ} (adoptable : Bool) (hparent : f.nodes parent ≠ none)
      (hchild : f.nodes child ≠ none) (hfree : ∀ p, child ∉ f.children p)
      (hbelow : ¬ Relation.ReflTransGen f.Contains child parent) :
      ForestStep f (.addChild parent child adoptable) (f.addChild parent child adoptable)
  | removeChild (parent child : ℕ) :
      ForestStep f (.removeChild parent child) (f.removeChild parent child)

/-- The runs of such calls. -/
def forestSystem : Lts Forest ForestAction := ⟨fun f => f = {}, ForestStep⟩

namespace Forest

/-! ## What is promised -/

/-- The parent of a node that is among its children. -/
def attachedTo (f : Forest) (i : ℕ) : Option ℕ := (f.parentNode i).filter (i ∈ f.children ·)

/-- The way up from a node to the root `r`; everything on it is among its parent's children. -/
structure IsAttached (f : Forest) (r a : ℕ) : Prop where
  root : f.parentNode r = none
  index : f.treeIndex r ≠ []
  way : Up f.attachedTo a r

/-- The indices say what the parents say. -/
structure IndexLaw (f : Forest) (r a b : ℕ) : Prop where
  ancestorOf : a ≠ b → (f.ancestorOf a b = true ↔ f.IsAncestor a b)
  isDescendantOf : f.isDescendantOf a b = true ↔ a ≠ b ∧ f.IsAncestor b a
  getDepth : ∃ n, up f.parentNode n a = some r ∧ f.getDepth a = n + 1

/-- The first one is a node and is, or is above, the second or an end of it. -/
def Covers (f : Forest) : SelectedEntity → SelectedEntity → Prop
  | .node i, .node j => f.IsAncestor i j
  | .node i, .edge source destination => f.IsAncestor i source ∨ f.IsAncestor i destination
  | .edge .., _ => False

/-- None of the top entities covers another one, and they cover all nodes. -/
structure TopLaw (f : Forest) (entities topEntities : List SelectedEntity) : Prop where
  subset : topEntities ⊆ entities
  apart : topEntities.Pairwise fun a b => ¬ f.Covers a b ∧ ¬ f.Covers b a
  covered : ∀ a ∈ entities, ∃ top ∈ topEntities, top = a ∨ f.Covers top a

/-- A node below the root, or an edge between two of them. -/
def IsAttachedEntity (f : Forest) (r : ℕ) : SelectedEntity → Prop
  | .node i => f.IsAttached r i
  | .edge source destination => f.IsAttached r source ∧ f.IsAttached r destination

/-! ## The nodes after a change -/

variable {f f' f'' : Forest} {X Y : ℕ → Prop} {a b c d p q r i j n : ℕ}

/-- A node, or what is read where there is none. -/
def node (f : Forest) (i : ℕ) : TreeNode := (f.nodes i).getD {}

theorem parentNode_eq (i : ℕ) : f.parentNode i = (f.node i).parentNode := by
  cases h : f.nodes i <;> simp [parentNode, node, h]

theorem branch_eq (i : ℕ) : f.branch i = (f.node i).branch := by
  cases h : f.nodes i <;> simp [branch, node, h]

theorem branchCount_eq (i : ℕ) : f.branchCount i = (f.node i).branchCount := by
  cases h : f.nodes i <;> simp [branchCount, node, h]

theorem treeIndex_eq (i : ℕ) : f.treeIndex i = (f.node i).treeIndex := by
  cases h : f.nodes i <;> simp [treeIndex, node, h]

theorem children_eq (i : ℕ) : f.children i = (f.node i).children := by
  cases h : f.nodes i <;> simp [children, node, h]

/-- A change of one node, read back. -/
theorem node_modify {change : TreeNode → TreeNode} (hi : f.nodes i ≠ none) :
    (f.modify i change).node j = if j = i then change (f.node i) else f.node j := by
  obtain ⟨node, hnode⟩ := Option.ne_none_iff_exists'.mp hi
  by_cases hj : j = i <;> simp [modify, Forest.node, hj, hnode]

theorem nodes_modify_eq_none {change : TreeNode → TreeNode} :
    (f.modify i change).nodes j = none ↔ f.nodes j = none := by
  by_cases hj : j = i <;> simp [modify, hj]

theorem modify_congr {change change' : TreeNode → TreeNode}
    (h : ∀ node, f.nodes i = some node → change node = change' node) :
    f.modify i change = f.modify i change' := by
  have heq : (f.nodes i).map change = (f.nodes i).map change' := Option.map_congr h
  simp [modify, heq]

theorem modify_eq_self {change : TreeNode → TreeNode}
    (h : ∀ node, f.nodes i = some node → change node = node) : f.modify i change = f := by
  have heq : (f.nodes i).map change = f.nodes i := by
    cases hnode : f.nodes i with
    | none => rfl
    | some node => rw [Option.map_some, h node hnode]
  simp only [modify, heq]
  congr 1
  funext j
  split
  · next hj => rw [hj]
  · rfl

/-- The child and the parent, before the indices are updated. -/
def joined (f : Forest) (p c : ℕ) : Forest :=
  let branch := f.branchCount p
  (f.modify p fun node =>
    { node with children := node.children ++ [c], branchCount := branch + 1 }).modify c fun node =>
      if node.parentNode = none then { node with parentNode := some p, branch := branch } else node

/-! ## The links -/

/-- What holds of the nodes in every run, besides their indices. -/
structure Shape (f : Forest) : Prop where
  lt_next : ∀ {i}, f.nodes i ≠ none → i < f.next
  forest : IsForest f.Contains
  child_alive : ∀ {p c}, f.Contains p c → f.nodes c ≠ none
  hasParent : ∀ {p c}, f.Contains p c → f.parentNode c ≠ none
  branch_lt : ∀ {c p}, f.parentNode c = some p → f.branch c < f.branchCount p
  sibling : ∀ {c d p}, f.parentNode c = some p → f.parentNode d = some p →
    f.branch c = f.branch d → c = d

theorem SameLinks.contains (h : f.SameLinks f') : f'.Contains = f.Contains :=
  funext fun p => funext fun c => by rw [Contains, Contains, h.children]

/-- Parents that list their children depend on the links only. -/
theorem SameLinks.attachedTo (h : f.SameLinks f') (i : ℕ) : f'.attachedTo i = f.attachedTo i := by
  simp only [Forest.attachedTo, h.parentNode, h.children]

/-- A child is attached where it points up and its parent points down. -/
theorem attachedTo_eq_some :
    f.attachedTo c = some p ↔ f.parentNode c = some p ∧ f.Contains p c := by
  simp [attachedTo, Contains, Option.filter_eq_some_iff]

theorem SameLinks.shape (h : f.SameLinks f') (hf : f.Shape) : f'.Shape where
  lt_next hi := by
    rw [h.next]
    exact hf.lt_next fun hnone => hi ((h.alive _).mpr hnone)
  forest := h.contains ▸ hf.forest
  child_alive hc hnone := hf.child_alive (h.contains ▸ hc) ((h.alive _).mp hnone)
  hasParent hc := by
    rw [h.parentNode]
    exact hf.hasParent (h.contains ▸ hc)
  branch_lt hc := by
    rw [h.parentNode] at hc
    rw [h.branch, h.branchCount]
    exact hf.branch_lt hc
  sibling hc hd heq := by
    rw [h.parentNode] at hc hd
    rw [h.branch, h.branch] at heq
    exact hf.sibling hc hd heq

/-- A node with children is there. -/
theorem Shape.parent_alive (h : f.Contains p c) : f.nodes p ≠ none := nodes_ne_none_of_children h

/-- No way down is longer than there are nodes. -/
theorem Shape.heightLt (hf : f.Shape) (hi : f.nodes i ≠ none) : HeightLt f.Contains f.next i := by
  have h := hf.forest.heightLt (i := i) (Finset.range f.next)
    (fun hc => Finset.mem_range.mpr (hf.lt_next (hf.child_alive hc)))
    (Finset.mem_range.mpr (hf.lt_next hi))
  rwa [Finset.card_range] at h

/-! ## A child is added -/

section Joined

variable (hp : f.nodes p ≠ none) (hc : f.nodes c ≠ none) (hne : c ≠ p)

theorem joined_alive : (f.joined p c).nodes j = none ↔ f.nodes j = none := by
  rw [joined, nodes_modify_eq_none, nodes_modify_eq_none]

include hp hc hne

/-- `addChild` before any index is set: a child that has a parent keeps it. -/
theorem node_joined : (f.joined p c).node j =
    if j = c then
      if f.parentNode c = none then
        { f.node c with parentNode := some p, branch := f.branchCount p }
      else f.node c
    else if j = p then
      { f.node p with children := (f.node p).children ++ [c], branchCount := f.branchCount p + 1 }
    else f.node j := by
  rw [joined, node_modify (mt nodes_modify_eq_none.mp hc), node_modify hp, node_modify hp,
    if_neg hne, parentNode_eq]

theorem joined_parentNode : (f.joined p c).parentNode j =
    if j = c ∧ f.parentNode c = none then some p else f.parentNode j := by
  rw [parentNode_eq, node_joined hp hc hne]
  by_cases hjc : j = c
  · subst hjc
    by_cases hroot : f.parentNode j = none
    · simp [hroot]
    · simp [hroot, ← parentNode_eq]
  · by_cases hjp : j = p <;> simp [hjc, hjp, parentNode_eq, Ne.symm hne]

theorem joined_branch : (f.joined p c).branch j =
    if j = c ∧ f.parentNode c = none then f.branchCount p else f.branch j := by
  rw [branch_eq, node_joined hp hc hne]
  by_cases hjc : j = c
  · subst hjc
    by_cases hroot : f.parentNode j = none <;> simp [hroot, branch_eq]
  · by_cases hjp : j = p <;> simp [hjc, hjp, branch_eq, Ne.symm hne]

theorem joined_branchCount : (f.joined p c).branchCount j =
    if j = p then f.branchCount p + 1 else f.branchCount j := by
  rw [branchCount_eq, node_joined hp hc hne]
  by_cases hjc : j = c
  · subst hjc
    by_cases hroot : f.parentNode j = none <;> simp [hroot, hne, branchCount_eq]
  · by_cases hjp : j = p <;> simp [hjc, hjp, branchCount_eq, Ne.symm hne]

theorem joined_children : (f.joined p c).children j =
    if j = p then f.children p ++ [c] else f.children j := by
  rw [children_eq, node_joined hp hc hne]
  by_cases hjc : j = c
  · subst hjc
    by_cases hroot : f.parentNode j = none <;> simp [hroot, hne, children_eq]
  · by_cases hjp : j = p <;> simp [hjc, hjp, children_eq, Ne.symm hne]

theorem joined_treeIndex : (f.joined p c).treeIndex j = f.treeIndex j := by
  rw [treeIndex_eq, node_joined hp hc hne, treeIndex_eq]
  by_cases hjc : j = c
  · subst hjc
    by_cases hroot : f.parentNode j = none <;> simp [hroot]
  · by_cases hjp : j = p <;> simp [hjc, hjp, Ne.symm hne]

/-- The only new child is the one added. -/
theorem joined_contains : (f.joined p c).Contains q d ↔ f.Contains q d ∨ q = p ∧ d = c := by
  rw [Contains, joined_children hp hc hne]
  by_cases hq : q = p
  · subst hq
    simp [Contains]
  · simp [hq, Contains]

/-- Only the child may have another parent than before. -/
theorem joined_attachedTo_of_ne (hdc : d ≠ c) : (f.joined p c).attachedTo d = f.attachedTo d := by
  apply Option.ext
  intro q
  rw [attachedTo_eq_some, attachedTo_eq_some,
    joined_parentNode hp hc hne, joined_contains hp hc hne]
  simp [hdc]

/-- The forest keeps its shape if the child was nobody's and nothing above. -/
theorem Shape.joined (hf : f.Shape) (hfree : ∀ q, ¬ f.Contains q c)
    (hbelow : ¬ Relation.ReflTransGen f.Contains c p) : (f.joined p c).Shape where
  lt_next hi := hf.lt_next fun hnone => hi (joined_alive.mpr hnone)
  forest := (hf.forest.addEdge hfree hbelow).mono fun q d => (joined_contains hp hc hne).mp
  child_alive hd hnone := by
    rcases (joined_contains hp hc hne).mp hd with hd | ⟨-, rfl⟩
    · exact hf.child_alive hd (joined_alive.mp hnone)
    · exact hc (joined_alive.mp hnone)
  hasParent {q d} hd := by
    rw [joined_parentNode hp hc hne]
    by_cases hroot : d = c ∧ f.parentNode c = none
    · simp [hroot]
    · rw [if_neg hroot]
      rcases (joined_contains hp hc hne).mp hd with hd | ⟨-, rfl⟩
      · exact hf.hasParent hd
      · simpa using hroot
  branch_lt {d q} hd := by
    rw [joined_parentNode hp hc hne] at hd
    rw [joined_branch hp hc hne, joined_branchCount hp hc hne]
    split at hd
    · next hroot =>
      obtain rfl := Option.some.inj hd
      simp [hroot]
    · next hroot =>
      have hlt := hf.branch_lt hd
      rw [if_neg hroot]
      split
      · next heq =>
        subst heq
        omega
      · exact hlt
  sibling {d e q} hd he heq := by
    rw [joined_parentNode hp hc hne] at hd he
    rw [joined_branch hp hc hne, joined_branch hp hc hne] at heq
    by_cases hdc : d = c ∧ f.parentNode c = none <;> by_cases hec : e = c ∧ f.parentNode c = none
    · rw [hdc.1, hec.1]
    · rw [if_pos hdc] at hd heq
      rw [if_neg hec] at he heq
      obtain rfl := Option.some.inj hd
      have hlt := hf.branch_lt he
      omega
    · rw [if_neg hdc] at hd heq
      rw [if_pos hec] at he heq
      obtain rfl := Option.some.inj he
      have hlt := hf.branch_lt hd
      omega
    · rw [if_neg hdc] at hd heq
      rw [if_neg hec] at he heq
      exact hf.sibling hd he heq

end Joined

/-! ## The indices are updated -/

/-- Only the indices of the nodes in `X` have changed. -/
structure Reindexes (X : ℕ → Prop) (f f' : Forest) : Prop where
  links : f.SameLinks f'
  frame : ∀ j, ¬ X j → f'.treeIndex j = f.treeIndex j

theorem Reindexes.refl (X : ℕ → Prop) (f : Forest) : Reindexes X f f :=
  ⟨.refl f, fun _ _ => rfl⟩

/-- Indices set one after the other. -/
theorem Reindexes.trans (h : Reindexes X f f') (h' : Reindexes X f' f'') : Reindexes X f f'' :=
  ⟨h.links.trans h'.links, fun j hj => (h'.frame j hj).trans (h.frame j hj)⟩

theorem Reindexes.mono (h : Reindexes X f f') (hXY : ∀ j, X j → Y j) : Reindexes Y f f' :=
  ⟨h.links, fun j hj => h.frame j fun hX => hj (hXY j hX)⟩

/-- One child after the other. What is done for one is not undone for the next. -/
theorem reindexes_foldl (step : Forest → ℕ → Forest) {X : ℕ → ℕ → Prop} {Y : ℕ → Prop}
    (Done : ℕ → Forest → Prop) {l : List ℕ} (hXY : ∀ c ∈ l, ∀ j, X c j → Y j)
    (hstep : ∀ c ∈ l, ∀ f', Reindexes Y f f' →
      Reindexes (X c) f' (step f' c) ∧ Done c (step f' c))
    (hkeep : ∀ c ∈ l, ∀ d ∈ l, c ≠ d → ∀ f' f'', Reindexes (X d) f' f'' → Done c f' → Done c f'') :
    Reindexes Y f (l.foldl step f) ∧ ∀ c ∈ l, Done c (l.foldl step f) := by
  induction l using List.reverseRecOn with
  | nil => exact ⟨.refl Y f, by simp⟩
  | append_singleton l d ih =>
    have hmem : ∀ c ∈ l, c ∈ l ++ [d] := fun c hc => List.mem_append_left _ hc
    have hlast : d ∈ l ++ [d] := List.mem_append_right _ (List.mem_singleton.mpr rfl)
    obtain ⟨hfirst, hdone⟩ := ih (fun c hc => hXY c (hmem c hc)) (fun c hc => hstep c (hmem c hc))
      fun c hc e he => hkeep c (hmem c hc) e (hmem e he)
    rw [List.foldl_concat]
    obtain ⟨hnext, hnew⟩ := hstep d hlast _ hfirst
    refine ⟨hfirst.trans (hnext.mono (hXY d hlast)), fun c hc => ?_⟩
    by_cases heq : c = d
    · exact heq ▸ hnew
    · have hold : c ∈ l := by simpa [heq] using hc
      exact hkeep c hc d hlast heq _ _ hnext (hdone c hold)

/-- `updateTreeIndex` changes the indices of a node and of what is below it. -/
theorem updateTreeIndex_reindexes (hf : f.Shape) (hheight : HeightLt f.Contains n i)
    (hi : f.nodes i ≠ none) (parentTreeIndex : List ℕ) :
    Reindexes (Relation.ReflTransGen f.Contains i) f (updateTreeIndex n parentTreeIndex i f) ∧
      (updateTreeIndex n parentTreeIndex i f).treeIndex i = parentTreeIndex ++ [f.branch i] := by
  induction n generalizing f i parentTreeIndex with
  | zero => exact hheight.elim
  | succ n ih =>
    rw [updateTreeIndex]
    generalize hg : f.modify i (fun node =>
      { node with treeIndex := parentTreeIndex ++ [node.branch] }) = g
    have hlinks : f.SameLinks g := hg ▸ modify_sameLinks i _
    have hindex : ∀ j, g.treeIndex j =
        if j = i then parentTreeIndex ++ [f.branch i] else f.treeIndex j := by
      intro j
      rw [← hg, treeIndex_modify hi, branch_getD]
    have hown : Reindexes (Relation.ReflTransGen f.Contains i) f g := by
      refine ⟨hlinks, fun j hj => ?_⟩
      rw [hindex, if_neg]
      rintro rfl
      exact hj .refl
    -- The children do not change the index of their parent.
    have hbelow := (reindexes_foldl (f := g) (l := g.children i)
      (fun f child => updateTreeIndex n (f.treeIndex i) child f) (fun _ _ => True)
      (X := Relation.ReflTransGen f.Contains) (Y := Relation.TransGen f.Contains i)
      (fun c hc j hj => Relation.TransGen.head' (by rwa [hlinks.children] at hc) hj)
      (fun c hc f' hf' => by
        have hsame := hlinks.trans hf'.links
        have hc' : f.Contains i c := by rwa [hlinks.children] at hc
        have hchild := ih (hsame.shape hf) (i := c) (by rw [hsame.contains]; exact hheight c hc')
          (fun hnone => hf.child_alive hc' ((hsame.alive c).mp hnone)) (f'.treeIndex i)
        exact ⟨hsame.contains ▸ hchild.1, trivial⟩)
      (fun _ _ _ _ _ _ _ _ _ => trivial)).1
    refine ⟨hown.trans (hbelow.mono fun j hj => hj.to_reflTransGen), ?_⟩
    rw [hbelow.frame i (hf.forest.acyclic i), hindex, if_pos rfl]

/-- The indices of the nodes whose parents are in `X`. -/
def IndexedIn (f : Forest) (X : ℕ → Prop) (f' : Forest) : Prop :=
  ∀ {p c}, X p → f.attachedTo c = some p → f'.treeIndex c = f'.treeIndex p ++ [f.branch c]

/-- A parent is not below its child. -/
theorem Shape.not_below_of_attachedTo (hf : f.Shape) (h : f.attachedTo c = some p) :
    ¬ Relation.ReflTransGen f.Contains c p :=
  hf.forest.not_below (attachedTo_eq_some.mp h).2

/-- `setParentNode` of a node that has a parent. -/
theorem setParentNode_reindexes (hf : f.Shape) (hheight : HeightLt f.Contains n i)
    (hparent : f.parentNode i = some q) (parent branch : ℕ) :
    Reindexes (Relation.ReflTransGen f.Contains i) f (setParentNode n parent branch i f) ∧
      f.IndexedIn (Relation.ReflTransGen f.Contains i) (setParentNode n parent branch i f) ∧
      (setParentNode n parent branch i f).treeIndex i = f.treeIndex q ++ [f.branch i] := by
  have hi := nodes_ne_none_of_parentNode hparent
  induction n generalizing f i q parent branch with
  | zero => exact hheight.elim
  | succ n ih =>
    rw [setParentNode]
    simp only [hparent, reduceCtorEq, if_false]
    obtain ⟨hown, hindex⟩ := updateTreeIndex_reindexes hf hheight hi (f.treeIndex q)
    generalize updateTreeIndex (n + 1) (f.treeIndex q) i f = g at hown hindex ⊢
    have hchildren : ∀ {c}, c ∈ g.children i → f.Contains i c := fun hc => by
      rwa [hown.links.children] at hc
    -- A child has the right index as long as nothing above or below it is changed.
    obtain ⟨hbelow, hdone⟩ := reindexes_foldl (f := g) (l := g.children i)
      (fun f child => setParentNode n i (f.branch child) child f)
      (fun c f' => f.IndexedIn (Relation.ReflTransGen f.Contains c) f' ∧
        (f.attachedTo c = some i → f'.treeIndex c = f'.treeIndex i ++ [f.branch c]))
      (X := Relation.ReflTransGen f.Contains) (Y := Relation.TransGen f.Contains i)
      (fun c hc j hj => Relation.TransGen.head' (hchildren hc) hj)
      (fun c hc f' hf' => by
        have hsame := hown.links.trans hf'.links
        obtain ⟨r, hr⟩ := Option.ne_none_iff_exists'.mp (hf.hasParent (hchildren hc))
        obtain ⟨hreindexes, hindexed, hchild⟩ := ih (hsame.shape hf) (i := c) (q := r)
          (by rw [hsame.contains]; exact hheight c (hchildren hc))
          (by rw [hsame.parentNode, hr]) i (f'.branch c)
          (fun hnone => hf.child_alive (hchildren hc) ((hsame.alive c).mp hnone))
        rw [hsame.contains] at hreindexes hindexed
        refine ⟨hreindexes, fun {p d} hp hd => ?_, fun hattached => ?_⟩
        · rw [← hsame.branch]
          exact hindexed hp (by rwa [hsame.attachedTo])
        · obtain rfl := Option.some.inj (hr.symm.trans (attachedTo_eq_some.mp hattached).1)
          rw [hchild, hreindexes.frame r (hf.not_below_of_attachedTo hattached), hsame.branch])
      (fun c hc d hd hne f' f'' hf'' hdone => by
        have hapart : ∀ {j}, Relation.ReflTransGen f.Contains c j →
            f''.treeIndex j = f'.treeIndex j :=
          fun hj => hf''.frame _ (hf.forest.disjoint (hchildren hc) (hchildren hd) hne hj)
        refine ⟨fun {p e} hp he => ?_, fun hattached => ?_⟩
        · rw [hapart hp, hapart (hp.tail (attachedTo_eq_some.mp he).2)]
          exact hdone.1 hp he
        · rw [hapart .refl, hf''.frame i (hf.forest.not_below (hchildren hd))]
          exact hdone.2 hattached)
    refine ⟨hown.trans (hbelow.mono fun j hj => hj.to_reflTransGen), fun {p c} hp hc => ?_, ?_⟩
    · rcases Relation.ReflTransGen.cases_head hp with rfl | ⟨d, hd, hdp⟩
      · exact (hdone c (by rw [hown.links.children]; exact (attachedTo_eq_some.mp hc).2)).2 hc
      · exact (hdone d (by rw [hown.links.children]; exact hd)).1 hdp hc
    · rw [hbelow.frame i (hf.forest.acyclic i), hindex]

/-! ## The invariant -/

/-- A node that is among its parent's children has its index. -/
structure Indexed (f : Forest) : Prop extends Shape f where
  treeIndex : ∀ {c p}, f.attachedTo c = some p → f.treeIndex c = f.treeIndex p ++ [f.branch c]
  root : ∀ {i}, f.parentNode i = none → (f.treeIndex i).length ≤ 1

/-- The parent is set where there is none; then there is no difference. -/
theorem setParentNode_eq_joined (hp : f.nodes p ≠ none) (hc : f.nodes c ≠ none) (hne : c ≠ p) :
    setParentNode (n + 1) p (f.branchCount p) c (f.modify p fun node =>
      { node with children := node.children ++ [c], branchCount := f.branchCount p + 1 }) =
        setParentNode (n + 1) p (f.branchCount p) c (f.joined p c) := by
  generalize hg : f.modify p (fun node =>
    { node with children := node.children ++ [c], branchCount := f.branchCount p + 1 }) = g
  have hjoined : f.joined p c = g.modify c fun node =>
      if node.parentNode = none then { node with parentNode := some p, branch := f.branchCount p }
      else node := by rw [← hg]; rfl
  have hhas : (f.joined p c).parentNode c ≠ none := by
    rw [joined_parentNode hp hc hne]
    by_cases hroot : f.parentNode c = none <;> simp [hroot]
  have hcongr : g.parentNode c = none → f.joined p c = g.modify c fun node =>
      { node with parentNode := some p, branch := f.branchCount p } := by
    intro hroot
    rw [hjoined]
    refine modify_congr fun node hnode => if_pos ?_
    simpa [parentNode, hnode] using hroot
  have hid : g.parentNode c ≠ none → f.joined p c = g := by
    intro hroot
    rw [hjoined]
    refine modify_eq_self fun node hnode => if_neg fun hnone => hroot ?_
    simp [parentNode, hnode, hnone]
  rw [setParentNode, setParentNode, if_neg hhas]
  by_cases hroot : g.parentNode c = none
  · rw [if_pos hroot, hcongr hroot]
  · rw [if_neg hroot, hid hroot]

/-- What is added has the index of its parent, and so has what is below it. -/
theorem Indexed.joined (hf : f.Indexed) (hp : f.nodes p ≠ none) (hc : f.nodes c ≠ none)
    (hfree : ∀ q, ¬ f.Contains q c) (hbelow : ¬ Relation.ReflTransGen f.Contains c p)
    (parent branch : ℕ) : (setParentNode f.next parent branch c (f.joined p c)).Indexed := by
  have hne : c ≠ p := fun heq => hbelow (heq ▸ .refl)
  have hshape := hf.toShape.joined hp hc hne hfree hbelow
  have hcontains : (f.joined p c).Contains p c := (joined_contains hp hc hne).mpr (.inr ⟨rfl, rfl⟩)
  obtain ⟨q, hq⟩ := Option.ne_none_iff_exists'.mp (hshape.hasParent hcontains)
  obtain ⟨hreindexes, hindexed, hchild⟩ := setParentNode_reindexes hshape (n := f.next)
    (hshape.heightLt (mt joined_alive.mp hc)) hq parent branch
  generalize setParentNode f.next parent branch c (f.joined p c) = g at hreindexes hindexed hchild ⊢
  have hlinks := hreindexes.links
  refine { hlinks.shape hshape with treeIndex := ?_, root := ?_ }
  · intro d r hattached
    rw [hlinks.attachedTo] at hattached
    rw [hlinks.branch]
    by_cases hr : Relation.ReflTransGen (f.joined p c).Contains c r
    · exact hindexed hr hattached
    · rw [hreindexes.frame r hr]
      obtain ⟨hparent, hd⟩ := attachedTo_eq_some.mp hattached
      by_cases hdc : d = c
      · subst hdc
        obtain rfl := Option.some.inj (hq.symm.trans hparent)
        exact hchild
      · -- Neither the node nor its parent is below the new child.
        have hdbelow : ¬ Relation.ReflTransGen (f.joined p c).Contains c d :=
          fun h => hr (hshape.forest.below_parent h hdc hd)
        rw [hreindexes.frame d hdbelow, joined_treeIndex hp hc hne, joined_treeIndex hp hc hne,
          joined_branch hp hc hne, if_neg fun h => hdc h.1]
        exact hf.treeIndex (by rwa [joined_attachedTo_of_ne hp hc hne hdc] at hattached)
  · intro i hroot
    rw [hlinks.parentNode] at hroot
    have hi : ¬ Relation.ReflTransGen (f.joined p c).Contains c i := by
      intro h
      rcases Relation.ReflTransGen.cases_tail h with rfl | ⟨r, -, hr⟩
      · exact hshape.hasParent hcontains hroot
      · exact hshape.hasParent hr hroot
    rw [hreindexes.frame i hi, joined_treeIndex hp hc hne]
    refine hf.root ?_
    rw [joined_parentNode hp hc hne] at hroot
    split at hroot
    · cases hroot
    · exact hroot

/-- The subtree of the child is indexed anew, everything else stays. -/
theorem Indexed.addChild (hf : f.Indexed) (hp : f.nodes p ≠ none) (hc : f.nodes c ≠ none)
    (hfree : ∀ q, ¬ f.Contains q c) (hbelow : ¬ Relation.ReflTransGen f.Contains c p)
    (adoptable : Bool) : (f.addChild p c adoptable).Indexed := by
  rw [Forest.addChild]
  split
  · obtain ⟨n, hn⟩ : ∃ n, f.next = n + 1 := ⟨f.next - 1, by have := hf.lt_next hc; omega⟩
    have h := hf.joined hp hc hfree hbelow p (f.branchCount p)
    rw [hn] at h ⊢
    rwa [← setParentNode_eq_joined hp hc fun heq => hbelow (heq ▸ .refl)] at h
  · exact hf

/-! ## A child is removed, or a node is made -/

/-- There may be fewer children and more nodes. -/
structure Loosens (f g : Forest) : Prop where
  lt_next : ∀ i, g.nodes i ≠ none → i < g.next
  alive : ∀ i, f.nodes i ≠ none → g.nodes i ≠ none
  parentNode : ∀ i, g.parentNode i = f.parentNode i
  branch : ∀ i, g.branch i = f.branch i
  branchCount : ∀ i, g.branchCount i = f.branchCount i
  contains : ∀ p c, g.Contains p c → f.Contains p c
  treeIndex : ∀ i, f.nodes i ≠ none → g.treeIndex i = f.treeIndex i
  root : ∀ i, f.nodes i = none → (g.treeIndex i).length ≤ 1

/-- Whatever is cut off, the indices of what is left are right. -/
theorem Indexed.loosens {g : Forest} (hf : f.Indexed) (h : f.Loosens g) : g.Indexed where
  lt_next := h.lt_next _
  forest := hf.forest.mono h.contains
  child_alive hc := h.alive _ (hf.child_alive (h.contains _ _ hc))
  hasParent hc := by
    rw [h.parentNode]
    exact hf.hasParent (h.contains _ _ hc)
  branch_lt hc := by
    rw [h.parentNode] at hc
    rw [h.branch, h.branchCount]
    exact hf.branch_lt hc
  sibling hc hd heq := by
    rw [h.parentNode] at hc hd
    rw [h.branch, h.branch] at heq
    exact hf.sibling hc hd heq
  treeIndex hattached := by
    obtain ⟨hparent, hc⟩ := attachedTo_eq_some.mp hattached
    have hold := h.contains _ _ hc
    rw [h.parentNode] at hparent
    rw [h.treeIndex _ (hf.child_alive hold), h.treeIndex _ (Shape.parent_alive hold), h.branch]
    exact hf.treeIndex (attachedTo_eq_some.mpr ⟨hparent, hold⟩)
  root {i} hroot := by
    rw [h.parentNode] at hroot
    by_cases hi : f.nodes i = none
    · exact h.root i hi
    · rw [h.treeIndex i hi]
      exact hf.root hroot

/-- The child keeps its old index, and is no longer attached. -/
theorem Indexed.removeChild (hf : f.Indexed) (p c : ℕ) : (f.removeChild p c).Indexed := by
  rw [Forest.removeChild]
  split
  · next hmem =>
    have hp := nodes_ne_none_of_children hmem
    refine hf.loosens
      { lt_next := fun i hi => hf.lt_next fun hnone => hi (nodes_modify_eq_none.mpr hnone)
        alive := fun i hi => mt nodes_modify_eq_none.mp hi
        parentNode := fun i => ?_
        branch := fun i => ?_
        branchCount := fun i => ?_
        contains := fun q d hd => ?_
        treeIndex := fun i _ => ?_
        root := fun i hi => ?_ }
    · rw [parentNode_eq, parentNode_eq, node_modify hp]
      split <;> simp [*]
    · rw [branch_eq, branch_eq, node_modify hp]
      split <;> simp [*]
    · rw [branchCount_eq, branchCount_eq, node_modify hp]
      split <;> simp [*]
    · rw [Contains, children_eq, node_modify hp] at hd
      rw [Contains, children_eq]
      split at hd
      · next heq => exact heq ▸ List.mem_of_mem_filter hd
      · exact hd
    · rw [treeIndex_eq, treeIndex_eq, node_modify hp]
      split <;> simp [*]
    · simp [Forest.treeIndex, nodes_modify_eq_none.mpr hi]
  · exact hf

/-- A node without a parent has no index. -/
theorem Indexed.createNode (hf : f.Indexed) (isModel : Bool) : (f.createNode isModel).Indexed := by
  have hnext : f.nodes f.next = none := by
    by_contra hi
    exact absurd (hf.lt_next hi) (Nat.lt_irrefl _)
  refine hf.loosens
    { lt_next := fun i hi => ?_
      alive := fun i hi => ?_
      parentNode := fun i => ?_
      branch := fun i => ?_
      branchCount := fun i => ?_
      contains := fun q d hd => ?_
      treeIndex := fun i hi => ?_
      root := fun i hi => ?_ }
  · by_cases heq : i = f.next
    · exact heq ▸ Nat.lt_succ_self _
    · have hlt := hf.lt_next (i := i) (by simpa [Forest.createNode, heq] using hi)
      exact hlt.trans (Nat.lt_succ_self _)
  · by_cases heq : i = f.next <;> simp [Forest.createNode, heq, hi]
  · by_cases heq : i = f.next <;> simp [Forest.createNode, Forest.parentNode, heq, hnext]
  · by_cases heq : i = f.next <;> simp [Forest.createNode, Forest.branch, heq, hnext]
  · by_cases heq : i = f.next <;> simp [Forest.createNode, Forest.branchCount, heq, hnext]
  · by_cases heq : q = f.next
    · simp [Forest.createNode, Contains, Forest.children, heq] at hd
    · simpa [Forest.createNode, Contains, Forest.children, heq] using hd
  · have heq : i ≠ f.next := fun heq => hi (heq ▸ hnext)
    simp [Forest.createNode, Forest.treeIndex, heq]
  · by_cases heq : i = f.next
    · cases isModel <;> simp [Forest.createNode, Forest.treeIndex, heq]
    · simp [Forest.createNode, Forest.treeIndex, heq, hi]

/-- Each action keeps the indices of the attached nodes. -/
theorem indexed_step {a : ForestAction} (hf : f.Indexed) (hstep : ForestStep f a f') :
    f'.Indexed := by
  cases hstep with
  | createNode isModel => exact hf.createNode isModel
  | addChild adoptable hparent hchild hfree hbelow =>
    exact hf.addChild hparent hchild hfree hbelow adoptable
  | removeChild parent child => exact hf.removeChild parent child

/-- **In every run, a node that is among its parent's children has its index.** -/
theorem indexed_of_reach (hf : forestSystem.Reach f) : f.Indexed := by
  have hinductive : forestSystem.InductiveBy (fun _ _ => True) Indexed := by
    refine ⟨fun {s} hs => ?_, fun hs _ hstep => indexed_step hs hstep⟩
    obtain rfl : s = {} := hs
    have hchildren : ∀ p c, ¬ Contains {} p c := by simp [Contains, children]
    exact { lt_next := by simp
            forest := ⟨fun h => (hchildren _ _ h).elim, fun i hi => by
              obtain ⟨j, hj, -⟩ := Relation.TransGen.head'_iff.mp hi
              exact hchildren _ _ hj⟩
            child_alive := fun h => (hchildren _ _ h).elim
            hasParent := fun h => (hchildren _ _ h).elim
            branch_lt := by simp [parentNode]
            sibling := by simp [parentNode]
            treeIndex := by simp [attachedTo, parentNode]
            root := by simp [treeIndex] }
  exact hinductive.reach hf

/-! ## What the indices say -/

/-- The indices are addresses: each extends that of its parent by a branch of its own. -/
theorem Indexed.addressed (hf : f.Indexed) : Addressed f.attachedTo f.treeIndex where
  child h := ⟨_, hf.treeIndex h⟩
  sibling ha hb heq := by
    refine hf.sibling (attachedTo_eq_some.mp ha).1 (attachedTo_eq_some.mp hb).1 ?_
    rw [hf.treeIndex ha, hf.treeIndex hb] at heq
    simpa using heq

/-- Following the parents leads to nothing else than to the nodes that have the one as a child. -/
theorem IsAttached.isAncestor_iff (h : f.IsAttached r a) :
    f.IsAncestor c a ↔ Up f.attachedTo a c := by
  constructor
  · intro hup
    have hattached := h.way
    induction hup using Relation.ReflTransGen.head_induction_on with
    | refl => exact .refl
    | @head i p hparent hrest ih =>
      rcases Relation.ReflTransGen.cases_head hattached with rfl | ⟨q, hq, hqr⟩
      · rw [h.root] at hparent
        cases hparent
      · obtain rfl := Option.some.inj ((attachedTo_eq_some.mp hq).1.symm.trans hparent)
        exact (ih ⟨h.root, h.index, hqr⟩ hqr).head hq
  · exact fun hup => Relation.ReflTransGen.mono (fun _ _ hp => (attachedTo_eq_some.mp hp).1) _ _ hup

/-- A node below a root has at least one branch in its index. -/
theorem IsAttached.treeIndex_ne_nil (hf : f.Indexed) (h : f.IsAttached r a) :
    f.treeIndex a ≠ [] := by
  intro hnil
  have hprefix := hf.addressed.prefix_of_up h.way
  rw [hnil, List.prefix_nil] at hprefix
  exact h.index hprefix

/-- An index is the beginning of another one if its node is the other or above it. -/
theorem IsAttached.prefix_iff (hf : f.Indexed) (ha : f.IsAttached r a) (hb : f.IsAttached r b) :
    f.treeIndex a <+: f.treeIndex b ↔ f.IsAncestor a b := by
  rw [hb.isAncestor_iff, hf.addressed.up_iff_prefix ha.way hb.way, commonLength_eq_iff_prefix]

/-- A prefix of the index means an ancestor, or the node itself. -/
theorem IsAttached.ancestorOf_iff (hf : f.Indexed) (ha : f.IsAttached r a)
    (hb : f.IsAttached r b) : f.ancestorOf a b = true ↔ f.IsAncestor a b := by
  rw [← ha.prefix_iff hf hb]
  simp only [ancestorOf, Bool.or_eq_true, decide_eq_true_eq, Bool.and_eq_true,
    List.isPrefixOf_iff_prefix]
  constructor
  · rintro (rfl | ⟨-, hprefix⟩)
    · exact List.prefix_rfl
    · exact hprefix
  · exact fun hprefix => .inr ⟨⟨ha.treeIndex_ne_nil hf, hb.treeIndex_ne_nil hf⟩, hprefix⟩

/-- A proper prefix means a proper descendant. -/
theorem IsAttached.isDescendantOf_iff (hf : f.Indexed) (ha : f.IsAttached r a)
    (hb : f.IsAttached r b) : f.isDescendantOf a b = true ↔ a ≠ b ∧ f.IsAncestor b a := by
  rw [← hb.prefix_iff hf ha]
  simp [isDescendantOf, List.isPrefixOf_iff_prefix, ha.treeIndex_ne_nil hf, hb.treeIndex_ne_nil hf]

/-- The depth is the number of the nodes on the way up. -/
theorem IsAttached.exists_steps (hf : f.Indexed) (h : f.IsAttached r a) :
    ∃ n, up f.parentNode n a = some r ∧ f.getDepth a = n + 1 := by
  obtain ⟨n, hn, hlength⟩ := hf.addressed.exists_steps h.way
  refine ⟨n, up_mono (fun _ _ hp => (attachedTo_eq_some.mp hp).1) hn, ?_⟩
  have hroot := hf.root h.root
  have hpos := List.length_pos_iff.mpr h.index
  rw [getDepth, hlength]
  omega

/-- The three functions agree with the parents for attached nodes. -/
theorem indexLaw_of_isAttached (hf : f.Indexed) (ha : f.IsAttached r a) (hb : f.IsAttached r b) :
    f.IndexLaw r a b :=
  ⟨fun _ => ha.ancestorOf_iff hf hb, ha.isDescendantOf_iff hf hb, ha.exists_steps hf⟩

/-! ## The top entities -/

/-- An entity is covered by a node above it, or an edge by a node above both of its ends. -/
theorem gotParent_iff {x y : SelectedEntity} (hf : f.Indexed) (hx : f.IsAttachedEntity r x)
    (hy : f.IsAttachedEntity r y) : f.gotParent x y = true ↔ f.Covers x y := by
  cases x with
  | edge => simp [gotParent, Covers]
  | node i =>
    cases y with
    | node j => exact hx.ancestorOf_iff hf hy
    | edge source destination =>
      simp only [gotParent, isAncestorOf, Covers, Bool.or_eq_true,
        hx.ancestorOf_iff hf hy.1, hx.ancestorOf_iff hf hy.2]

/-- A node that is not before another one covers it only if it is the other one. -/
theorem covers_of_not_isBefore {x y : SelectedEntity} (hf : f.Indexed) (hx : f.IsAttachedEntity r x)
    (hbefore : f.isBefore y x = false) (h : f.Covers y x) : f.Covers x y := by
  cases y with
  | edge => exact h.elim
  | node j =>
    cases x with
    | edge => simp [isBefore] at hbefore
    | node i =>
      have hup := hx.isAncestor_iff.mp h
      have hdepth : f.getDepth i ≤ f.getDepth j := by simpa [isBefore] using hbefore
      obtain rfl := hf.addressed.eq_of_up hup hdepth
      exact h

/-- What is left of a selection are the entities that no other one covers. -/
theorem topLaw_of_getOrderedEntities {entities topEntities : List SelectedEntity} (hf : f.Indexed)
    (hentities : ∀ x ∈ entities, f.IsAttachedEntity r x)
    (h : f.GetOrderedEntities entities topEntities) : f.TopLaw entities topEntities := by
  obtain ⟨sorted, hperm, hsorted, rfl⟩ := h
  have hattached : ∀ x ∈ sorted, f.IsAttachedEntity r x :=
    fun x hx => hentities x (hperm.mem_iff.mp hx)
  have htop : ∀ x ∈ uncovered f.gotParent sorted, f.IsAttachedEntity r x :=
    fun x hx => hattached x (uncovered_subset _ sorted hx)
  have hlate : sorted.Pairwise fun a b => f.gotParent b a → f.gotParent a b := by
    refine hsorted.imp_of_mem fun {x y} hx hy hbefore hcovers => ?_
    rw [gotParent_iff hf (hattached y hy) (hattached x hx)] at hcovers
    rw [gotParent_iff hf (hattached x hx) (hattached y hy)]
    exact covers_of_not_isBefore hf (hattached x hx) hbefore hcovers
  refine ⟨fun x hx => hperm.mem_iff.mp (uncovered_subset _ sorted hx), ?_, fun x hx => ?_⟩
  · refine (pairwise_uncovered hlate).imp_of_mem fun {x y} hx hy hnot => ⟨?_, ?_⟩
    · rw [← gotParent_iff hf (htop x hx) (htop y hy), hnot.1]
      exact Bool.false_ne_true
    · rw [← gotParent_iff hf (htop y hy) (htop x hx), hnot.2]
      exact Bool.false_ne_true
  · have hmem := hperm.mem_iff.mpr hx
    obtain ⟨top, hkept, hcovers⟩ := exists_covers f.gotParent sorted x hmem
    exact ⟨top, hkept, hcovers.imp_right (gotParent_iff hf (htop top hkept) (hattached x hmem)).mp⟩

/-- **In every run, the indices and the parents say the same** about the nodes of a tree, each of
which is among its parent's children. -/
theorem treeIndex_law (f : Forest) (hf : forestSystem.Reach f) (r : ℕ) :
    (∀ a b, f.IsAttached r a → f.IsAttached r b → f.IndexLaw r a b) ∧
      ∀ entities topEntities, (∀ x ∈ entities, f.IsAttachedEntity r x) →
        f.GetOrderedEntities entities topEntities → f.TopLaw entities topEntities :=
  ⟨fun _ _ => indexLaw_of_isAttached (indexed_of_reach hf),
    fun _ _ => topLaw_of_getOrderedEntities (indexed_of_reach hf)⟩

/-! ## Runs on four nodes -/

theorem reach_createNode (hf : forestSystem.Reach f) (isModel : Bool) :
    forestSystem.Reach (f.createNode isModel) :=
  hf.next (.createNode isModel) (.createNode isModel)

theorem reach_removeChild (hf : forestSystem.Reach f) (p c : ℕ) :
    forestSystem.Reach (f.removeChild p c) :=
  hf.next (.removeChild p c) (.removeChild p c)

/-- All that is below the child is in `below`, and the parent is not. -/
theorem reach_addChild (hf : forestSystem.Reach f) (p c : ℕ) (below : List ℕ)
    (h : (f.nodes p ≠ none ∧ f.nodes c ≠ none) ∧ (∀ q < f.next, c ∉ f.children q) ∧
      c ∈ below ∧ p ∉ below ∧ ∀ i ∈ below, ∀ j ∈ f.children i, j ∈ below) :
    forestSystem.Reach (f.addChild p c true) := by
  obtain ⟨⟨hp, hc⟩, hfree, hmem, hnot, hclosed⟩ := h
  have hfree' : ∀ q, c ∉ f.children q := fun q hq =>
    hfree q ((indexed_of_reach hf).lt_next (nodes_ne_none_of_children hq)) hq
  have hstay : ∀ j, Relation.ReflTransGen f.Contains c j → j ∈ below := by
    intro j hj
    induction hj with
    | refl => exact hmem
    | tail _ hstep ih => exact hclosed _ ih _ hstep
  exact hf.next (.addChild p c true)
    (.addChild true hp hc hfree' fun hbelow => hnot (hstay p hbelow))

/-- A model and three nodes. -/
def fourNodes : Forest :=
  (((createNode {} true).createNode false).createNode false).createNode false

theorem reach_fourNodes : forestSystem.Reach fourNodes :=
  reach_createNode (reach_createNode (reach_createNode (reach_createNode (.init rfl) true) false)
    false) false

/-- The model has a child that has another one. -/
def threeLevels : Forest := (fourNodes.addChild 1 2 true).addChild 0 1 true

theorem reach_threeLevels : forestSystem.Reach threeLevels :=
  reach_addChild (reach_addChild reach_fourNodes 1 2 [2] (by decide +kernel)) 0 1 [1, 2]
    (by decide +kernel)

theorem treeIndex_law_threeLevels : threeLevels.IndexLaw 0 1 2 ∧
    threeLevels.TopLaw [.node 2, .edge 2 0, .node 1] [.node 1] := by
  have h0 : threeLevels.IsAttached 0 0 := ⟨by decide +kernel, by decide +kernel, .refl⟩
  have h1 : threeLevels.IsAttached 0 1 := ⟨h0.root, h0.index, .single (by decide +kernel)⟩
  have h2 : threeLevels.IsAttached 0 2 := ⟨h0.root, h0.index, .head (by decide +kernel) h1.way⟩
  have hlaw := treeIndex_law threeLevels reach_threeLevels 0
  refine ⟨hlaw.1 1 2 h1 h2, hlaw.2 _ _ ?_ ?_⟩
  · rintro x hx
    simp only [List.mem_cons, List.not_mem_nil, or_false] at hx
    rcases hx with rfl | rfl | rfl
    · exact h2
    · exact ⟨h2, h0⟩
    · exact h1
  · exact ⟨[.node 1, .node 2, .edge 2 0], by decide, by decide +kernel, by decide +kernel⟩

/-- The third node is taken from the first one and added to the second one. Then both are added to
the model. -/
def movedChild : Forest :=
  ((((fourNodes.addChild 1 3 true).removeChild 1 3).addChild 2 3 true).addChild 0 2 true).addChild
    0 1 true

theorem reach_movedChild : forestSystem.Reach movedChild :=
  reach_addChild (reach_addChild (reach_addChild (reach_removeChild
    (reach_addChild reach_fourNodes 1 3 [3] (by decide +kernel)) 1 3) 2 3 [3] (by decide +kernel))
      0 2 [2, 3] (by decide +kernel)) 0 1 [1] (by decide +kernel)

theorem movedChild_parentNode : movedChild.parentNode 0 = none ∧
    movedChild.parentNode 1 = some 0 ∧ movedChild.parentNode 3 = some 1 := by
  decide +kernel

/-- **Its parent is still the first one, and its index is that of the model.** With both of them
selected, the first one is left out. -/
theorem not_treeIndex_law : forestSystem.Reach movedChild ∧
    (movedChild.children 0 = [2, 1] ∧ movedChild.children 2 = [3]) ∧
    (movedChild.IsAncestor 0 3 ∧ movedChild.treeIndex 0 = [0] ∧ movedChild.treeIndex 3 = [0]) ∧
    (movedChild.ancestorOf 3 1 = true ∧ ¬ movedChild.IsAncestor 3 1) ∧
    (movedChild.isDescendantOf 1 3 = true ∧ ¬ movedChild.IndexLaw 0 1 3) ∧
    (movedChild.GetOrderedEntities [.node 1, .node 3] [.node 3] ∧
      ¬ movedChild.TopLaw [.node 1, .node 3] [.node 3]) ∧
    (movedChild.ancestorOf 0 0 = true ∧ movedChild.isDescendantOf 0 0 = false) := by
  obtain ⟨h0, h1, h3⟩ := movedChild_parentNode
  have hnot : ¬ movedChild.IsAncestor 3 1 := by
    intro hup
    rcases Relation.ReflTransGen.cases_head hup with heq | ⟨p, hp, hrest⟩
    · cases heq
    · obtain rfl := Option.some.inj (h1.symm.trans hp)
      rcases Relation.ReflTransGen.cases_head hrest with heq | ⟨q, hq, -⟩
      · cases heq
      · rw [h0] at hq
        cases hq
  refine ⟨reach_movedChild, by decide +kernel, ⟨.head h3 (.single h1), by decide +kernel,
    by decide +kernel⟩, ⟨by decide +kernel, hnot⟩, ⟨by decide +kernel, fun hlaw => hnot ?_⟩,
    ⟨⟨[.node 3, .node 1], by decide, by decide +kernel, by decide +kernel⟩, fun hlaw => ?_⟩,
    by decide +kernel⟩
  · exact (hlaw.isDescendantOf.mp (by decide +kernel)).2
  · obtain ⟨top, hmem, hcovers⟩ := hlaw.covered (.node 1) (by simp)
    obtain rfl := List.mem_singleton.mp hmem
    rcases hcovers with heq | hcovers
    · cases heq
    · exact hnot hcovers

end Forest

end Sem.Medea

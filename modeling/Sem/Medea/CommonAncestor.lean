import Sem.Medea.NodeTree

/-!
# The common ancestor of two nodes

* `tree_of_reach`: in every run, a node has the index of its parent with its own branch.
* `getCommonAncestor_eq`: what `getCommonAncestor` finds for nodes of one tree.
* `commonAncestorLaw_iff`: it is the deepest common ancestor in both orders exactly if neither node is
  an ancestor of the other.
* `not_commonAncestorLaw`: a model and its child.
-/

namespace Sem.Medea

namespace Forest

variable {f f' f'' : Forest} {T : ℕ → List ℕ} {X Y : ℕ → Prop} {n a b c d p i j : ℕ}

/-! ## Changes of indices -/

/-- The forests differ in indices only. -/
structure SameLinks (f f' : Forest) : Prop where
  alive : ∀ i, f'.nodes i = none ↔ f.nodes i = none
  next : f'.next = f.next
  parentNode : ∀ i, f'.parentNode i = f.parentNode i
  branch : ∀ i, f'.branch i = f.branch i
  branchCount : ∀ i, f'.branchCount i = f.branchCount i
  children : ∀ i, f'.children i = f.children i

theorem SameLinks.refl (f : Forest) : f.SameLinks f :=
  ⟨fun _ => Iff.rfl, rfl, fun _ => rfl, fun _ => rfl, fun _ => rfl, fun _ => rfl⟩

theorem SameLinks.trans (h : f.SameLinks f') (h' : f'.SameLinks f'') : f.SameLinks f'' where
  alive i := (h'.alive i).trans (h.alive i)
  next := h'.next.trans h.next
  parentNode i := (h'.parentNode i).trans (h.parentNode i)
  branch i := (h'.branch i).trans (h.branch i)
  branchCount i := (h'.branchCount i).trans (h.branchCount i)
  children i := (h'.children i).trans (h.children i)

/-- Links are right or wrong whatever the indices are. -/
theorem SameLinks.links (h : f.SameLinks f') (hf : f.Links) : f'.Links where
  lt_next hi := by
    rw [h.next]
    exact hf.lt_next fun hnone => hi ((h.alive _).mpr hnone)
  parent_lt hc := hf.parent_lt (by rwa [h.parentNode] at hc)
  mem_children := by
    intro c p
    rw [h.children, h.parentNode]
    exact hf.mem_children

/-- So are ancestors. -/
theorem SameLinks.isAncestor (h : f.SameLinks f') : f'.IsAncestor c a ↔ f.IsAncestor c a := by
  have hparent : f'.parentNode = f.parentNode := funext h.parentNode
  rw [IsAncestor, hparent]
  rfl

theorem modify_sameLinks (i : ℕ) (index : TreeNode → List ℕ) :
    f.SameLinks (f.modify i fun node => { node with treeIndex := index node }) where
  alive j := by
    by_cases hj : j = i
    · subst hj
      simp [modify]
    · simp [modify, hj]
  next := rfl
  parentNode j := by
    by_cases hj : j = i
    · subst hj
      cases hnode : f.nodes j <;> simp [modify, parentNode, hnode]
    · simp [modify, parentNode, hj]
  branch j := by
    by_cases hj : j = i
    · subst hj
      cases hnode : f.nodes j <;> simp [modify, branch, hnode]
    · simp [modify, branch, hj]
  branchCount j := by
    by_cases hj : j = i
    · subst hj
      cases hnode : f.nodes j <;> simp [modify, branchCount, hnode]
    · simp [modify, branchCount, hj]
  children j := by
    by_cases hj : j = i
    · subst hj
      cases hnode : f.nodes j <;> simp [modify, children, hnode]
    · simp [modify, children, hj]

/-- The nodes in `X` get the index that `T` has for them, and those that have it keep it. -/
structure Settles (T : ℕ → List ℕ) (X : ℕ → Prop) (f f' : Forest) : Prop where
  links : f.SameLinks f'
  keeps : ∀ j, f.treeIndex j = T j → f'.treeIndex j = T j
  settles : ∀ j, X j → f'.treeIndex j = T j

theorem Settles.refl (T : ℕ → List ℕ) (f : Forest) : Settles T (fun _ => False) f f :=
  ⟨.refl f, fun _ h => h, fun _ h => h.elim⟩

/-- What is settled stays so. -/
theorem Settles.trans (h : Settles T X f f') (h' : Settles T Y f' f'') :
    Settles T (fun j => X j ∨ Y j) f f'' where
  links := h.links.trans h'.links
  keeps j hj := h'.keeps j (h.keeps j hj)
  settles j hj := hj.elim (fun hX => h'.keeps j (h.settles j hX)) (h'.settles j)

theorem Settles.mono (h : Settles T X f f') (hXY : ∀ j, Y j → X j) : Settles T Y f f' :=
  ⟨h.links, h.keeps, fun j hj => h.settles j (hXY j hj)⟩

/-- One child after the other. -/
theorem settles_foldl {g : Forest → ℕ → Forest} {X : ℕ → ℕ → Prop} {l : List ℕ}
    (h : ∀ c ∈ l, ∀ f', Settles T (fun _ => False) f f' → Settles T (X c) f' (g f' c)) :
    Settles T (fun j => ∃ c ∈ l, X c j) f (l.foldl g f) := by
  induction l generalizing f with
  | nil => exact (Settles.refl T f).mono (by simp)
  | cons c l ih =>
    have hfirst := h c List.mem_cons_self f (.refl T f)
    have hrest := ih (f := g f c) fun d hd f' hf' =>
      h d (List.mem_cons_of_mem c hd) f' ((hfirst.trans hf').mono (by simp))
    refine (hfirst.trans hrest).mono fun j hj => ?_
    obtain ⟨d, hd, hX⟩ := hj
    rcases List.mem_cons.mp hd with rfl | hd
    · exact .inl hX
    · exact .inr ⟨d, hd, hX⟩

/-- The indices of a tree. -/
def Indices (f : Forest) (T : ℕ → List ℕ) : Prop :=
  ∀ {c p}, f.parentNode c = some p → T c = T p ++ [f.branch c]

theorem SameLinks.indices (h : f.SameLinks f') (hT : f.Indices T) : f'.Indices T := by
  intro c p hparent
  rw [h.parentNode] at hparent
  rw [h.branch]
  exact hT hparent

/-- A node is below another one if it is the node or below a child. -/
theorem Links.isAncestor_iff (hf : f.Links) :
    f.IsAncestor i j ↔ j = i ∨ ∃ c ∈ f.children i, f.IsAncestor c j := by
  constructor
  · intro h
    rcases Relation.ReflTransGen.cases_tail h with heq | ⟨c, hc, hparent⟩
    · exact .inl heq.symm
    · exact .inr ⟨c, hf.mem_children.mpr hparent, hc⟩
  · rintro (rfl | ⟨c, hc, h⟩)
    · exact .refl
    · exact h.tail (hf.mem_children.mp hc)

theorem treeIndex_modify {index : TreeNode → List ℕ} (hi : f.nodes i ≠ none) :
    (f.modify i fun node => { node with treeIndex := index node }).treeIndex j =
      if j = i then index ((f.nodes i).getD {}) else f.treeIndex j := by
  obtain ⟨node, hnode⟩ := Option.ne_none_iff_exists'.mp hi
  by_cases hj : j = i
  · subst hj
    simp [modify, treeIndex, hnode]
  · simp [modify, treeIndex, hj]

theorem branch_getD (i : ℕ) : ((f.nodes i).getD {}).branch = f.branch i := by
  cases hnode : f.nodes i <;> simp [branch, hnode]

/-- `updateTreeIndex` of a node reaches all below it. -/
theorem updateTreeIndex_settles (hf : f.Links) (hT : f.Indices T) (hfuel : f.next ≤ n + i)
    (hi : f.nodes i ≠ none) (parentTreeIndex : List ℕ)
    (hindex : T i = parentTreeIndex ++ [f.branch i]) :
    Settles T (f.IsAncestor i) f (updateTreeIndex n parentTreeIndex i f) := by
  induction n generalizing f i parentTreeIndex with
  | zero =>
    have := hf.lt_next hi
    omega
  | succ n ih =>
    rw [updateTreeIndex]
    generalize hg : f.modify i (fun node =>
      { node with treeIndex := parentTreeIndex ++ [node.branch] }) = g
    have hown : Settles T (· = i) f g := by
      have htree : ∀ j, g.treeIndex j = if j = i then T i else f.treeIndex j := by
        intro j
        rw [← hg, treeIndex_modify hi, branch_getD, hindex]
      refine ⟨hg ▸ modify_sameLinks i _, fun j hj => ?_, fun j hj => ?_⟩
      · rw [htree]
        split
        · next heq => rw [heq]
        · exact hj
      · rw [htree, if_pos hj, hj]
    have hbelow := settles_foldl (T := T) (f := g) (l := g.children i)
      (g := fun f child => updateTreeIndex n (f.treeIndex i) child f) (X := f.IsAncestor)
      fun c hc f' hf' => by
        have hlinks := hown.links.trans hf'.links
        have hparent : f.parentNode c = some i := by
          rw [hown.links.children] at hc
          exact hf.mem_children.mp hc
        have hchild := ih (hlinks.links hf) (hlinks.indices hT) (i := c)
          (by rw [hlinks.next]; have := hf.parent_lt hparent; omega)
          (fun hnone => nodes_ne_none_of_parentNode hparent ((hlinks.alive c).mp hnone))
          (f'.treeIndex i)
          (by rw [hf'.keeps i (hown.settles i rfl), hlinks.branch]; exact hT hparent)
        exact hchild.mono fun j hj => hlinks.isAncestor.mpr hj
    refine (hown.trans hbelow).mono fun j hj => ?_
    rw [hown.links.children]
    exact (hf.isAncestor_iff).mp hj

/-- `setParentNode` of a node that has a parent. -/
theorem setParentNode_settles (hf : f.Links) (hT : f.Indices T) (hfuel : f.next ≤ n + i)
    (hparent : f.parentNode i = some p) (hp : f.treeIndex p = T p) (parent branch : ℕ) :
    Settles T (f.IsAncestor i) f (setParentNode n parent branch i f) := by
  have hi := nodes_ne_none_of_parentNode hparent
  induction n generalizing f i p parent branch with
  | zero =>
    have := hf.lt_next hi
    omega
  | succ n ih =>
    rw [setParentNode]
    simp only [hparent, reduceCtorEq, if_false]
    have hupdate := updateTreeIndex_settles hf hT hfuel hi _
      (by rw [hp]; exact hT hparent : T i = f.treeIndex p ++ [f.branch i])
    generalize updateTreeIndex (n + 1) (f.treeIndex p) i f = g at hupdate ⊢
    have hbelow := settles_foldl (T := T) (f := g) (l := g.children i)
      (g := fun f child => setParentNode n i (f.branch child) child f) (X := fun _ _ => False)
      fun c hc f' hf' => by
        have hlinks := hupdate.links.trans hf'.links
        have hchild : f.parentNode c = some i := by
          rw [hupdate.links.children] at hc
          exact hf.mem_children.mp hc
        have hparent' : f'.parentNode c = some i := by rw [hlinks.parentNode, hchild]
        refine (ih (hlinks.links hf) (hlinks.indices hT) (i := c)
          (by rw [hlinks.next]; have := hf.parent_lt hchild; omega) hparent'
          (hf'.keeps i (hupdate.settles i .refl)) i _ (nodes_ne_none_of_parentNode hparent')).mono
            fun _ hfalse => hfalse.elim
    exact (hupdate.trans hbelow).mono fun j hj => .inl hj

/-! ## A child is added -/

/-- A node is made a child, but has no index yet. -/
def linked (f : Forest) (p c : ℕ) : Forest :=
  let branch := f.branchCount p
  (f.modify p fun node =>
    { node with children := node.children ++ [c], branchCount := branch + 1 }).modify c
      fun node => { node with parentNode := some p, branch := branch }

section Linked

variable (hf : f.Tree) (hp : f.nodes p ≠ none) (hc : f.nodes c ≠ none)
  (hroot : f.parentNode c = none) (hlt : p < c)

include hlt

/-- `addChild` before any index is set. -/
theorem linked_nodes : (f.linked p c).nodes j =
    if j = c then (f.nodes c).map fun node =>
      { node with parentNode := some p, branch := f.branchCount p }
    else if j = p then (f.nodes p).map fun node =>
      { node with children := node.children ++ [c], branchCount := f.branchCount p + 1 }
    else f.nodes j := by
  have hne : c ≠ p := by omega
  simp only [linked, modify, if_neg hne]

theorem linked_alive : (f.linked p c).nodes j = none ↔ f.nodes j = none := by
  rw [linked_nodes hlt]
  split
  · next heq => simp [heq]
  · split
    · next heq => simp [heq]
    · rfl

include hp hc

theorem linked_parentNode : (f.linked p c).parentNode j = if j = c then some p else f.parentNode j := by
  obtain ⟨child, hchild⟩ := Option.ne_none_iff_exists'.mp hc
  obtain ⟨parent, hparent⟩ := Option.ne_none_iff_exists'.mp hp
  rw [parentNode, linked_nodes hlt]
  split
  · simp [hchild]
  · split
    · next heq => simp [parentNode, heq, hparent]
    · rfl

theorem linked_branch :
    (f.linked p c).branch j = if j = c then f.branchCount p else f.branch j := by
  obtain ⟨child, hchild⟩ := Option.ne_none_iff_exists'.mp hc
  obtain ⟨parent, hparent⟩ := Option.ne_none_iff_exists'.mp hp
  rw [branch, linked_nodes hlt]
  split
  · simp [hchild]
  · split
    · next heq => simp [branch, heq, hparent]
    · rfl

theorem linked_branchCount :
    (f.linked p c).branchCount j = if j = p then f.branchCount p + 1 else f.branchCount j := by
  obtain ⟨child, hchild⟩ := Option.ne_none_iff_exists'.mp hc
  obtain ⟨parent, hparent⟩ := Option.ne_none_iff_exists'.mp hp
  rw [branchCount, linked_nodes hlt]
  by_cases hjc : j = c
  · subst hjc
    have hne : j ≠ p := by omega
    simp [branchCount, hchild, hne]
  · by_cases hjp : j = p
    · subst hjp
      simp [hjc, hparent]
    · simp [hjc, hjp, branchCount]

theorem linked_children :
    (f.linked p c).children j = if j = p then f.children p ++ [c] else f.children j := by
  obtain ⟨child, hchild⟩ := Option.ne_none_iff_exists'.mp hc
  obtain ⟨parent, hparent⟩ := Option.ne_none_iff_exists'.mp hp
  rw [children, linked_nodes hlt]
  by_cases hjc : j = c
  · subst hjc
    have hne : j ≠ p := by omega
    simp [children, hchild, hne]
  · by_cases hjp : j = p
    · subst hjp
      simp [hjc, hparent, children]
    · simp [hjc, hjp, children]

theorem linked_treeIndex : (f.linked p c).treeIndex j = f.treeIndex j := by
  rw [treeIndex, treeIndex, linked_nodes hlt]
  split
  · next heq =>
    subst heq
    cases f.nodes j <;> rfl
  · split
    · next heq =>
      subst heq
      cases f.nodes j <;> rfl
    · rfl

include hroot

/-- Nothing comes to stand above the others. -/
theorem linked_isAncestor : (f.linked p c).IsAncestor c j ↔ f.IsAncestor c j := by
  constructor
  · intro h
    induction h using Relation.ReflTransGen.head_induction_on with
    | refl => exact .refl
    | @head i q hparent hrest ih =>
      rw [linked_parentNode hp hc hlt] at hparent
      split at hparent
      · next heq => exact heq ▸ .refl
      · exact ih.head hparent
  · intro h
    induction h using Relation.ReflTransGen.head_induction_on with
    | refl => exact .refl
    | @head i q hparent hrest ih =>
      have hne : i ≠ c := fun heq => by
        rw [heq, hroot] at hparent
        cases hparent
      exact ih.head (by rw [linked_parentNode hp hc hlt, if_neg hne, hparent])

include hf

/-- A new link under a node that is there. -/
theorem linked_links : (f.linked p c).Links where
  lt_next hi := hf.lt_next fun hnone => hi ((linked_alive hlt).mpr hnone)
  parent_lt := by
    intro d q hparent
    rw [linked_parentNode hp hc hlt] at hparent
    split at hparent
    · next heq =>
      obtain rfl := Option.some.inj hparent
      rw [heq]
      exact hlt
    · exact hf.parent_lt hparent
  mem_children := by
    intro d q
    rw [linked_children hp hc hlt, linked_parentNode hp hc hlt]
    by_cases hdc : d = c
    · subst hdc
      rw [if_pos rfl]
      by_cases hqp : q = p
      · simp [hqp]
      · have hnot : d ∉ f.children q := fun hmem => by
          rw [hf.mem_children, hroot] at hmem
          cases hmem
        simp [hqp, hnot, Ne.symm hqp]
    · rw [if_neg hdc, ← hf.mem_children]
      by_cases hqp : q = p
      · simp [hqp, hdc]
      · simp [hqp]

open Classical in
/-- What the indices have to be: the new child's is that of the parent with the next branch. -/
theorem exists_indices : ∃ T : ℕ → List ℕ, (f.linked p c).Indices T ∧ T p = f.treeIndex p ∧
    ∀ j, ¬ f.IsAncestor c j → T j = f.treeIndex j := by
  have hpc : ¬ f.IsAncestor c p := fun h => absurd (hf.le_of_isAncestor h) (by omega)
  refine ⟨fun j => if f.IsAncestor c j then
    f.treeIndex p ++ [f.branchCount p] ++ (f.treeIndex j).drop (f.treeIndex c).length
      else f.treeIndex j, ?_, if_neg hpc, fun j hj => if_neg hj⟩
  intro d q hparent
  rw [linked_parentNode hp hc hlt] at hparent
  rw [linked_branch hp hc hlt]
  by_cases hdc : d = c
  · subst hdc
    rw [if_pos rfl] at hparent
    obtain rfl := Option.some.inj hparent
    have hself : f.IsAncestor d d := .refl
    simp [hself, hpc]
  · rw [if_neg hdc] at hparent
    have hiff : f.IsAncestor c d ↔ f.IsAncestor c q := by
      refine ⟨fun h => ?_, fun h => h.head hparent⟩
      rcases Relation.ReflTransGen.cases_head h with heq | ⟨r, hr, hrest⟩
      · exact absurd heq hdc
      · obtain rfl := Option.some.inj (hparent.symm.trans hr)
        exact hrest
    simp only [hiff, if_neg hdc]
    split
    · next hq =>
      have hle := (hf.addressed.prefix_of_up hq).length_le
      rw [hf.treeIndex hparent, List.drop_append_of_le_length hle]
      simp
    · exact hf.treeIndex hparent

/-- A child that is added has its index, and so has all below it. -/
theorem Tree.setParentNode_linked :
    (setParentNode f.next p (f.branchCount p) c (f.modify p fun node =>
      { node with children := node.children ++ [c], branchCount := f.branchCount p + 1 })).Tree := by
  obtain ⟨n, hn⟩ : ∃ n, f.next = n + 1 := by
    have := hf.lt_next hc
    exact ⟨f.next - 1, by omega⟩
  obtain ⟨T, hT, hTp, hTj⟩ := exists_indices hf hp hc hroot hlt
  have hlinks := linked_links hf hp hc hroot hlt
  have hparent : (f.linked p c).parentNode c = some p := by
    rw [linked_parentNode hp hc hlt, if_pos rfl]
  -- The call sets the parent, and is from then on as one for a child that has it.
  have hcall : setParentNode f.next p (f.branchCount p) c (f.modify p fun node =>
      { node with children := node.children ++ [c], branchCount := f.branchCount p + 1 }) =
        setParentNode f.next p (f.branchCount p) c (f.linked p c) := by
    have hnone : (f.modify p fun node =>
        { node with children := node.children ++ [c], branchCount := f.branchCount p + 1 }).parentNode
          c = none := by
      have hne : c ≠ p := by omega
      simpa [modify, parentNode, hne] using hroot
    have hsome : (f.linked p c).parentNode c ≠ none := by simp [hparent]
    rw [hn, setParentNode, setParentNode, if_pos hnone, if_neg hsome]
    rfl
  rw [hcall]
  have hsettles := setParentNode_settles hlinks hT (n := f.next) (i := c)
    (by rw [show (f.linked p c).next = f.next from rfl]; omega) hparent
    (by rw [linked_treeIndex hp hc hlt, hTp]) p (f.branchCount p)
  generalize setParentNode f.next p (f.branchCount p) c (f.linked p c) = g at hsettles ⊢
  have hall : ∀ j, g.treeIndex j = T j := by
    intro j
    by_cases hj : f.IsAncestor c j
    · exact hsettles.settles j ((linked_isAncestor hp hc hroot hlt).mpr hj)
    · exact hsettles.keeps j (by rw [linked_treeIndex hp hc hlt, hTj j hj])
  refine { hsettles.links.links hlinks with branch_lt := ?_, sibling := ?_, treeIndex := ?_ }
  · intro d q hd
    rw [hsettles.links.parentNode, linked_parentNode hp hc hlt] at hd
    rw [hsettles.links.branch, hsettles.links.branchCount, linked_branch hp hc hlt,
      linked_branchCount hp hc hlt]
    by_cases hdc : d = c
    · rw [if_pos hdc] at hd
      obtain rfl := Option.some.inj hd
      simp [hdc]
    · rw [if_neg hdc] at hd
      have hbranch := hf.branch_lt hd
      rw [if_neg hdc]
      split
      · next heq =>
        subst heq
        omega
      · exact hbranch
  · intro d e q hd he heq
    rw [hsettles.links.parentNode, linked_parentNode hp hc hlt] at hd he
    rw [hsettles.links.branch, hsettles.links.branch, linked_branch hp hc hlt,
      linked_branch hp hc hlt] at heq
    by_cases hdc : d = c <;> by_cases hec : e = c
    · rw [hdc, hec]
    · rw [if_pos hdc] at hd heq
      rw [if_neg hec] at he heq
      obtain rfl := Option.some.inj hd
      have hbranch := hf.branch_lt he
      omega
    · rw [if_neg hdc] at hd heq
      rw [if_pos hec] at he heq
      obtain rfl := Option.some.inj he
      have hbranch := hf.branch_lt hd
      omega
    · rw [if_neg hdc] at hd heq
      rw [if_neg hec] at he heq
      exact hf.sibling hd he heq
  · intro d q hd
    rw [hall, hall, hsettles.links.branch]
    exact hT (by rwa [hsettles.links.parentNode] at hd)

end Linked

/-- The new subtree is indexed below its parent. -/
theorem Tree.addChild (hf : f.Tree) (hp : f.nodes p ≠ none) (hc : f.nodes c ≠ none)
    (hroot : f.parentNode c = none) (hlt : p < c) (adoptable : Bool) :
    (f.addChild p c adoptable).Tree := by
  rw [Forest.addChild]
  split
  · exact hf.setParentNode_linked hp hc hroot hlt
  · exact hf

/-! ## A node is destructed -/

/-- The nodes below some nodes are gone, which are children of no other. -/
structure Removed (f f' : Forest) (l : List ℕ) : Prop where
  next : f'.next = f.next
  gone : ∀ j, (∃ c ∈ l, f.IsAncestor c j) → f'.nodes j = none
  kept : ∀ j, (∀ c ∈ l, ¬ f.IsAncestor c j) → f'.nodes j =
    (f.nodes j).map fun node => { node with children := node.children.filter (· ∉ l) }

/-- A node that is left lost children at most. -/
theorem Removed.exists_node {l : List ℕ} (h : Removed f f' l) {node' : TreeNode}
    (hj : f'.nodes j = some node') : (∀ c ∈ l, ¬ f.IsAncestor c j) ∧ ∃ node, f.nodes j = some node ∧
      node' = { node with children := node.children.filter (· ∉ l) } := by
  have hkept : ∀ c ∈ l, ¬ f.IsAncestor c j := by
    intro c hc hbelow
    rw [h.gone j ⟨c, hc, hbelow⟩] at hj
    cases hj
  refine ⟨hkept, ?_⟩
  rw [h.kept j hkept] at hj
  obtain ⟨node, hnode, heq⟩ := Option.map_eq_some_iff.mp hj
  exact ⟨node, hnode, heq.symm⟩

/-- What is known of a node that is not below the removed ones. -/
theorem Removed.fields {l : List ℕ} (h : Removed f f' l) (hj : ∀ c ∈ l, ¬ f.IsAncestor c j) :
    f'.parentNode j = f.parentNode j ∧ f'.branch j = f.branch j ∧
      f'.branchCount j = f.branchCount j ∧ f'.treeIndex j = f.treeIndex j ∧
      f'.children j = (f.children j).filter (· ∉ l) := by
  simp only [parentNode, branch, branchCount, treeIndex, children, h.kept j hj]
  cases f.nodes j <;> simp

/-- A parent that is left is the old one. -/
theorem Removed.parentNode_eq {l : List ℕ} (h : Removed f f' l) (hj : f'.parentNode j = some p) :
    f.parentNode j = some p ∧ (∀ c ∈ l, ¬ f.IsAncestor c j) ∧ ∀ c ∈ l, ¬ f.IsAncestor c p := by
  obtain ⟨node', hnode'⟩ := Option.ne_none_iff_exists'.mp (nodes_ne_none_of_parentNode hj)
  obtain ⟨hkept, -⟩ := h.exists_node hnode'
  have hparent : f.parentNode j = some p := (h.fields hkept).1 ▸ hj
  exact ⟨hparent, hkept, fun c hc hbelow => hkept c hc (hbelow.head hparent)⟩

/-- Removal of whole subtrees leaves a tree. -/
theorem Removed.tree {l : List ℕ} (h : Removed f f' l) (hf : f.Tree) : f'.Tree where
  lt_next hj := by
    obtain ⟨node', hnode'⟩ := Option.ne_none_iff_exists'.mp hj
    obtain ⟨-, node, hnode, -⟩ := h.exists_node hnode'
    rw [h.next]
    exact hf.lt_next (by simp [hnode])
  parent_lt hparent := hf.parent_lt (h.parentNode_eq hparent).1
  mem_children := by
    intro c p
    constructor
    · intro hmem
      obtain ⟨node', hnode'⟩ := Option.ne_none_iff_exists'.mp (nodes_ne_none_of_children hmem)
      obtain ⟨hkept, -⟩ := h.exists_node hnode'
      rw [(h.fields hkept).2.2.2.2, List.mem_filter] at hmem
      obtain ⟨hmem, hnot⟩ := hmem
      have hparent := hf.mem_children.mp hmem
      rw [(h.fields fun d hd hbelow => ?_).1]
      · exact hparent
      · rcases Relation.ReflTransGen.cases_head hbelow with rfl | ⟨q, hq, hrest⟩
        · exact absurd hd (by simpa using hnot)
        · obtain rfl := Option.some.inj (hparent.symm.trans hq)
          exact hkept d hd hrest
    · intro hparent
      obtain ⟨hparent, hc, hp⟩ := h.parentNode_eq hparent
      rw [(h.fields hp).2.2.2.2, List.mem_filter]
      exact ⟨hf.mem_children.mpr hparent, by simpa using fun hmem => hc c hmem .refl⟩
  branch_lt hparent := by
    obtain ⟨hparent, hc, hp⟩ := h.parentNode_eq hparent
    rw [(h.fields hc).2.1, (h.fields hp).2.2.1]
    exact hf.branch_lt hparent
  sibling hc hd heq := by
    obtain ⟨hc, hkept, -⟩ := h.parentNode_eq hc
    obtain ⟨hd, hkept', -⟩ := h.parentNode_eq hd
    rw [(h.fields hkept).2.1, (h.fields hkept').2.1] at heq
    exact hf.sibling hc hd heq
  treeIndex hparent := by
    obtain ⟨hparent, hc, hp⟩ := h.parentNode_eq hparent
    rw [(h.fields hc).2.2.2.1, (h.fields hp).2.2.2.1, (h.fields hc).2.1]
    exact hf.treeIndex hparent

/-- A node that stays is below another one if and only if it was. -/
theorem Removed.isAncestor_iff {l : List ℕ} (h : Removed f f' l)
    (hj : ∀ c ∈ l, ¬ f.IsAncestor c j) : f'.IsAncestor i j ↔ f.IsAncestor i j := by
  constructor
  · intro hup
    exact Relation.ReflTransGen.mono (fun a p hparent => (h.parentNode_eq hparent).1) _ _ hup
  · intro hup
    induction hup using Relation.ReflTransGen.head_induction_on with
    | refl => exact .refl
    | @head a p hparent hrest ih =>
      refine (ih fun c hc hbelow => hj c hc (hbelow.head hparent)).head ?_
      rw [(h.fields hj).1, hparent]

/-- Subtrees removed one after the other. -/
theorem Removed.trans {l m : List ℕ} (h : Removed f f' l) (h' : Removed f' f'' m) :
    Removed f f'' (l ++ m) where
  next := h'.next.trans h.next
  gone := by
    rintro j ⟨c, hc, hbelow⟩
    by_cases hj : ∀ d ∈ l, ¬ f.IsAncestor d j
    · rcases List.mem_append.mp hc with hc | hc
      · exact absurd hbelow (hj c hc)
      · exact h'.gone j ⟨c, hc, (h.isAncestor_iff hj).mpr hbelow⟩
    · have hnone : f'.nodes j = none := by
        push Not at hj
        exact h.gone j hj
      cases hnode : f''.nodes j with
      | none => rfl
      | some node =>
        obtain ⟨-, node', hnode', -⟩ := h'.exists_node hnode
        rw [hnone] at hnode'
        cases hnode'
  kept := by
    intro j hj
    have hl : ∀ d ∈ l, ¬ f.IsAncestor d j := fun d hd => hj d (List.mem_append_left m hd)
    rw [h'.kept j fun d hd hbelow => hj d (List.mem_append_right l hd)
      ((h.isAncestor_iff hl).mp hbelow), h.kept j hl, Option.map_map]
    congr 1
    funext node
    simp [List.filter_filter, Bool.and_comm]

/-- Only the parent knows a child. -/
theorem Links.filter_children (hf : f.Links) {node : TreeNode} {l : List ℕ} (hj : f.nodes j = some node)
    (hl : ∀ c ∈ l, f.parentNode c ≠ some j) : node.children.filter (· ∉ l) = node.children := by
  refine List.filter_eq_self.mpr fun d hd => ?_
  have hparent : f.parentNode d = some j := hf.mem_children.mp (by simp [children, hj, hd])
  simpa using fun hmem => hl d hmem hparent

/-- A node whose children are removed is removed itself. -/
theorem Tree.removed_of_children (hf : f.Tree) (h : Removed f f' (f.children i)) :
    Removed f { (match f'.parentNode i with
      | some p => f'.modify p fun node => { node with children := node.children.filter (· ≠ i) }
      | none => f') with
        nodes := fun j => if j = i then none else (match f'.parentNode i with
          | some p => f'.modify p fun node => { node with children := node.children.filter (· ≠ i) }
          | none => f').nodes j } [i] := by
  have hi : ∀ c ∈ f.children i, ¬ f.IsAncestor c i := fun c hc hbelow => by
    have := hf.le_of_isAncestor hbelow
    have := hf.parent_lt (hf.mem_children.mp hc)
    omega
  have hkept : ∀ j, ¬ f.IsAncestor i j → f'.nodes j = f.nodes j := by
    intro j hj
    rw [h.kept j fun c hc hbelow => hj (hf.isAncestor_iff.mpr (.inr ⟨c, hc, hbelow⟩))]
    cases hnode : f.nodes j with
    | none => rfl
    | some node =>
      rw [Option.map_some, hf.filter_children hnode]
      intro c hc heq
      obtain rfl := Option.some.inj ((hf.mem_children.mp hc).symm.trans heq)
      exact hj .refl
  rw [(h.fields hi).1]
  refine ⟨?_, ?_, ?_⟩
  · cases f.parentNode i <;> exact h.next
  · rintro j ⟨c, hc, hbelow⟩
    obtain rfl := List.mem_singleton.mp hc
    by_cases hjc : j = c
    · exact if_pos hjc
    · have hgone : f'.nodes j = none := by
        obtain heq | hchild := hf.isAncestor_iff.mp hbelow
        · exact absurd heq hjc
        · exact h.gone j hchild
      cases f.parentNode c with
      | none => simp [hjc, hgone]
      | some p => by_cases hjp : j = p <;> simp_all [modify]
  · intro j hj
    have hnot := hj i List.mem_cons_self
    have hji : j ≠ i := fun heq => hnot (heq ▸ .refl)
    cases hparent : f.parentNode i with
    | none =>
      simp only [if_neg hji, hkept j hnot]
      cases hnode : f.nodes j with
      | none => rfl
      | some node => rw [Option.map_some, hf.filter_children hnode (by simp [hparent])]
    | some p =>
      by_cases hjp : j = p
      · subst hjp
        simp [hji, modify, hkept j hnot]
      · simp only [if_neg hji, modify, if_neg hjp, hkept j hnot]
        cases hnode : f.nodes j with
        | none => rfl
        | some node =>
          rw [Option.map_some, hf.filter_children hnode (by simp [hparent, Ne.symm hjp])]

/-- A node and all below it are destructed. -/
theorem Tree.destructEntity_removed (hf : f.Tree) (hfuel : f.next ≤ n + i) :
    Removed f (f.destructEntity n i) [i] := by
  induction n generalizing f i with
  | zero =>
    have hdead : ∀ j, f.IsAncestor i j → f.nodes j = none := by
      intro j hj
      have hi : f.nodes i = none := by
        by_contra halive
        have := hf.lt_next halive
        omega
      by_contra halive
      exact hf.alive_of_isAncestor halive hj hi
    refine ⟨rfl, fun j hj => hdead j (by simpa using hj), fun j hj => ?_⟩
    rw [Forest.destructEntity]
    cases hnode : f.nodes j with
    | none => rfl
    | some node =>
      have hnot : i ∉ node.children := by
        intro hmem
        have hparent : f.parentNode i = some j := hf.mem_children.mp (by simp [children, hnode, hmem])
        exact nodes_ne_none_of_parentNode hparent (hdead i .refl)
      have hsame : node.children.filter (· ∉ [i]) = node.children :=
        List.filter_eq_self.mpr fun d hd => by
          simpa using fun heq : d = i => hnot (heq ▸ hd)
      rw [Option.map_some, hsame]
  | succ n ih =>
    have hchildren : ∀ l g m, Removed f g m → (∀ c ∈ l, f.parentNode c = some i) →
        Removed f (l.foldl (Forest.destructEntity n) g) (m ++ l) := by
      intro l
      induction l with
      | nil => exact fun g m hg _ => by simpa using hg
      | cons c l ihl =>
        intro g m hg hl
        have hlt := hf.parent_lt (hl c List.mem_cons_self)
        have hfirst := ih (hg.tree hf) (i := c) (by rw [hg.next]; omega)
        have hrest := ihl _ (m ++ [c]) (hg.trans hfirst) fun d hd => hl d (List.mem_cons_of_mem c hd)
        simpa using hrest
    have hnone : Removed f f [] := ⟨rfl, by simp, fun j _ => by cases f.nodes j <;> simp⟩
    have hbelow := hchildren (f.children i) f [] hnone fun c hc => hf.mem_children.mp hc
    rw [Forest.destructEntity]
    rw [List.nil_append] at hbelow
    exact hf.removed_of_children hbelow

/-! ## Runs -/

/-- The number of the next node. -/
theorem Tree.createNode (hf : f.Tree) (isModel : Bool) : Tree
    { nodes := fun j => if j = f.next then some { treeIndex := if isModel then [0] else [] }
        else f.nodes j
      next := f.next + 1 } := by
  generalize hg : ({
    nodes := fun j => if j = f.next then some { treeIndex := if isModel then [0] else [] }
      else f.nodes j
    next := f.next + 1 } : Forest) = g
  have hfresh : f.nodes f.next = none := by
    by_contra halive
    exact absurd (hf.lt_next halive) (Nat.lt_irrefl _)
  have hnew : g.parentNode f.next = none ∧ g.children f.next = [] := by
    simp [← hg, parentNode, children]
  have hold : ∀ j, j ≠ f.next → g.nodes j = f.nodes j := fun j hj => by simp [← hg, hj]
  have hne : ∀ {c p}, g.parentNode c = some p → c ≠ f.next ∧ p ≠ f.next := by
    intro c p hparent
    have hc : c ≠ f.next := fun heq => by
      rw [heq, hnew.1] at hparent
      cases hparent
    refine ⟨hc, fun heq => ?_⟩
    have hparent' : f.parentNode c = some p := by
      rw [parentNode, ← hold c hc]
      exact hparent
    exact hf.parent_alive hparent' (heq ▸ hfresh)
  have hfields : ∀ j, j ≠ f.next → g.parentNode j = f.parentNode j ∧ g.branch j = f.branch j ∧
      g.branchCount j = f.branchCount j ∧ g.treeIndex j = f.treeIndex j ∧
      g.children j = f.children j := by
    intro j hj
    simp only [parentNode, branch, branchCount, Forest.treeIndex, children, hold j hj, and_self]
  have hparentNode : ∀ {c p}, g.parentNode c = some p ↔ f.parentNode c = some p := by
    intro c p
    by_cases hc : c = f.next
    · rw [hc, hnew.1, parentNode, hfresh]
      rfl
    · rw [(hfields c hc).1]
  refine { lt_next := ?_, parent_lt := fun h => hf.parent_lt (hparentNode.mp h), mem_children := ?_,
           branch_lt := ?_, sibling := ?_, treeIndex := ?_ }
  · intro j hj
    have hnext : g.next = f.next + 1 := by rw [← hg]
    by_cases heq : j = f.next
    · omega
    · rw [hold j heq] at hj
      have := hf.lt_next hj
      omega
  · intro c p
    rw [hparentNode, ← hf.mem_children]
    by_cases hp : p = f.next
    · rw [hp, hnew.2, children, hfresh]
      rfl
    · rw [(hfields p hp).2.2.2.2]
  · intro c p h
    obtain ⟨hc, hp⟩ := hne h
    rw [(hfields c hc).2.1, (hfields p hp).2.2.1]
    exact hf.branch_lt (hparentNode.mp h)
  · intro c d p h h' heq
    rw [(hfields c (hne h).1).2.1, (hfields d (hne h').1).2.1] at heq
    exact hf.sibling (hparentNode.mp h) (hparentNode.mp h') heq
  · intro c p h
    obtain ⟨hc, hp⟩ := hne h
    rw [(hfields c hc).2.2.2.1, (hfields p hp).2.2.2.1, (hfields c hc).2.1]
    exact hf.treeIndex (hparentNode.mp h)

/-- Each action leaves a tree. -/
theorem tree_step (hf : f.Tree) {action : TreeAction} (h : treeStep f action = some f') : f'.Tree := by
  cases action with
  | createNode isModel =>
    obtain rfl := Option.some.inj h
    exact hf.createNode isModel
  | addChild parent child adoptable =>
    rw [treeStep] at h
    split at h
    · next hguard =>
      obtain ⟨hp, hc, hroot, hlt⟩ := hguard
      obtain rfl := Option.some.inj h
      exact hf.addChild hp hc hroot hlt adoptable
    · cases h
  | destructEntity i =>
    rw [treeStep] at h
    split at h
    · obtain rfl := Option.some.inj h
      exact (hf.destructEntity_removed (by omega)).tree hf
    · cases h

/-- **In every run, a node has the index of its parent with its own branch.** -/
theorem tree_of_reach (hf : treeSystem.Reach f) : f.Tree := by
  have hinductive : treeSystem.InductiveBy (fun _ _ => True) Tree := by
    refine ⟨fun {s} hs => ?_, fun hs _ hstep => tree_step hs hstep⟩
    obtain rfl : s = {} := hs
    exact { lt_next := by simp, parent_lt := by simp [parentNode],
            mem_children := by simp [children, parentNode], branch_lt := by simp [parentNode],
            sibling := by simp [parentNode], treeIndex := by simp [parentNode] }
  exact hinductive.reach hf

/-! ## The common ancestor -/

/-- A depth counts the steps up. -/
theorem getParentNode_eq_up (n : ℕ) : f.getParentNode a (n + 1 : ℕ) = up f.parentNode (n + 1) a := by
  have hpos : ¬ ((n + 1 : ℕ) : ℤ) ≤ 0 := by omega
  rw [getParentNode, if_neg hpos, Int.toNat_natCast, Nat.add_sub_cancel]
  induction n with
  | zero => rfl
  | succ n ih =>
    rw [Function.iterate_succ_apply', ih (by omega)]
    rfl

/-- **What the common ancestor is.** -/
theorem getCommonAncestor_eq (hf : f.Tree) (h : f.SameRoot a b) :
    ∃ c, f.IsDeepestCommonAncestor a b c ∧
      (f.IsAncestor a b → f.getCommonAncestor a (some b) = none) ∧
      (¬ f.IsAncestor a b → f.getCommonAncestor a (some b) = some c) := by
  obtain ⟨r, -, -, ha, hb⟩ := h
  obtain ⟨c, hac, hbc, hdeepest, hsteps, -⟩ := hf.addressed.exists_meet ha hb
  have hheight : f.getDepthFromCommonAncestor a (some b) =
      ((f.treeIndex a).length - commonLength (f.treeIndex a) (f.treeIndex b) : ℕ) := by
    have := commonLength_le (f.treeIndex a) (f.treeIndex b)
    rw [getDepthFromCommonAncestor]
    omega
  have hfound : f.getCommonAncestor a (some b) = f.getParentNode a
      ((f.treeIndex a).length - commonLength (f.treeIndex a) (f.treeIndex b) : ℕ) := by
    rw [getCommonAncestor, hheight, if_pos (by omega)]
  have hiff := hf.addressed.up_iff_prefix ha hb
  refine ⟨c, ⟨hac, hbc, hdeepest⟩, fun hup => ?_, fun hup => ?_⟩
  · rw [hfound, hiff.mp hup, Nat.sub_self]
    rfl
  · obtain ⟨n, hn⟩ : ∃ n, (f.treeIndex a).length - commonLength (f.treeIndex a) (f.treeIndex b) =
        n + 1 := by
      have hne : commonLength (f.treeIndex a) (f.treeIndex b) ≠ (f.treeIndex a).length :=
        fun heq => hup (hiff.mpr heq)
      have := commonLength_le (f.treeIndex a) (f.treeIndex b)
      exact ⟨(f.treeIndex a).length - commonLength (f.treeIndex a) (f.treeIndex b) - 1, by omega⟩
    rw [hfound, hn, getParentNode_eq_up, ← hn]
    exact hsteps

theorem IsDeepestCommonAncestor.symm (h : f.IsDeepestCommonAncestor a b c) :
    f.IsDeepestCommonAncestor b a c :=
  ⟨h.right, h.left, fun d hb ha => h.deepest d ha hb⟩

/-- There is one at most. -/
theorem IsDeepestCommonAncestor.unique (hf : f.Tree) (h : f.IsDeepestCommonAncestor a b c)
    (h' : f.IsDeepestCommonAncestor a b d) : c = d :=
  (hf.le_of_isAncestor (h'.deepest c h.left h.right)).antisymm
    (hf.le_of_isAncestor (h.deepest d h'.left h'.right))

theorem SameRoot.symm (h : f.SameRoot a b) : f.SameRoot b a := by
  obtain ⟨r, halive, hroot, ha, hb⟩ := h
  exact ⟨r, halive, hroot, hb, ha⟩

/-- The shared parent of edges is the common ancestor, or -1 without one. -/
theorem getSharedParent_eq (h : f.SameRoot a b) :
    f.getSharedParent a b = ((f.getCommonAncestor a (some b)).map Int.ofNat).getD (-1) := by
  obtain ⟨r, halive, -, ha, hb⟩ := h
  have hnode : ∀ i, f.IsAncestor r i → f.getNode i = some i := by
    intro i hi
    rw [getNode, if_pos ⟨by omega, alive_of_isAncestor hi halive⟩, Int.toNat_natCast]
  simp only [getSharedParent, hnode a ha, hnode b hb]
  cases f.getCommonAncestor a (some b) <;> rfl

theorem commonAncestorLaw_iff (f : Forest) (hf : treeSystem.Reach f) (a b : ℕ)
    (h : f.SameRoot a b) :
    f.CommonAncestorLaw a b ↔ ¬ f.IsAncestor a b ∧ ¬ f.IsAncestor b a := by
  have htree := tree_of_reach hf
  obtain ⟨c, hc, hnone, hsome⟩ := getCommonAncestor_eq htree h
  obtain ⟨c', hc', hnone', hsome'⟩ := getCommonAncestor_eq htree h.symm
  obtain rfl := hc.unique htree hc'.symm
  constructor
  · rintro ⟨d, -, hd, hd', -⟩
    refine ⟨fun hup => ?_, fun hup => ?_⟩
    · rw [hnone hup] at hd
      cases hd
    · rw [hnone' hup] at hd'
      cases hd'
  · rintro ⟨hup, hup'⟩
    refine ⟨c, hc, hsome hup, hsome' hup', ?_, ?_⟩
    · rw [getSharedParent_eq h, hsome hup]
      rfl
    · rw [getSharedParent_eq h.symm, hsome' hup']
      rfl

/-- A model with two children, the first of which has a child. -/
def smallActions : List TreeAction :=
  [.createNode true, .createNode false, .addChild 0 1 true, .createNode false, .addChild 0 2 true,
    .createNode false, .addChild 1 3 true]

/-- Four nodes, one of them a grandchild of the first. -/
def smallTree : Forest := (Lts.run treeStep {} smallActions).get (by decide +kernel)

theorem reach_smallTree : treeSystem.Reach smallTree :=
  Lts.reach_of_run
    (show Lts.run treeStep {} smallActions = some smallTree from (Option.some_get _).symm)

theorem smallTree_parentNode : smallTree.parentNode 1 = some 0 ∧ smallTree.parentNode 2 = some 0 ∧
    smallTree.parentNode 3 = some 1 ∧ smallTree.parentNode 0 = none := by
  decide +kernel

theorem isAncestor_smallTree : smallTree.IsAncestor 0 2 ∧ smallTree.IsAncestor 0 3 := by
  obtain ⟨h1, h2, h3, -⟩ := smallTree_parentNode
  exact ⟨.single h2, .head h3 (.single h1)⟩

/-- The first child's child, and the second child. -/
theorem commonAncestorLaw_iff_smallTree : smallTree.CommonAncestorLaw 3 2 := by
  obtain ⟨h1, h2, h3, h0⟩ := smallTree_parentNode
  have hsame : smallTree.SameRoot 3 2 :=
    ⟨0, by decide +kernel, h0, isAncestor_smallTree.2, isAncestor_smallTree.1⟩
  refine (commonAncestorLaw_iff smallTree reach_smallTree 3 2 hsame).mpr ⟨?_, ?_⟩
  · intro hup
    exact absurd ((tree_of_reach reach_smallTree).le_of_isAncestor hup) (by decide)
  · intro hup
    rcases Relation.ReflTransGen.cases_head hup with heq | ⟨p, hp, hrest⟩
    · cases heq
    · obtain rfl := Option.some.inj (h3.symm.trans hp)
      exact absurd ((tree_of_reach reach_smallTree).le_of_isAncestor hrest) (by decide)

/-- A model is not the common ancestor of itself and its child, unless they are the other way round. -/
theorem not_commonAncestorLaw : smallTree.IsDeepestCommonAncestor 0 2 0 ∧
    smallTree.getCommonAncestor 0 (some 2) = none ∧ smallTree.getCommonAncestor 2 (some 0) = some 0 ∧
    smallTree.getSharedParent 0 2 = -1 ∧ smallTree.getSharedParent 2 0 = 0 ∧
    ¬ smallTree.CommonAncestorLaw 0 2 := by
  have hnone : smallTree.getCommonAncestor 0 (some 2) = none := by decide +kernel
  refine ⟨⟨.refl, isAncestor_smallTree.1, fun d hd _ => hd⟩, hnone, by decide +kernel,
    by decide +kernel, by decide +kernel, ?_⟩
  rintro ⟨c, -, hc, -⟩
  rw [hnone] at hc
  cases hc

end Forest

end Sem.Medea

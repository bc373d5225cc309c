import Sem.Lib.XPath
import Sem.ReGen.GeneralFunctions

/-!
# GraphML documents as the transformations walk them (`graphml_functions.xsl`)

Elements and texts, in document order; a node of the graph is named by its position. A function
that ends with an error, or that has run out of depth, has no result.

* `getAncestorNodes_eq`: the ancestors of a node are its parent's and its parent.
* `isDescendantOf_iff`: descendants are told by their texts.
* `mem_getAncestorNodes_of_isNode`: the walk over parents misses no node.
* `mem_childrenOf_iff`, `mem_getChildNodesOfKind`: children, and those of a kind.
* `getDefinition_succ`: definitions, one edge at a time.
-/

namespace Sem.ReGen.Gml

open Xml (Text)

/-- The names of elements and attributes. -/
inductive Name
  | graphml
  | key
  | graph
  | node
  | edge
  | data
  | id
  | attrName
  | source
  | target
  | other (name : Text)
  deriving DecidableEq, Repr

/-- A result of the validator: of which entity, and what it says where it is a failure. -/
structure Result where
  id : Text
  result : Bool
  errorString : Text
  warning : Bool
  deriving DecidableEq, Repr

/-- `o:wrap_quote`. -/
def wrapQuote (s : Text) : Text := '\'' :: s ++ ['\'']

/-- A model file. -/
structure Document extends XPath.Document Name where
  /-- Nodes are told apart by their ids. -/
  ids_nodup : ((toDocument.select (toDocument.isElement .node)).filterMap
    (toDocument.attribute? .id)).Nodup
  /-- A node is in a graph, and a graph with nodes is that of a node or of the whole document. -/
  nodes_nested : ((toDocument.select (toDocument.isElement .node)).all fun i =>
    (toDocument.parent i).any fun g => toDocument.isElement .graph g &&
      (toDocument.parent g).any fun p => toDocument.isElement .node p ||
        toDocument.isElement .graphml p && (toDocument.parent p).isNone) = true

namespace Document

variable (doc : Document)

/-- The elements that stand for entities. -/
def isNode (i : ℕ) : Bool := doc.isElement .node i

/-- Several texts in one, with blanks between them. -/
def valueOf (texts : List Text) : Text := [' '].intercalate texts

/-- `graphml:get_id`. -/
def getId (entity : ℕ) : Text := (doc.attribute? .id entity).getD []

/-- `graphml:get_node_by_id`. -/
def getNodeById (id : Text) : Option ℕ :=
  (doc.select doc.isNode).find? (doc.attribute? .id · = some id)

/-- `graphml:get_key_id`: the ids of all keys with the name, as one text. -/
def getKeyId (keyName : Text) : Text :=
  valueOf <| (doc.select fun k =>
    doc.isElement .key k && doc.attribute? .attrName k = some keyName).filterMap (doc.attribute? .id)

/-- The path `gml:data[@key=$key_id]`. -/
def dataStep (entities : List ℕ) (keyName : Text) : List ℕ :=
  doc.childStep entities fun d =>
    doc.isElement .data d && doc.attribute? .key d = some (doc.getKeyId keyName)

/-- `graphml:get_data_value`: the texts of all data of the key, as one text. -/
def getDataValue (entity : ℕ) (keyName : Text) : Text :=
  valueOf ((doc.childStep (doc.dataStep [entity] keyName) doc.isText).map doc.textOf)

/-- `graphml:got_data`. -/
def gotData (entity : ℕ) (keyName : Text) : Bool := !(doc.dataStep [entity] keyName).isEmpty

/-- `graphml:get_kind`. -/
def getKind (entity : ℕ) : Text := doc.getDataValue entity (lit "kind")

/-- `graphml:get_label`. -/
def getLabel (entity : ℕ) : Text := doc.getDataValue entity (lit "label")

/-- `graphml:get_index`, where the value is a number. -/
def getIndex (entity : ℕ) : Option ℤ := XPath.integerOf (doc.getDataValue entity (lit "index"))

/-- The test `gml:data[@key=$kind_id and text() = $kinds]`. -/
def isDataOfKind (kinds : List Text) (d : ℕ) : Bool :=
  doc.isElement .data d && doc.attribute? .key d = some (doc.getKeyId (lit "kind")) &&
    (doc.childStep [d] doc.isText).any (doc.textOf · ∈ kinds)

/-- The path `/gml:data[@key=$kind_id and text() = $kinds]/..` behind a sequence. -/
def filterKind (entities : List ℕ) (kinds : List Text) : List ℕ :=
  doc.parentStep (doc.childStep entities (doc.isDataOfKind kinds))

/-- The entity has data of one of the kinds. -/
def hasKind (kinds : List Text) (entity : ℕ) : Bool :=
  !(doc.childStep [entity] (doc.isDataOfKind kinds)).isEmpty

/-- The path `gml:graph/gml:node` behind a sequence. -/
def childrenOf (nodes : List ℕ) : List ℕ :=
  doc.childStep (doc.childStep nodes (doc.isElement .graph)) doc.isNode

/-- The order of `xsl:sort`. -/
def indexLe (i j : ℕ) : Prop := (doc.getIndex i).getD 0 ≤ (doc.getIndex j).getD 0

instance : DecidableRel doc.indexLe := fun _ _ => inferInstanceAs (Decidable (_ ≤ _))

/-- An index that is not a whole number is an error. -/
def getChildNodes (nodes : List ℕ) : Option (List ℕ) :=
  let children := doc.childrenOf nodes
  if children.all fun i => (doc.getIndex i).isSome then some (children.insertionSort doc.indexLe)
  else none

/-- `graphml:get_child_nodes_of_kind`. -/
def getChildNodesOfKind (nodes : List ℕ) (kind : List Text) : Option (List ℕ) :=
  if nodes.length = 0 then some []
  else (doc.getChildNodes nodes).map fun children => doc.filterKind children kind

/-- `graphml:get_parent_node`: the node around the graph. -/
def getParentNode (entity : ℕ) : Option ℕ :=
  ((doc.parent entity).bind doc.parent).filter doc.isNode

/-- The top-most parent comes first. -/
def getAncestorNodes (entity : ℕ) : List ℕ :=
  (XPath.chain doc.getParentNode entity entity).reverse

/-- `graphml:get_descendant_nodes`. -/
def getDescendantNodes (node : List ℕ) : List ℕ := doc.descendantStep node doc.isNode

/-- `graphml:is_descendant_of`: the comparison is that of texts. -/
def isDescendantOf (node₁ node₂ : ℕ) : Bool :=
  doc.generalEq [node₁] (doc.getDescendantNodes [node₂])

/-- `graphml:get_ancestor_nodes_until`. -/
def getAncestorNodesUntil (entity topAncestor : ℕ) : List ℕ :=
  (doc.getAncestorNodes entity).filter (doc.isDescendantOf · topAncestor)

/-- `graphml:get_nodes_of_kind`, in the whole document. -/
def getNodesOfKind (kinds : List Text) : List ℕ :=
  doc.filterKind (doc.select doc.isNode) kinds

/-- `graphml:get_descendant_nodes_of_kind`. -/
def getDescendantNodesOfKind (node : List ℕ) (kinds : List Text) : List ℕ :=
  doc.filterKind (doc.getDescendantNodes node) kinds

/-- `graphml:get_ancestor_nodes_of_kind`. -/
def getAncestorNodesOfKind (node : ℕ) (kinds : List Text) : List ℕ :=
  doc.filterKind (doc.ancestorStep [node] doc.isNode) kinds

/-- The edges of a kind with this id at one of their ends. -/
def edgesAt (atEnd : Name) (id edgeKind : Text) : List ℕ :=
  doc.filterKind (doc.select fun e => doc.isElement .edge e && doc.attribute? atEnd e = some id)
    [edgeKind]

/-- `graphml:get_sources`, of the edges of a kind. -/
def getSources (node : ℕ) (edgeKind : Text) : List ℕ :=
  (doc.edgesAt .target (doc.getId node) edgeKind).filterMap fun e =>
    (doc.attribute? .source e).bind doc.getNodeById

/-- `graphml:get_targets`, of the edges of a kind. -/
def getTargets (node : ℕ) (edgeKind : Text) : List ℕ :=
  (doc.edgesAt .source (doc.getId node) edgeKind).filterMap fun e =>
    (doc.attribute? .target e).bind doc.getNodeById

/-- The definition at the end of the chain of definitions, followed to a depth; it is an error to
have more than one. -/
def getDefinition : ℕ → ℕ → Option ℕ
  | 0, _ => none
  | depth + 1, node =>
    match doc.getTargets node (lit "Edge_Definition") with
    | [] => some node
    | targets =>
      match targets.mapM (getDefinition depth) with
      | some [definition] => some definition
      | _ => none

/-- The implementation of the definition of a node; it is an error to have more than one. -/
def getImpl (depth node : ℕ) : Option (Option ℕ) :=
  (doc.getDefinition depth node).bind fun definition =>
    match (doc.getSources definition (lit "Edge_Definition")).filter
      fun source => (lit "Impl").isSuffixOf (doc.getKind source) with
    | [] => some none
    | [impl] => some (some impl)
    | _ => none

/-- `graphml:is_class_instance_worker`. -/
def isClassInstanceWorker (depth classInstance : ℕ) : Option Bool :=
  (doc.getDefinition depth classInstance).map (doc.gotData · (lit "worker"))

/-- Deployed itself, or in an assembly that is, up to so many of them. -/
def isDeployedUpTo : ℕ → ℕ → Bool
  | 0, _ => false
  | n + 1, entity =>
    if 0 < (doc.getTargets entity (lit "Edge_Deployment")).length then true
    else
      match doc.getParentNode entity with
      | some parent => doc.getKind parent = lit "ComponentAssembly" && isDeployedUpTo n parent
      | none => false

/-- A node is in no more nodes than there are before it. -/
def isDeployed (entity : ℕ) : Bool := doc.isDeployedUpTo (entity + 1) entity

/-- `graphml:get_deployed_component_instances`. -/
def getDeployedComponentInstances : List ℕ :=
  (doc.getNodesOfKind [lit "ComponentInstance"]).filter doc.isDeployed

/-! ## Ancestors -/

variable {doc} {i p t : ℕ} {kinds : List Text} {ns : List ℕ}

theorem exists_of_getParentNode (h : doc.getParentNode i = some p) :
    doc.isNode p = true ∧ ∃ g, doc.parent i = some g ∧ doc.parent g = some p := by
  obtain ⟨h, hp⟩ := Option.filter_eq_some_iff.mp h
  obtain ⟨g, hg, hparent⟩ := Option.bind_eq_some_iff.mp h
  exact ⟨hp, g, hg, hparent⟩

theorem mem_ancestors_of_getParentNode (h : doc.getParentNode i = some p) :
    p ∈ doc.ancestors i := by
  obtain ⟨-, g, hg, hp⟩ := exists_of_getParentNode h
  exact XPath.Document.mem_ancestors_of_parent hg
    (.inr (XPath.Document.mem_ancestors_of_parent hp (.inl rfl)))

theorem lt_of_getParentNode (h : doc.getParentNode i = some p) : p < i :=
  XPath.Document.lt_of_mem_ancestors (mem_ancestors_of_getParentNode h)

theorem getAncestorNodes_eq (i : ℕ) : doc.getAncestorNodes i =
    match doc.getParentNode i with
    | some p => doc.getAncestorNodes p ++ [p]
    | none => [] := by
  rw [getAncestorNodes, XPath.chain_eq (fun _ _ => lt_of_getParentNode)]
  cases h : doc.getParentNode i with
  | none => rfl
  | some p => exact List.reverse_cons

theorem mem_getAncestorNodes_iff : p ∈ doc.getAncestorNodes i ↔
    Relation.TransGen (fun i p => doc.getParentNode i = some p) i p := by
  rw [getAncestorNodes, List.mem_reverse, XPath.mem_chain_iff fun _ _ => lt_of_getParentNode]

theorem mem_ancestors_of_mem_getAncestorNodes (h : p ∈ doc.getAncestorNodes i) :
    p ∈ doc.ancestors i := by
  induction mem_getAncestorNodes_iff.mp h with
  | single hp => exact mem_ancestors_of_getParentNode hp
  | tail hij hp ih =>
    exact XPath.Document.mem_ancestors_trans (ih (mem_getAncestorNodes_iff.mpr hij))
      (mem_ancestors_of_getParentNode hp)

theorem mem_getDescendantNodes :
    i ∈ doc.getDescendantNodes [t] ↔ doc.isNode i = true ∧ t ∈ doc.ancestors i := by
  rw [getDescendantNodes, XPath.Document.mem_descendantStep]
  simp

theorem isNode_of_mem_getAncestorNodes (h : p ∈ doc.getAncestorNodes i) : doc.isNode p = true := by
  obtain ⟨j, -, hp⟩ := Relation.TransGen.tail'_iff.mp (mem_getAncestorNodes_iff.mp h)
  exact (exists_of_getParentNode hp).1

theorem isNode_lt_length (h : doc.isNode i = true) : i < doc.nodes.length :=
  XPath.Document.lt_length_of_isElement h

/-- An element has one name. -/
theorem name_eq {n m : Name} (hn : doc.isElement n i = true) (hm : doc.isElement m i = true) :
    n = m := by
  unfold XPath.Document.isElement at hn hm
  split at hn
  · simp_all
  · cases hn

theorem exists_graph_of_isNode (h : doc.isNode i = true) :
    ∃ g p, doc.parent i = some g ∧ doc.isElement .graph g = true ∧ doc.parent g = some p ∧
      (doc.isNode p = true ∨ doc.isElement .graphml p = true ∧ doc.parent p = none) := by
  have hall := List.all_eq_true.mp doc.nodes_nested i
    (XPath.Document.mem_select.mpr ⟨isNode_lt_length h, h⟩)
  obtain ⟨g, hg, hgraph⟩ := (Option.any_eq_true _ _).mp hall
  obtain ⟨hgraph, hany⟩ := Bool.and_eq_true_iff.mp hgraph
  obtain ⟨p, hp, hkind⟩ := (Option.any_eq_true _ _).mp hany
  refine ⟨g, p, hg, hgraph, hp, ?_⟩
  simpa [isNode] using hkind

theorem getParentNode_of_parent {g : ℕ} (hg : doc.parent i = some g) (hp : doc.parent g = some p)
    (hnode : doc.isNode p = true) : doc.getParentNode i = some p := by
  rw [getParentNode, hg, Option.bind_some, hp, Option.filter_some_pos hnode]

/-- Every node around a node is met on the way over the parents. -/
theorem mem_getAncestorNodes_of_isNode (hi : doc.isNode i = true) (ht : doc.isNode t = true)
    (h : t ∈ doc.ancestors i) : t ∈ doc.getAncestorNodes i := by
  induction i using Nat.strong_induction_on with
  | _ i ih =>
    obtain ⟨g, p, hg, hgraph, hp, hkind⟩ := exists_graph_of_isNode hi
    rcases XPath.Document.eq_or_mem_ancestors_of_parent hg h with rfl | h
    · exact absurd (name_eq ht hgraph) (by decide)
    rcases hkind with hnode | ⟨htop, hnone⟩
    · have hparent := getParentNode_of_parent hg hp hnode
      rw [getAncestorNodes_eq, hparent]
      rcases XPath.Document.eq_or_mem_ancestors_of_parent hp h with rfl | h
      · exact List.mem_append_right _ (List.mem_singleton_self t)
      · exact List.mem_append_left _ (ih p (lt_of_getParentNode hparent) hnode h)
    · rcases XPath.Document.eq_or_mem_ancestors_of_parent hp h with rfl | h
      · exact absurd (name_eq ht htop) (by decide)
      · rw [XPath.Document.ancestors_eq, hnone] at h
        cases h

theorem isDescendantOf_iff : doc.isDescendantOf i t = true ↔
    ∃ d ∈ doc.getDescendantNodes [t], doc.stringValue i = doc.stringValue d := by
  simp [isDescendantOf, XPath.Document.generalEq]

theorem isDescendantOf_of_mem (hi : doc.isNode i = true) (h : t ∈ doc.ancestors i) :
    doc.isDescendantOf i t = true :=
  isDescendantOf_iff.mpr ⟨i, mem_getDescendantNodes.mpr ⟨hi, h⟩, rfl⟩

/-! ## Kinds -/

theorem filterKind_eq :
    doc.filterKind ns kinds = doc.select fun i => i ∈ ns && doc.hasKind kinds i :=
  XPath.Document.parentStep_childStep

theorem mem_filterKind_iff (hns : ∀ i ∈ ns, i < doc.nodes.length) :
    i ∈ doc.filterKind ns kinds ↔ i ∈ ns ∧ doc.hasKind kinds i = true := by
  rw [filterKind_eq, XPath.Document.mem_select, Bool.and_eq_true, decide_eq_true_iff]
  exact ⟨And.right, fun h => ⟨hns i h.1, h⟩⟩

theorem mem_childrenOf_iff (hns : ∀ p ∈ ns, doc.isNode p = true) : i ∈ doc.childrenOf ns ↔
    doc.isNode i = true ∧ ∃ p ∈ ns, doc.getParentNode i = some p := by
  rw [childrenOf, XPath.Document.mem_childStep]
  refine and_congr_right fun hi => ?_
  constructor
  · rintro ⟨g, hgraph, hg⟩
    obtain ⟨-, p, hp, hparent⟩ := XPath.Document.mem_childStep.mp hgraph
    exact ⟨p, hp, getParentNode_of_parent hg hparent (hns p hp)⟩
  · rintro ⟨p, hp, hparent⟩
    obtain ⟨hnode, g, hg, hgp⟩ := exists_of_getParentNode hparent
    obtain ⟨g', _, hg', hgraph, -⟩ := exists_graph_of_isNode hi
    obtain rfl : g' = g := Option.some.inj (hg'.symm.trans hg)
    exact ⟨g', XPath.Document.mem_childStep.mpr ⟨hgraph, p, hp, hgp⟩, hg⟩

/-- The last step of the path brings the children into document order. -/
theorem filterKind_sorted :
    doc.filterKind ((doc.childrenOf ns).insertionSort doc.indexLe) kinds =
      (doc.childrenOf ns).filter (doc.hasKind kinds) := by
  rw [filterKind_eq, childrenOf, XPath.Document.childStep, XPath.Document.select,
    XPath.Document.select, List.filter_filter]
  refine List.filter_congr fun i hi => ?_
  rw [Bool.and_comm]
  congr 1
  rw [Bool.eq_iff_iff, decide_eq_true_iff, List.mem_insertionSort, List.mem_filter]
  exact and_iff_right hi

theorem getChildNodesOfKind_eq (ns : List ℕ) (kinds : List Text) :
    doc.getChildNodesOfKind ns kinds =
      if (doc.childrenOf ns).all fun i => (doc.getIndex i).isSome then
        some ((doc.childrenOf ns).filter (doc.hasKind kinds))
      else none := by
  rw [getChildNodesOfKind]
  split
  · next hnil =>
    have hnone : doc.childrenOf ns = [] := by
      rw [List.length_eq_zero_iff.mp hnil, List.eq_nil_iff_forall_not_mem]
      intro i hi
      simp [childrenOf, XPath.Document.mem_childStep] at hi
    simp [hnone]
  · rw [getChildNodes]
    split
    · rw [Option.map_some, filterKind_sorted]
    · rfl

theorem mem_getChildNodesOfKind {l : List ℕ} (h : doc.getChildNodesOfKind ns kinds = some l) :
    i ∈ l ↔ i ∈ doc.childrenOf ns ∧ doc.hasKind kinds i = true := by
  rw [getChildNodesOfKind_eq] at h
  split at h
  · rw [← Option.some.inj h, List.mem_filter]
  · cases h

/-! ## Definitions -/

theorem getDefinition_succ {depth d : ℕ} : doc.getDefinition (depth + 1) i = some d ↔
    doc.getTargets i (lit "Edge_Definition") = [] ∧ d = i ∨
      ∃ j, doc.getTargets i (lit "Edge_Definition") = [j] ∧ doc.getDefinition depth j = some d := by
  rw [getDefinition]
  cases h : doc.getTargets i (lit "Edge_Definition") with
  | nil => simp [eq_comm]
  | cons j js =>
    cases js with
    | nil => cases hj : doc.getDefinition depth j <;> simp [hj]
    | cons k ks =>
      cases hj : doc.getDefinition depth j <;> cases hk : doc.getDefinition depth k <;>
        cases hks : ks.mapM (doc.getDefinition depth) <;> simp [hj, hk, hks]

/-- More depth changes no definition. -/
theorem getDefinition_mono {depth depth' d : ℕ} (hle : depth ≤ depth')
    (h : doc.getDefinition depth i = some d) : doc.getDefinition depth' i = some d := by
  induction depth generalizing i depth' with
  | zero => cases h
  | succ depth ih =>
    obtain ⟨depth', rfl⟩ : ∃ k, depth' = k + 1 := ⟨depth' - 1, by omega⟩
    rw [getDefinition_succ] at h ⊢
    refine h.imp_right ?_
    rintro ⟨j, hj, hd⟩
    exact ⟨j, hj, ih (by omega) hd⟩

end Document

end Sem.ReGen.Gml

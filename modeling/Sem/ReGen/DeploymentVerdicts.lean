import Sem.ReGen.ChildOrder

/-!
# Three answers to whether a component is deployed

The code generator (`graphml:is_deployed`), the validator (`cdit:test_deployment`) and the deployer
(`ProtobufModelParser::GetDeployedContainerID`) each walk over what is around a component.

* `isDeployed_iff`, `result_deployedResult_iff`, `containerFound_iff`: what each of them finds.
* `verdicts_iff`: where they agree, and where the validator is right about a component that is
  deployed apart from its assembly.
-/

namespace Sem.ReGen.Gml

open Xml (Text)

namespace Document

variable (doc : Document)

/-! ## The validator -/

/-- The nodes that an entity is deployed to itself. -/
def deployedNodes (entity : ℕ) : List ℕ := doc.getTargets entity (lit "Edge_Deployment")

/-- The nodes that the assemblies around an entity are deployed to. -/
def parentDeployedNodes (entity : ℕ) : List ℕ :=
  (doc.getAncestorNodesOfKind entity [lit "ComponentAssembly"]).flatMap doc.deployedNodes

/-- The variable `$is_deployed` of `cdit:test_deployment`. -/
def isDeployedAnyhow (entity : ℕ) : Bool :=
  0 < (doc.deployedNodes entity).length ||
    doc.getKind entity = lit "ComponentInstance" && 0 < (doc.parentDeployedNodes entity).length

/-- The result of a test for any deployment. -/
def deployedResult (entity : ℕ) : Result :=
  ⟨doc.getId entity, doc.isDeployedAnyhow entity,
    joinList [doc.getKind entity, wrapQuote (doc.getLabel entity), lit "is not deployed"] ' ', true⟩

/-- Whether the two nodes are the same is computed, but it is not the result. -/
def sameNodeResult (entity : ℕ) : Option Result :=
  if doc.getKind entity = lit "ComponentInstance" ∧ (doc.deployedNodes entity).length = 1 ∧
    (doc.parentDeployedNodes entity).length = 1 then
    some ⟨doc.getId entity, doc.isDeployedAnyhow entity,
      joinList [doc.getKind entity, wrapQuote (doc.getLabel entity), lit <|
        "deployed to a different HardwareNode than one if its ancestor ComponentAssembly " ++
          "entities"] ' ', true⟩
  else none

/-- `cdit:test_deployment`: two results for each entity. -/
def testDeployment (entities : List ℕ) : List Result :=
  entities.flatMap fun entity => doc.deployedResult entity :: (doc.sameNodeResult entity).toList

/-! ## The deployer -/

/-- `attribute_map_`; of keys with one name the last is found. -/
def attributeMap (keyName : Text) : Text :=
  ((doc.select fun k =>
    doc.isElement .key k && doc.attribute? .attrName k = some keyName).getLast?.bind
      (doc.attribute? .id)).getD []

/-- `id_lookup_`; of elements with one id the last is found. -/
def idLookup (id : Text) : Option ℕ := (doc.select (doc.attribute? .id · = some id)).getLast?

/-- `GetAttribute`. -/
def getAttribute (id : Text) (name : Name) : Text :=
  ((doc.idLookup id).bind (doc.attribute? name)).getD []

/-- The test `[data[@key='..' and .='..']]`. -/
def hasDataValue (kind : Text) (i : ℕ) : Bool :=
  !(doc.childStep [i] fun d => doc.isElement .data d &&
    doc.attribute? .key d = some (doc.attributeMap (lit "kind")) &&
      doc.stringValue d = kind).isEmpty

/-- `FindNodesOfKind`. -/
def findNodesOfKind (kind : Text) : List Text :=
  (doc.select fun i => doc.isNode i && doc.hasDataValue kind i).map doc.getId

/-- `FindEdges` of a kind. -/
def findEdges (kind : Text) : List Text :=
  (doc.select fun e => doc.isElement .edge e && doc.hasDataValue kind e).map doc.getId

/-- `deployed_entities_map_`, which stays empty without a definition of assemblies. -/
def deployedEntitiesMap (id : Text) : List Text :=
  if (doc.findNodesOfKind (lit "AssemblyDefinitions")).length = 1 then
    ((doc.findEdges (lit "Edge_Deployment")).filter (doc.getAttribute · .source = id)).map
      (doc.getAttribute · .target)
  else []

/-- `GetDeployedID`: the first deployment that has been found. -/
def getDeployedId (id : Text) : Text := (doc.deployedEntitiesMap id).head?.getD []

/-- `GetParentNode`: the id of `../..`. -/
def getParentId (id : Text) : Text :=
  (((doc.idLookup id).bind fun i => (doc.parent i).bind doc.parent).bind
    (doc.attribute? .id)).getD []

/-- `GetDeployedContainerID`, to a depth. -/
def getDeployedContainerId : ℕ → Text → Option Text
  | 0, _ => none
  | depth + 1, componentId =>
    if doc.getDeployedId componentId = [] then
      if doc.getParentId componentId = [] then some []
      else getDeployedContainerId depth (doc.getParentId componentId)
    else some (doc.getDeployedId componentId)

/-- A document as the modelling tool writes it. -/
structure IsModelFile : Prop where
  kind_key : (doc.select fun k =>
    doc.isElement .key k && doc.attribute? .attrName k = some (lit "kind")).length = 1
  /-- Data has at most one text in it, and nothing else. -/
  data_texts : ∀ d, doc.isElement .data d = true →
    (doc.select fun i => d ∈ doc.ancestors i).length ≤ 1
  kinds : ∀ i, doc.isNode i = true →
    ∃ d t, doc.dataStep [i] (lit "kind") = [d] ∧ doc.childStep [d] doc.isText = [t]
  all_ids_nodup : ((doc.select fun _ => true).filterMap (doc.attribute? .id)).Nodup
  ids_ne_nil : ∀ i, doc.isNode i = true ∨ doc.isElement .edge i = true →
    ∃ id, doc.attribute? .id i = some id ∧ id ≠ []
  top_id : ∀ i, doc.isElement .graphml i = true → doc.attribute? .id i = none
  /-- An edge is between two nodes. -/
  edge_ends : ∀ e, doc.isElement .edge e = true → ∀ atEnd ∈ [Name.source, Name.target],
    ∃ id n, doc.attribute? atEnd e = some id ∧ doc.getNodeById id = some n

/-! ## Verdicts -/

/-- The entity is deployed itself. -/
def HasDeployment (entity : ℕ) : Prop := doc.deployedNodes entity ≠ []

/-- The assemblies directly around one another and around the component, the innermost first. -/
def assembliesAround (component : ℕ) : List ℕ :=
  (doc.getAncestorNodes component).reverse.takeWhile (doc.getKind · = lit "ComponentAssembly")

/-- The deployer finds a container. -/
def ContainerFound (component : ℕ) : Prop :=
  ∃ depth container, doc.getDeployedContainerId depth (doc.getId component) = some container ∧
    container ≠ []

/-- The validator says that a component is not deployed. -/
def ReportsNotDeployed (component : ℕ) : Prop := (doc.deployedResult component).result = false

/-- The validator says that a component is not where its assemblies are. -/
def ReportsDifferentNode (component : ℕ) : Prop :=
  ∃ r ∈ doc.sameNodeResult component, r.result = false

/-- The component and some assembly around it are deployed to different nodes. -/
def DeployedApart (component : ℕ) : Prop :=
  ∃ n ∈ doc.deployedNodes component, ∃ assembly ∈ doc.getAncestorNodes component,
    doc.getKind assembly = lit "ComponentAssembly" ∧ ∃ m ∈ doc.deployedNodes assembly, m ≠ n

/-- The generator, the validator and the parser agree on a component. -/
def VerdictsAgree (component : ℕ) : Prop :=
  (doc.isDeployed component = true ↔ ¬ doc.ReportsNotDeployed component) ∧
    (¬ doc.ReportsNotDeployed component ↔ doc.ContainerFound component)

/-- The parser finds one node for the assemblies. -/
def HasAssemblyDefinitions : Prop :=
  (doc.findNodesOfKind (lit "AssemblyDefinitions")).length = 1

variable {doc} {c i p d : ℕ}

/-! ## The walk of the code generator -/

theorem isDeployedUpTo_of_lt {n : ℕ} (h : i < n) : doc.isDeployedUpTo n i = doc.isDeployed i := by
  suffices hmore : ∀ n m i, i < n → i < m → doc.isDeployedUpTo n i = doc.isDeployedUpTo m i from
    hmore n (i + 1) i h (Nat.lt_succ_self i)
  intro n
  induction n with
  | zero => intro m i hn; omega
  | succ n ih =>
    intro m i hn hm
    obtain ⟨m, rfl⟩ : ∃ k, m = k + 1 := ⟨m - 1, by omega⟩
    cases hp : doc.getParentNode i with
    | none => simp [isDeployedUpTo, hp]
    | some p =>
      have hlt := lt_of_getParentNode hp
      simp only [isDeployedUpTo, hp, ih m p (by omega) (by omega)]

theorem isDeployed_eq (i : ℕ) : doc.isDeployed i =
    (decide (0 < (doc.deployedNodes i).length) || match doc.getParentNode i with
      | some p => doc.getKind p = lit "ComponentAssembly" && doc.isDeployed p
      | none => false) := by
  rw [isDeployed, isDeployedUpTo, deployedNodes]
  split
  · next h => simp [h]
  · next h =>
    cases hp : doc.getParentNode i with
    | none => simp [h]
    | some p => simp [h, isDeployedUpTo_of_lt (lt_of_getParentNode hp)]

theorem assembliesAround_eq (i : ℕ) : doc.assembliesAround i =
    match doc.getParentNode i with
    | some p => if doc.getKind p = lit "ComponentAssembly" then p :: doc.assembliesAround p else []
    | none => [] := by
  rw [assembliesAround, getAncestorNodes_eq]
  cases hp : doc.getParentNode i with
  | none => rfl
  | some p =>
    rw [List.reverse_concat, List.takeWhile_cons]
    simp only [decide_eq_true_iff]
    rfl

/-- The code generator looks at the component and at the assemblies that are directly around it. -/
theorem isDeployed_iff : doc.isDeployed c = true ↔
    doc.HasDeployment c ∨ ∃ a ∈ doc.assembliesAround c, doc.HasDeployment a := by
  induction c using Nat.strong_induction_on with
  | _ c ih =>
    rw [isDeployed_eq, assembliesAround_eq, Bool.or_eq_true, decide_eq_true_iff,
      List.length_pos_iff]
    refine or_congr Iff.rfl ?_
    cases hp : doc.getParentNode c with
    | none => simp
    | some p =>
      by_cases hkind : doc.getKind p = lit "ComponentAssembly"
      · simp [hkind, ih p (lt_of_getParentNode hp)]
      · simp [hkind]

theorem mem_of_mem_assembliesAround {a : ℕ} (h : a ∈ doc.assembliesAround c) :
    a ∈ doc.getAncestorNodes c ∧ doc.getKind a = lit "ComponentAssembly" := by
  refine ⟨List.mem_reverse.mp ((List.takeWhile_sublist _).subset h), ?_⟩
  unfold assembliesAround at h
  simpa using List.mem_takeWhile_imp h

/-! ## The walk of the validator -/

namespace IsModelFile

variable (h : doc.IsModelFile)

include h

theorem hasKind_iff {kinds : List Text} (hi : doc.isNode i = true) :
    doc.hasKind kinds i = true ↔ doc.getKind i ∈ kinds := by
  obtain ⟨d, t, hdata, htext⟩ := h.kinds i hi
  exact hasKind_iff_getKind_mem hdata htext

theorem mem_getAncestorNodesOfKind {a : ℕ} (hc : doc.isNode c = true) :
    a ∈ doc.getAncestorNodesOfKind c [lit "ComponentAssembly"] ↔
      a ∈ doc.getAncestorNodes c ∧ doc.getKind a = lit "ComponentAssembly" := by
  rw [getAncestorNodesOfKind, filterKind_eq, XPath.Document.mem_select, Bool.and_eq_true,
    decide_eq_true_iff, XPath.Document.ancestorStep, XPath.Document.mem_select]
  constructor
  · rintro ⟨-, ⟨-, htest⟩, hkind⟩
    obtain ⟨ha, hin⟩ : doc.isNode a = true ∧ a ∈ doc.ancestors c := by simpa using htest
    rw [h.hasKind_iff ha, List.mem_singleton] at hkind
    exact ⟨mem_getAncestorNodes_of_isNode hc ha hin, hkind⟩
  · rintro ⟨hin, hkind⟩
    have ha := isNode_of_mem_getAncestorNodes hin
    have hlt := isNode_lt_length ha
    refine ⟨hlt, ⟨hlt, ?_⟩, (h.hasKind_iff ha).mpr (List.mem_singleton.mpr hkind)⟩
    simp [ha, mem_ancestors_of_mem_getAncestorNodes hin]

/-- The validator looks at the component and at all assemblies around it. -/
theorem result_deployedResult_iff (hc : doc.isNode c = true)
    (hkind : doc.getKind c = lit "ComponentInstance") :
    ¬ doc.ReportsNotDeployed c ↔ doc.HasDeployment c ∨
      ∃ a ∈ doc.getAncestorNodes c, doc.getKind a = lit "ComponentAssembly" ∧
        doc.HasDeployment a := by
  rw [ReportsNotDeployed, Bool.not_eq_false, deployedResult, isDeployedAnyhow, hkind]
  simp only [decide_true, Bool.true_and, Bool.or_eq_true, decide_eq_true_iff, List.length_pos_iff]
  refine or_congr Iff.rfl ?_
  rw [parentDeployedNodes, ne_eq, List.flatMap_eq_nil_iff]
  push Not
  refine exists_congr fun a => ?_
  rw [h.mem_getAncestorNodesOfKind hc, and_assoc]
  rfl

end IsModelFile

/-! ## The walk of the deployer -/

namespace IsModelFile

variable (h : doc.IsModelFile)

include h

theorem attributeMap_kind : doc.attributeMap (lit "kind") = doc.getKeyId (lit "kind") := by
  obtain ⟨k, hk⟩ := List.length_eq_one_iff.mp h.kind_key
  rw [attributeMap, getKeyId, hk]
  cases hid : doc.attribute? .id k <;> simp [hid, valueOf]

/-- Data is equal to a text exactly where that is the text in it. -/
theorem stringValue_eq_iff (hd : doc.isElement .data d = true) {s : Text} (hs : s ≠ []) :
    doc.stringValue d = s ↔ (doc.childStep [d] doc.isText).any (doc.textOf · ∈ [s]) = true := by
  have hmem : ∀ t, d ∈ doc.ancestors t → t ∈ doc.select fun i => d ∈ doc.ancestors i :=
    fun t ht => XPath.Document.mem_select.mpr
      ⟨XPath.Document.lt_length_of_mem_ancestors ht, decide_eq_true ht⟩
  have hchild : ∀ t ∈ doc.childStep [d] doc.isText, doc.parent t = some d := by
    intro t ht
    obtain ⟨-, q, hq, hparent⟩ := XPath.Document.mem_childStep.mp ht
    exact List.mem_singleton.mp hq ▸ hparent
  have hin : ∀ t ∈ doc.childStep [d] doc.isText, t ∈ doc.select fun i => d ∈ doc.ancestors i :=
    fun t ht => hmem t (XPath.Document.mem_ancestors_of_parent (hchild t ht) (.inl rfl))
  rw [XPath.Document.stringValue_of_textOf_eq_nil (XPath.Document.textOf_of_isElement hd),
    List.any_eq_true]
  rcases hlist : doc.select fun i => d ∈ doc.ancestors i with _ | ⟨t, rest⟩
  · refine iff_of_false (fun heq => hs heq.symm) ?_
    rintro ⟨t, ht, -⟩
    rw [hlist] at hin
    cases hin t ht
  · have hlength := h.data_texts d hd
    rw [hlist, List.length_cons] at hlength
    obtain rfl : rest = [] := List.eq_nil_of_length_eq_zero (by omega)
    rw [hlist] at hmem hin
    -- What is in the data is directly in it: its parent would be in the data as well.
    have hparent : doc.parent t = some d := by
      have htd : d ∈ doc.ancestors t := by
        have ht : t ∈ doc.select fun i => d ∈ doc.ancestors i := by
          rw [hlist]
          exact List.mem_singleton_self t
        exact of_decide_eq_true (XPath.Document.mem_select.mp ht).2
      obtain ⟨q, hq, hqd⟩ :=
        Relation.TransGen.head'_iff.mp (XPath.Document.mem_ancestors_iff.mp htd)
      rcases Relation.reflTransGen_iff_eq_or_transGen.mp hqd with rfl | hqd
      · exact hq
      · have hqt := List.mem_singleton.mp (hmem q (XPath.Document.mem_ancestors_iff.mpr hqd))
        exact absurd (XPath.Document.lt_of_parent hq) (by omega)
    rw [List.flatMap_cons, List.flatMap_nil, List.append_nil]
    constructor
    · intro heq
      have htext := XPath.Document.isText_of_textOf_ne_nil (heq ▸ hs)
      have hmem : t ∈ doc.childStep [d] doc.isText :=
        XPath.Document.mem_childStep.mpr ⟨htext, d, List.mem_singleton_self d, hparent⟩
      exact ⟨t, hmem, by simpa using heq⟩
    · rintro ⟨u, hu, htext⟩
      obtain rfl := List.mem_singleton.mp (hin u hu)
      simpa using htext

/-- Both readers tell kinds in the same way. -/
theorem hasDataValue_eq {kind : Text} (hkind : kind ≠ []) (i : ℕ) :
    doc.hasDataValue kind i = doc.hasKind [kind] i := by
  rw [hasDataValue, hasKind, h.attributeMap_kind]
  congr 3
  funext d
  rw [isDataOfKind, Bool.eq_iff_iff, Bool.and_eq_true, Bool.and_eq_true (_ && _)]
  refine and_congr_right fun hd => ?_
  rw [decide_eq_true_iff]
  exact h.stringValue_eq_iff (Bool.and_eq_true_iff.mp hd).1 hkind

theorem eq_of_id {j : ℕ} {id : Text} (hi : doc.attribute? .id i = some id)
    (hj : doc.attribute? .id j = some id) : i = j := by
  have hlt : ∀ k, doc.attribute? .id k = some id → k ∈ doc.select fun _ => true := fun k hk =>
    XPath.Document.mem_select.mpr ⟨XPath.Document.lt_length_of_attribute? hk, rfl⟩
  by_contra hne
  have hpair := List.pairwise_filterMap.mp h.all_ids_nodup
  have : Std.Symm fun a b => ∀ x, doc.attribute? .id a = some x →
      ∀ y, doc.attribute? .id b = some y → x ≠ y :=
    ⟨fun a b hab x hx y hy hxy => hab y hy x hx hxy.symm⟩
  exact hpair.forall (hlt i hi) (hlt j hj) hne id hi id hj rfl

theorem idLookup_getId (hi : doc.isNode i = true ∨ doc.isElement .edge i = true) :
    doc.idLookup (doc.getId i) = some i := by
  obtain ⟨id, hid, -⟩ := h.ids_ne_nil i hi
  have hget : doc.getId i = id := by rw [getId, hid, Option.getD_some]
  rw [hget, idLookup]
  cases hlast : (doc.select (doc.attribute? .id · = some id)).getLast? with
  | none =>
    have hmem : i ∈ doc.select (doc.attribute? .id · = some id) :=
      XPath.Document.mem_select.mpr
        ⟨XPath.Document.lt_length_of_attribute? hid, decide_eq_true hid⟩
    rw [List.getLast?_eq_none_iff.mp hlast] at hmem
    cases hmem
  | some j =>
    have hj := of_decide_eq_true (XPath.Document.mem_select.mp (List.mem_of_getLast? hlast)).2
    rw [h.eq_of_id hj hid]

/-- The deployer reads the edges that the transformations read. -/
theorem map_findEdges (id : Text) :
    ((doc.findEdges (lit "Edge_Deployment")).filter (doc.getAttribute · .source = id)).map
        (doc.getAttribute · .target) =
      (doc.edgesAt .source id (lit "Edge_Deployment")).map fun e =>
        (doc.attribute? .target e).getD [] := by
  have hget : ∀ e, doc.isElement .edge e = true → ∀ name,
      doc.getAttribute (doc.getId e) name = (doc.attribute? name e).getD [] := by
    intro e he name
    rw [getAttribute, h.idLookup_getId (.inr he), Option.bind_some]
  have hedges : (doc.select fun e => doc.isElement .edge e &&
        doc.hasDataValue (lit "Edge_Deployment") e).filter
          (fun e => doc.getAttribute (doc.getId e) .source = id) =
      doc.edgesAt .source id (lit "Edge_Deployment") := by
    rw [edgesAt, filterKind_eq, XPath.Document.select, XPath.Document.select,
      XPath.Document.select, List.filter_filter]
    refine List.filter_congr fun e he => ?_
    rw [h.hasDataValue_eq (by decide), Bool.eq_iff_iff]
    simp only [Bool.and_eq_true, decide_eq_true_iff, List.mem_filter, he, true_and]
    constructor
    · rintro ⟨hsource, hedge, hkind⟩
      obtain ⟨value, n, hvalue, -⟩ := h.edge_ends e hedge .source (by decide)
      rw [hget e hedge, hvalue, Option.getD_some] at hsource
      exact ⟨⟨hedge, hsource ▸ hvalue⟩, hkind⟩
    · rintro ⟨⟨hedge, hsource⟩, hkind⟩
      exact ⟨by rw [hget e hedge, hsource, Option.getD_some], hedge, hkind⟩
  rw [findEdges, List.filter_map, List.map_map, ← hedges]
  refine List.map_congr_left fun e he => ?_
  have hedge := (Bool.and_eq_true_iff.mp
    (XPath.Document.mem_select.mp (List.mem_of_mem_filter he)).2).1
  exact hget e hedge .target

omit h in
theorem isElement_edge_of_mem {e : ℕ} {id edgeKind : Text}
    (he : e ∈ doc.edgesAt .source id edgeKind) : doc.isElement .edge e = true := by
  rw [edgesAt, filterKind_eq] at he
  have hmem := (Bool.and_eq_true_iff.mp (XPath.Document.mem_select.mp he).2).1
  exact (Bool.and_eq_true_iff.mp (XPath.Document.mem_select.mp (of_decide_eq_true hmem)).2).1

theorem hasDeployment_iff :
    doc.HasDeployment i ↔ doc.edgesAt .source (doc.getId i) (lit "Edge_Deployment") ≠ [] := by
  rw [HasDeployment, deployedNodes, getTargets, not_iff_not]
  constructor
  · intro hnil
    refine List.eq_nil_iff_forall_not_mem.mpr fun e he => ?_
    obtain ⟨id, n, hid, hn⟩ := h.edge_ends e (isElement_edge_of_mem he) .target (by decide)
    have hmem := List.filterMap_eq_nil_iff.mp hnil e he
    rw [hid, Option.bind_some, hn] at hmem
    cases hmem
  · intro hnil
    rw [hnil, List.filterMap_nil]

/-- The deployer finds the deployment of an entity in a file with a definition of assemblies. -/
theorem getDeployedId_ne_nil_iff :
    doc.getDeployedId (doc.getId i) ≠ [] ↔ doc.HasAssemblyDefinitions ∧ doc.HasDeployment i := by
  rw [getDeployedId, deployedEntitiesMap, h.hasDeployment_iff, HasAssemblyDefinitions]
  split
  · next hone =>
    rw [h.map_findEdges, and_iff_right hone]
    cases hedges : doc.edgesAt .source (doc.getId i) (lit "Edge_Deployment") with
    | nil => simp
    | cons e es =>
      have hedge := isElement_edge_of_mem (hedges ▸ List.mem_cons_self : e ∈ doc.edgesAt _ _ _)
      obtain ⟨id, n, hid, hn⟩ := h.edge_ends e hedge .target (by decide)
      have hnode := List.find?_some hn
      have hmem := (XPath.Document.mem_select.mp (List.mem_of_find?_eq_some hn)).2
      obtain ⟨id', hid', hne⟩ := h.ids_ne_nil n (.inl hmem)
      have hsame : id' = id := Option.some.inj (hid'.symm.trans (of_decide_eq_true hnode))
      simpa [hid] using hsame ▸ hne
  · next hone => simp [hone]

theorem getId_ne_nil (hi : doc.isNode i = true) : doc.getId i ≠ [] := by
  obtain ⟨id, hid, hne⟩ := h.ids_ne_nil i (.inl hi)
  rwa [getId, hid, Option.getD_some]

/-- The deployer goes up to the same parents. -/
theorem getParentId_eq (hi : doc.isNode i = true) : doc.getParentId (doc.getId i) =
    match doc.getParentNode i with
    | some p => doc.getId p
    | none => [] := by
  obtain ⟨g, p, hg, -, hp, hkind⟩ := exists_graph_of_isNode hi
  rw [getParentId, h.idLookup_getId (.inl hi), Option.bind_some, hg, Option.bind_some, hp,
    Option.bind_some]
  rcases hkind with hnode | ⟨htop, -⟩
  · rw [getParentNode_of_parent hg hp hnode]
    rfl
  · have hnode : doc.isNode p = false := by
      by_contra hnode
      exact absurd (name_eq (Bool.eq_true_of_not_eq_false hnode) htop) (by decide)
    rw [h.top_id p htop, getParentNode, hg, Option.bind_some, hp, Option.filter_some, hnode]
    rfl

theorem exists_getDeployedContainerId (hi : doc.isNode i = true) : ∃ depth container,
    doc.getDeployedContainerId depth (doc.getId i) = some container ∧
      (container ≠ [] ↔ doc.HasAssemblyDefinitions ∧
        (doc.HasDeployment i ∨ ∃ a ∈ doc.getAncestorNodes i, doc.HasDeployment a)) := by
  induction i using Nat.strong_induction_on with
  | _ i ih =>
    by_cases hid : doc.getDeployedId (doc.getId i) = []
    · have hnone : ¬ (doc.HasAssemblyDefinitions ∧ doc.HasDeployment i) := fun hboth =>
        h.getDeployedId_ne_nil_iff.mpr hboth hid
      cases hp : doc.getParentNode i with
      | none =>
        refine ⟨1, [], ?_, ?_⟩
        · rw [getDeployedContainerId, if_pos hid, h.getParentId_eq hi, hp, if_pos rfl]
        · rw [getAncestorNodes_eq, hp]
          simpa using hnone
      | some p =>
        have hnode := (exists_of_getParentNode hp).1
        obtain ⟨depth, container, hcontainer, hiff⟩ := ih p (lt_of_getParentNode hp) hnode
        refine ⟨depth + 1, container, ?_, hiff.trans ?_⟩
        · rw [getDeployedContainerId, if_pos hid, h.getParentId_eq hi, hp,
            if_neg (h.getId_ne_nil hnode), hcontainer]
        · refine and_congr_right fun hone => ?_
          have hnot : ¬ doc.HasDeployment i := fun hi => hnone ⟨hone, hi⟩
          rw [or_iff_right hnot, getAncestorNodes_eq i, hp]
          simp only [List.mem_append, List.mem_singleton, or_and_right, exists_or, exists_eq_left]
          exact Or.comm
    · have hboth := h.getDeployedId_ne_nil_iff.mp hid
      refine ⟨1, _, by rw [getDeployedContainerId, if_neg hid], iff_of_true hid ?_⟩
      exact ⟨hboth.1, .inl hboth.2⟩

omit h in
theorem getDeployedContainerId_mono {m n : ℕ} {id container : Text} (hmn : m ≤ n)
    (hm : doc.getDeployedContainerId m id = some container) :
    doc.getDeployedContainerId n id = some container := by
  induction m generalizing n id with
  | zero => cases hm
  | succ m ihm =>
    obtain ⟨n, rfl⟩ : ∃ k, n = k + 1 := ⟨n - 1, by omega⟩
    rw [getDeployedContainerId] at hm ⊢
    split
    · next hid =>
      rw [if_pos hid] at hm
      split
      · next hparent => rwa [if_pos hparent] at hm
      · next hparent =>
        rw [if_neg hparent] at hm
        exact ihm (by omega) hm
    · next hid => rwa [if_neg hid] at hm

/-- The deployer looks at the component and at everything around it. -/
theorem containerFound_iff (hc : doc.isNode c = true) : doc.ContainerFound c ↔
    doc.HasAssemblyDefinitions ∧
      (doc.HasDeployment c ∨ ∃ a ∈ doc.getAncestorNodes c, doc.HasDeployment a) := by
  obtain ⟨n, container, hn, hiff⟩ := h.exists_getDeployedContainerId hc
  rw [← hiff, ContainerFound]
  constructor
  · rintro ⟨m, container', hm, hne⟩
    have hsame := (getDeployedContainerId_mono (Nat.le_max_left n m) hn).symm.trans
      (getDeployedContainerId_mono (Nat.le_max_right n m) hm)
    rwa [Option.some.inj hsame]
  · intro hne
    exact ⟨n, container, hn, hne⟩

end IsModelFile

/-! ## Agreement -/

/-- The validator never reports two nodes as different. -/
theorem not_reportsDifferentNode : ¬ doc.ReportsDifferentNode c := by
  rintro ⟨r, hr, hfalse⟩
  rw [sameNodeResult] at hr
  split at hr
  · next hcond =>
    rw [← Option.some.inj hr, isDeployedAnyhow] at hfalse
    simp [hcond.2.1] at hfalse
  · cases hr

/-- The three verdicts agree exactly where, in a file with a definition of assemblies, nothing else
around the component than the assemblies directly around it is deployed in their place, and in
another file neither the component nor an assembly around it is. Two different nodes are never
reported. -/
theorem verdicts_iff (h : doc.IsModelFile) (hc : doc.isNode c = true)
    (hkind : doc.getKind c = lit "ComponentInstance") :
    (doc.VerdictsAgree c ↔
      (doc.HasAssemblyDefinitions →
        (doc.HasDeployment c ∨ ∃ a ∈ doc.getAncestorNodes c, doc.HasDeployment a) →
        doc.HasDeployment c ∨ ∃ a ∈ doc.assembliesAround c, doc.HasDeployment a) ∧
      (¬ doc.HasAssemblyDefinitions → ¬ (doc.HasDeployment c ∨
        ∃ a ∈ doc.getAncestorNodes c, doc.getKind a = lit "ComponentAssembly" ∧
          doc.HasDeployment a))) ∧
    ((doc.ReportsDifferentNode c ↔ doc.DeployedApart c) ↔ ¬ doc.DeployedApart c) := by
  have hinner : (∃ a ∈ doc.assembliesAround c, doc.HasDeployment a) →
      ∃ a ∈ doc.getAncestorNodes c, doc.getKind a = lit "ComponentAssembly" ∧
        doc.HasDeployment a := by
    rintro ⟨a, ha, hdeployed⟩
    obtain ⟨hin, hassembly⟩ := mem_of_mem_assembliesAround ha
    exact ⟨a, hin, hassembly, hdeployed⟩
  have houter : (∃ a ∈ doc.getAncestorNodes c, doc.getKind a = lit "ComponentAssembly" ∧
      doc.HasDeployment a) → ∃ a ∈ doc.getAncestorNodes c, doc.HasDeployment a := by
    rintro ⟨a, ha, -, hdeployed⟩
    exact ⟨a, ha, hdeployed⟩
  rw [VerdictsAgree, isDeployed_iff, h.result_deployedResult_iff hc hkind,
    h.containerFound_iff hc, iff_false_left not_reportsDifferentNode]
  refine ⟨?_, Iff.rfl⟩
  revert hinner houter
  generalize (∃ a ∈ doc.assembliesAround c, doc.HasDeployment a) = inner
  generalize (∃ a ∈ doc.getAncestorNodes c, doc.getKind a = lit "ComponentAssembly" ∧
    doc.HasDeployment a) = assembly
  generalize (∃ a ∈ doc.getAncestorNodes c, doc.HasDeployment a) = outer
  generalize doc.HasDeployment c = own
  generalize doc.HasAssemblyDefinitions = one
  clear h hc hkind
  tauto

end Document

/-! ## A component and its assembly on different nodes -/

/-- An assembly that is deployed to one node, with a component that is deployed to another. -/
def twoNodes : Document where
  nodes := [
    ⟨none, .element .graphml []⟩,
    ⟨some 0, .element .key [(.id, lit "d0"), (.attrName, lit "kind")]⟩,
    ⟨some 0, .element .graph []⟩,
    ⟨some 2, .element .node [(.id, lit "n0")]⟩,
    ⟨some 3, .element .data [(.key, lit "d0")]⟩,
    ⟨some 4, .text (lit "AssemblyDefinitions")⟩,
    ⟨some 3, .element .graph []⟩,
    ⟨some 6, .element .node [(.id, lit "n1")]⟩,
    ⟨some 7, .element .data [(.key, lit "d0")]⟩,
    ⟨some 8, .text (lit "ComponentAssembly")⟩,
    ⟨some 7, .element .graph []⟩,
    ⟨some 10, .element .node [(.id, lit "n2")]⟩,
    ⟨some 11, .element .data [(.key, lit "d0")]⟩,
    ⟨some 12, .text (lit "ComponentInstance")⟩,
    ⟨some 2, .element .node [(.id, lit "n3")]⟩,
    ⟨some 14, .element .data [(.key, lit "d0")]⟩,
    ⟨some 15, .text (lit "HardwareNode")⟩,
    ⟨some 2, .element .node [(.id, lit "n4")]⟩,
    ⟨some 17, .element .data [(.key, lit "d0")]⟩,
    ⟨some 18, .text (lit "HardwareNode")⟩,
    ⟨some 2, .element .edge [(.id, lit "e0"), (.source, lit "n1"), (.target, lit "n3")]⟩,
    ⟨some 20, .element .data [(.key, lit "d0")]⟩,
    ⟨some 21, .text (lit "Edge_Deployment")⟩,
    ⟨some 2, .element .edge [(.id, lit "e1"), (.source, lit "n2"), (.target, lit "n4")]⟩,
    ⟨some 23, .element .data [(.key, lit "d0")]⟩,
    ⟨some 24, .text (lit "Edge_Deployment")⟩]
  parent_lt := by decide
  ids_nodup := by decide
  nodes_nested := by decide

theorem isModelFile_twoNodes : twoNodes.IsModelFile where
  kind_key := by decide
  data_texts d hd := by
    have hall : ∀ d < 26, twoNodes.isElement .data d = true →
        (twoNodes.select fun i => d ∈ twoNodes.ancestors i).length ≤ 1 := by decide
    exact hall d (XPath.Document.lt_length_of_isElement hd) hd
  kinds i hi := by
    have hall : ∀ i < 26, twoNodes.isNode i = true →
        twoNodes.dataStep [i] (lit "kind") = [i + 1] ∧
          twoNodes.childStep [i + 1] twoNodes.isText = [i + 2] := by decide
    exact ⟨i + 1, i + 2, hall i (Document.isNode_lt_length hi) hi⟩
  all_ids_nodup := by decide
  ids_ne_nil i hi := by
    have hall : ∀ i < 26, twoNodes.isNode i = true ∨ twoNodes.isElement .edge i = true →
        (twoNodes.attribute? .id i).isSome = true ∧ twoNodes.getId i ≠ [] := by decide
    have hlt : i < 26 := hi.elim XPath.Document.lt_length_of_isElement
      XPath.Document.lt_length_of_isElement
    obtain ⟨hsome, hne⟩ := hall i hlt hi
    obtain ⟨id, hid⟩ := Option.isSome_iff_exists.mp hsome
    rw [Document.getId, hid] at hne
    exact ⟨id, hid, hne⟩
  top_id i hi := by
    have hall : ∀ i < 26, twoNodes.isElement .graphml i = true →
        twoNodes.attribute? .id i = none := by decide
    exact hall i (XPath.Document.lt_length_of_isElement hi) hi
  edge_ends e he atEnd hend := by
    have hall : ∀ e < 26, twoNodes.isElement .edge e = true →
        ∀ atEnd ∈ [Name.source, Name.target],
          ((twoNodes.attribute? atEnd e).bind twoNodes.getNodeById).isSome = true := by decide
    obtain ⟨n, hn⟩ := Option.isSome_iff_exists.mp
      (hall e (XPath.Document.lt_length_of_isElement he) he atEnd hend)
    obtain ⟨id, hid, hn⟩ := Option.bind_eq_some_iff.mp hn
    exact ⟨id, n, hid, hn⟩

theorem verdicts_iff_twoNodes : twoNodes.VerdictsAgree 11 := by
  refine (Document.verdicts_iff isModelFile_twoNodes (by decide) (by decide)).1.mpr
    ⟨fun _ _ => .inl ?_, fun hnot => absurd ?_ hnot⟩
  · unfold Document.HasDeployment
    decide
  · unfold Document.HasAssemblyDefinitions
    decide

theorem not_verdicts : ¬ ∀ (doc : Document) (c : ℕ), doc.IsModelFile → doc.isNode c = true →
    doc.getKind c = lit "ComponentInstance" →
    doc.VerdictsAgree c ∧ (doc.ReportsDifferentNode c ↔ doc.DeployedApart c) := by
  intro h
  have hreport := (h twoNodes 11 isModelFile_twoNodes (by decide) (by decide)).2
  refine Document.not_reportsDifferentNode (hreport.mpr ⟨17, by decide, 7, by decide, by decide,
    14, by decide, by decide⟩)

end Sem.ReGen.Gml

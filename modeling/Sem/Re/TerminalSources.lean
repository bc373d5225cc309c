import Sem.Re.AssemblyEdges

/-!
# Where edges of a kind begin

`GetTerminalSourcesByEdgeKind` is a search for the nodes that no edges of the kind lead to. A delegate
of an external port ends a connection, but what is behind it is still visited.

* `getTerminalSourcesByEdgeKind_eq`: it is a search of the graph of these edges.
* `getTerminalSourcesByEdgeKind_spec`: what it finds, and when it throws.
* `exists_assemblyConnections`: the assembly connections of a model are found with it.
-/

namespace Sem.Re

open Xml (Text)

namespace Model

variable (model : Model) (kind : EdgeKind)

/-- The search for the sources of edges of a kind. -/
def sourceSearch : BackwardSearch Text ParseError where
  sources id := (model.edgesTo kind id).map (·.source)
  passes id := kind ≠ .assembly ∨ model.recurseEdges id
  insert := setInsert
  mem_insert := mem_setInsert
  cyclic := .cyclicLink
  spent := .outOfFuel

/-- There is an edge of the kind from the second node to the first. -/
def EdgeFrom (id source : Text) : Prop :=
  ∃ e ∈ model.edges, e.kind = kind ∧ e.target = id ∧ e.source = source

/-- A delegate of an external port, to assembly edges. -/
def IsDelegateFor (id : Text) : Prop :=
  kind = .assembly ∧
    (model.kind id = some .pubSubPortDelegate ∨ model.kind id = some .requestPortDelegate)

/-- A way back from a node along edges of a kind, through nodes that are no delegates. -/
inductive WayBack : Text → Text → Prop
  | edge {id source : Text} : model.EdgeFrom kind id source → WayBack id source
  | more {id source last : Text} : WayBack id source → ¬ model.IsDelegateFor kind source →
      model.EdgeFrom kind source last → WayBack id last

/-- The node is on a way back, and no edge of the kind leads to it, or it is a delegate. -/
def TerminalSource (id source : Text) : Prop :=
  model.WayBack kind id source ∧
    ((∀ s, ¬ model.EdgeFrom kind source s) ∨ model.IsDelegateFor kind source)

/-- A cycle of edges of the kind can be reached backwards. -/
def CycleBehind (id : Text) : Prop :=
  ∃ c, Relation.ReflTransGen (model.EdgeFrom kind) id c ∧ Relation.TransGen (model.EdgeFrom kind) c c

variable {model} {kind} {id source : Text}

theorem getTerminalSourcesByEdgeKind_eq (fuel : Nat) (prevIds : List Text) (id : Text) :
    model.getTerminalSourcesByEdgeKind kind fuel prevIds id =
      (model.sourceSearch kind).run fuel prevIds id := by
  induction fuel generalizing prevIds id with
  | zero => rfl
  | succ fuel ih =>
    rw [getTerminalSourcesByEdgeKind, BackwardSearch.run]
    by_cases hprev : id ∈ prevIds
    · rw [if_pos hprev, if_pos hprev]
      rfl
    rw [if_neg hprev, if_neg hprev]
    show _ = ((model.edgesTo kind id).map (·.source)).foldlM _ _
    rw [List.foldlM_map]
    congr 1
    funext sourceIds e
    rw [ih]
    cases (model.sourceSearch kind).run fuel (id :: prevIds) e.source with
    | error err => rfl
    | ok connected =>
      show (if _ then _ else _) = pure (BackwardSearch.add _ _ _ _)
      rw [BackwardSearch.add]
      simp only [sourceSearch, decide_eq_true_eq]
      split <;> rfl

/-- For assembly edges, this is the search of the connections. -/
theorem getTerminalSources_eq (fuel : Nat) (prevIds : List Text) (id : Text) :
    model.getTerminalSources fuel prevIds id =
      model.getTerminalSourcesByEdgeKind .assembly fuel prevIds id := by
  induction fuel generalizing prevIds id with
  | zero => rfl
  | succ fuel ih =>
    rw [getTerminalSources, getTerminalSourcesByEdgeKind]
    simp only [ih, ne_eq, not_true_eq_false, false_or]
    rfl

theorem back_iff : (model.sourceSearch kind).Back id source ↔ model.EdgeFrom kind id source := by
  simp only [BackwardSearch.Back, sourceSearch, edgesTo, EdgeFrom, List.mem_map, List.mem_filter,
    decide_eq_true_eq, and_assoc]

theorem passes_iff :
    (model.sourceSearch kind).passes id = true ↔ ¬ model.IsDelegateFor kind id := by
  simp only [sourceSearch, IsDelegateFor, recurseEdges, decide_eq_true_eq, Bool.not_eq_true',
    Bool.or_eq_false_iff, decide_eq_false_iff_not]
  tauto

theorem leads_iff : (model.sourceSearch kind).Leads id source ↔ model.WayBack kind id source := by
  constructor
  · rintro ⟨s, hs, hrest⟩
    induction hrest with
    | refl => exact .edge (back_iff.mp hs)
    | tail _ hstep ih => exact .more ih (passes_iff.mp hstep.1) (back_iff.mp hstep.2)
  · intro h
    induction h with
    | edge hedge => exact ⟨_, back_iff.mpr hedge, .refl⟩
    | more _ hpasses hedge ih =>
      obtain ⟨s, hs, hrest⟩ := ih
      exact ⟨s, hs, hrest.tail ⟨passes_iff.mpr hpasses, back_iff.mpr hedge⟩⟩

theorem terminalSource_iff : model.TerminalSource kind id source ↔
    (model.sourceSearch kind).Leads id source ∧ (model.sourceSearch kind).Terminal source := by
  have hnil : (∀ s, ¬ model.EdgeFrom kind source s) ↔ (model.sourceSearch kind).sources source = [] := by
    rw [List.eq_nil_iff_forall_not_mem]
    exact forall_congr' fun s => not_congr back_iff.symm
  have hdelegate : model.IsDelegateFor kind source ↔
      (model.sourceSearch kind).passes source = false := by
    rw [← Bool.not_eq_true, passes_iff, not_not]
  rw [TerminalSource, leads_iff, hnil, hdelegate]
  rfl

theorem cycleBehind_iff : (model.sourceSearch kind).CycleBehind id ↔ model.CycleBehind kind id := by
  have hback : (model.sourceSearch kind).Back = model.EdgeFrom kind :=
    funext fun _ => funext fun _ => propext back_iff
  rw [BackwardSearch.CycleBehind, hback]
  rfl

/-- The fuel is enough for all nodes that a search can come to. -/
theorem exists_nodes (model : Model) (kind : EdgeKind) (id : Text) : ∃ nodes : Finset Text,
    (∀ a, ∀ s ∈ (model.sourceSearch kind).sources a, s ∈ nodes) ∧ id ∈ nodes ∧
      (nodes \ ([] : List Text).toFinset).card < model.edges.length + 2 := by
  refine ⟨insert id (model.edges.map (·.source)).toFinset, fun a s hs => ?_,
    Finset.mem_insert_self _ _, ?_⟩
  · obtain ⟨e, he, -, -, rfl⟩ := back_iff.mp hs
    exact Finset.mem_insert_of_mem (List.mem_toFinset.mpr (List.mem_map_of_mem he))
  · rw [List.toFinset_nil, Finset.sdiff_empty]
    have hinsert := Finset.card_insert_le id (model.edges.map (·.source)).toFinset
    have hlength := List.toFinset_card_le (model.edges.map (·.source))
    rw [List.length_map] at hlength
    omega

theorem exists_terminalSources (h : ¬ model.CycleBehind kind id) :
    ∃ ids, model.getTerminalSourcesByEdgeKind kind (model.edges.length + 2) [] id = .ok ids ∧
      (∀ source, source ∈ ids ↔ model.TerminalSource kind id source) ∧ id ∉ ids := by
  obtain ⟨nodes, hnodes, hid, hcard⟩ := exists_nodes model kind id
  have hacyclic := mt cycleBehind_iff.mp h
  obtain ⟨ids, hrun, -, hmem⟩ := BackwardSearch.run_of_acyclic hnodes hid hcard hacyclic (by simp)
  rw [getTerminalSourcesByEdgeKind_eq]
  refine ⟨ids, hrun, fun source => (hmem source).trans terminalSource_iff.symm, fun hself => ?_⟩
  exact BackwardSearch.not_leads_self hacyclic ((hmem id).mp hself).1

theorem cyclicLink_of_cycleBehind (h : model.CycleBehind kind id) :
    model.getTerminalSourcesByEdgeKind kind (model.edges.length + 2) [] id = .error .cyclicLink := by
  obtain ⟨nodes, hnodes, hid, hcard⟩ := exists_nodes model kind id
  rw [getTerminalSourcesByEdgeKind_eq]
  exact BackwardSearch.run_of_cycle hnodes hid hcard (cycleBehind_iff.mpr h)

/-- **What is found, and when it throws.** -/
theorem getTerminalSourcesByEdgeKind_spec (model : Model) (kind : EdgeKind) (id : Text) :
    (¬ model.CycleBehind kind id →
      ∃ ids, model.getTerminalSourcesByEdgeKind kind (model.edges.length + 2) [] id = .ok ids ∧
        (∀ source, source ∈ ids ↔ model.TerminalSource kind id source) ∧ id ∉ ids) ∧
    (model.CycleBehind kind id →
      model.getTerminalSourcesByEdgeKind kind (model.edges.length + 2) [] id =
        .error .cyclicLink) :=
  ⟨exists_terminalSources, cyclicLink_of_cycleBehind⟩

/-! ## Assembly connections -/

variable (model) in
/-- A node at which connections end. -/
def IsEndpoint (id : Text) : Prop :=
  model.kind id = some .subscriberPortInstance ∨ model.kind id = some .replierPortInstance ∨
    model.kind id = some .pubSubPortDelegate ∨ model.kind id = some .requestPortDelegate

variable (model) in
/-- An assembly connection leads from the first node to the second. -/
def Connects (s t : Text) : Prop := model.IsEndpoint t ∧ model.TerminalSource .assembly t s

variable {s t : Text}

theorem mem_findNodesOfKind_iff {doc : Document} (h : doc.Identified) {kind : NodeKind} :
    id ∈ doc.findNodesOfKind kind ↔ doc.kind id = some kind := by
  constructor
  · intro hmem
    obtain ⟨e, he, rfl⟩ := List.mem_map.mp hmem
    obtain ⟨hentry, hkind⟩ := List.mem_filter.mp he
    rw [Document.kind, h.lookup_of_mem hentry, Option.map_some, of_decide_eq_true hkind]
  · intro hkind
    obtain ⟨e, hlookup, hkind⟩ := Option.map_eq_some_iff.mp hkind
    have hid : e.node.id = id := by simpa using List.find?_some hlookup
    exact List.mem_map.mpr ⟨e, List.mem_filter.mpr
      ⟨List.mem_of_find?_eq_some hlookup, decide_eq_true hkind⟩, hid⟩

theorem mem_endpointIds_iff (h : model.Identified) : t ∈ model.endpointIds ↔ model.IsEndpoint t := by
  simp only [endpointIds, List.mem_append, mem_findNodesOfKind_iff h, IsEndpoint, or_assoc]

theorem exists_connectionsTo (h : ¬ model.CycleBehind .assembly t) :
    ∃ acs, model.connectionsTo t = .ok acs ∧
      ∀ s, (∃ ac ∈ acs, ac.sourceId = s) ↔ model.TerminalSource .assembly t s := by
  obtain ⟨ids, hids, hmem, -⟩ := exists_terminalSources h
  rw [← getTerminalSources_eq] at hids
  refine ⟨_, by rw [connectionsTo, hids]; rfl, fun s => ?_⟩
  rw [← hmem s]
  simp

theorem mapM_connectionsTo {targets : List Text}
    (h : ∀ t ∈ targets, ¬ model.CycleBehind .assembly t) :
    ∃ acss, targets.mapM model.connectionsTo = .ok acss ∧ ∀ s t,
      (∃ ac ∈ acss.flatten, ac.sourceId = s ∧ ac.targetId = t) ↔
        t ∈ targets ∧ model.TerminalSource .assembly t s := by
  induction targets with
  | nil => exact ⟨[], rfl, by simp⟩
  | cons target targets ih =>
    obtain ⟨acs, hacs, hmem⟩ := exists_connectionsTo (h target List.mem_cons_self)
    obtain ⟨acss, hacss, hmems⟩ := ih fun t ht => h t (List.mem_cons_of_mem _ ht)
    have htarget := (connectionsTo_spec hacs).2
    refine ⟨acs :: acss, by rw [List.mapM_cons, hacs, hacss]; rfl, fun s t => ?_⟩
    rw [List.flatten_cons, List.mem_cons, or_and_right, ← hmems s t]
    constructor
    · rintro ⟨ac, hac, rfl, rfl⟩
      refine (List.mem_append.mp hac).imp (fun hac => ?_) fun hac => ⟨ac, hac, rfl, rfl⟩
      rw [(htarget ac hac).1]
      exact ⟨rfl, (hmem ac.sourceId).mp ⟨ac, hac, rfl⟩⟩
    · rintro (⟨rfl, hs⟩ | ⟨ac, hac, hids⟩)
      · obtain ⟨ac, hac, rfl⟩ := (hmem s).mpr hs
        exact ⟨ac, List.mem_append_left _ hac, rfl, (htarget ac hac).1⟩
      · exact ⟨ac, List.mem_append_right _ hac, hids⟩

/-- **What `PreProcess` puts into `assembly_map_`**: the connections of the model, each with its
ends. -/
theorem exists_assemblyConnections (h : model.Identified)
    (hacyclic : ∀ t, model.IsEndpoint t → ¬ model.CycleBehind .assembly t) :
    ∃ acs, model.assemblyConnections = .ok acs ∧ (model.assemblyDefinitions ≠ none → ∀ s t,
      (∃ ac ∈ acs, ac.sourceId = s ∧ ac.targetId = t) ↔ model.Connects s t) := by
  unfold assemblyConnections
  cases model.assemblyDefinitions with
  | none => exact ⟨[], rfl, fun hne => absurd rfl hne⟩
  | some definitions =>
    obtain ⟨acss, hacss, hmem⟩ := mapM_connectionsTo fun t ht =>
      hacyclic t ((mem_endpointIds_iff h).mp ht)
    refine ⟨acss.flatten, by rw [hacss]; rfl, fun _ s t => ?_⟩
    rw [hmem s t, mem_endpointIds_iff h]
    rfl

end Model

end Sem.Re

import Sem.Re.ProtobufModelParser

/-!
# The replicas of a model

`GenerateReplications` makes one replica of a component for every choice of an index at every
assembly around it.

* `exists_isPath_of_mem_componentInstances`: a replica has as many indices as its component has
  assemblies around it.
* `componentInstances_nodup`: no two replicas of a component have the same indices.
-/

namespace Sem.Re

open Xml (Text)

/-- What a model is promised to be: ids are unique and have no underscore, the assembly definitions
are neither replicated nor inside an assembly. -/
structure Model.WellFormed (model : Model) : Prop where
  identified : model.Identified
  separator : ∀ e ∈ model.entries, '_' ∉ e.node.id
  notReplicated : ∀ definitions, model.assemblyDefinitions = some definitions →
    definitions.findImmediateChildren .variable = []
  outermost : ∀ definitions, model.assemblyDefinitions = some definitions →
    ∀ id ∈ model.ancestors definitions.id, model.kind id ≠ some .componentAssembly

/-- The replica's component is below the assemblies `p`, the first of them one of `ns`, and its
indices are `base` and one for each of them. -/
structure ReplicaBelow (ns : List Node) (base : List Nat) (p : List Node) (indices : List Nat)
    (r : ComponentReplication) : Prop where
  isPath : IsPath ns (p ++ [r.component])
  assemblies : ∀ a ∈ p, a.kind = .componentAssembly
  isInstance : r.component.kind = .componentInstance
  getReplicationIndices : r.getReplicationIndices = base ++ indices
  length : indices.length = p.length

theorem ReplicaBelow.mono {ns ns' : List Node} {base : List Nat} {p : List Node} {indices : List Nat}
    {r : ComponentReplication} (h : ReplicaBelow ns base p indices r) (hsub : ns ⊆ ns') :
    ReplicaBelow ns' base p indices r :=
  { h with isPath := h.isPath.mono hsub }

theorem replicaBelow_component {assembly : Assembly} {children : List Node}
    {r : ComponentReplication} (h : r ∈ Model.generateComponentReplications assembly children) :
    ReplicaBelow children assembly.getReplicationIndices [] [] r := by
  obtain ⟨c, hc, rfl⟩ := List.mem_map.mp h
  obtain ⟨hmem, hkind⟩ := List.mem_filter.mp hc
  exact ⟨⟨hmem, trivial⟩, by simp, by simpa using hkind, by simp [ComponentReplication.getReplicationIndices],
    rfl⟩

variable {model : Model}

mutual

/-- The replicas below the `i`th replica of an assembly. -/
theorem replicaBelow_of_mem_generateReplications {parent : Option Assembly}
    {r : ComponentReplication} : ∀ n : Node, r ∈ model.generateReplications parent n →
      ∃ i p indices, i < model.getReplicationId n ∧ ReplicaBelow n.children
        (Assembly.mk n.id i parent).getReplicationIndices p indices r
  | .mk id kind children, h => by
    rw [Model.generateReplications] at h
    obtain ⟨i, hi, hr⟩ := List.mem_flatMap.mp h
    rcases List.mem_append.mp hr with hr | hr
    · obtain ⟨p, indices, -, hbelow⟩ := replicaBelow_of_mem_generateChildAssemblies children hr
      exact ⟨i, p, indices, List.mem_range.mp hi, hbelow⟩
    · exact ⟨i, [], [], List.mem_range.mp hi, replicaBelow_component hr⟩

/-- **The replicas below nested assemblies** have at least one more index. -/
theorem replicaBelow_of_mem_generateChildAssemblies {assembly : Assembly}
    {r : ComponentReplication} : ∀ ns : List Node, r ∈ model.generateChildAssemblies assembly ns →
      ∃ p indices, p ≠ [] ∧ ReplicaBelow ns assembly.getReplicationIndices p indices r
  | [], h => by
    rw [Model.generateChildAssemblies] at h
    cases h
  | n :: ns, h => by
    rw [Model.generateChildAssemblies] at h
    rcases List.mem_append.mp h with h | h
    · split at h
      · rename_i hkind
        obtain ⟨i, p, indices, -, hb⟩ := replicaBelow_of_mem_generateReplications n h
        refine ⟨n :: p, i :: indices, by simp, ⟨⟨by simp, hb.isPath⟩, ?_, hb.isInstance, ?_, ?_⟩⟩
        · exact List.forall_mem_cons.mpr ⟨hkind, hb.assemblies⟩
        · rw [hb.getReplicationIndices, Assembly.getReplicationIndices, List.append_assoc]
          rfl
        · simp [hb.length]
      · cases h
    · obtain ⟨p, indices, hne, hb⟩ := replicaBelow_of_mem_generateChildAssemblies ns h
      exact ⟨p, indices, hne, hb.mono (List.subset_cons_self _ _)⟩

end

/-! ## Different indices -/

/-- What tells replicas apart. -/
def ComponentReplication.key (r : ComponentReplication) : Text × List Nat :=
  (r.component.id, r.getReplicationIndices)

theorem component_keys_nodup {assembly : Assembly} {children : List Node} {ancestors : List Text}
    (hnd : ((Node.entriesOf ancestors children).map (·.node.id)).Nodup) :
    ((Model.generateComponentReplications assembly children).map (·.key)).Nodup := by
  have hids := (ids_sublist_entriesOf ancestors children).nodup hnd
  have hfilter : ((children.filter (·.kind = .componentInstance)).map (·.id)).Nodup :=
    (List.filter_sublist.map _).nodup hids
  rw [Model.generateComponentReplications, List.map_map]
  refine List.Nodup.map_on (fun c hc c' hc' heq => ?_) (List.Nodup.of_map _ hfilter)
  exact List.inj_on_of_nodup_map hfilter hc hc' (congrArg Prod.fst heq)

/-- Replicas of one component below the same nodes are below the same assemblies. -/
theorem ReplicaBelow.idsOf_eq {ns : List Node} {ancestors : List Text} {base base' : List Nat}
    {p p' : List Node} {indices indices' : List Nat} {r r' : ComponentReplication}
    (hnd : ((Node.entriesOf ancestors ns).map (·.node.id)).Nodup)
    (h : ReplicaBelow ns base p indices r) (h' : ReplicaBelow ns base' p' indices' r')
    (heq : r.key = r'.key) : idsOf p = idsOf p' :=
  (eq_of_id_eq hnd h.isPath h'.isPath (congrArg Prod.fst heq)).2

mutual

theorem generateReplications_nodup {parent : Option Assembly} {ancestors : List Text} :
    ∀ n : Node, ((n.entries ancestors).map (·.node.id)).Nodup →
      (parent = none → model.getReplicationId n ≤ 1) →
      ((model.generateReplications parent n).map (·.key)).Nodup
  | .mk id kind children, hnd, htop => by
    have hbelow : ∀ {i r}, i < model.getReplicationId (.mk id kind children) →
        r ∈ model.generateChildAssemblies (.mk id i parent) children ++
          Model.generateComponentReplications (.mk id i parent) children →
        ∃ p indices, ReplicaBelow children (Assembly.mk id i parent).getReplicationIndices p
          indices r := by
      intro i r _ hr
      rcases List.mem_append.mp hr with hr | hr
      · obtain ⟨p, indices, -, hb⟩ := replicaBelow_of_mem_generateChildAssemblies children hr
        exact ⟨p, indices, hb⟩
      · exact ⟨[], [], replicaBelow_component hr⟩
    rw [Node.entries, List.map_cons, List.nodup_cons] at hnd
    rw [Model.generateReplications, List.map_flatMap, List.nodup_flatMap]
    refine ⟨fun i hi => ?_, ?_⟩
    · rw [List.map_append]
      refine (generateChildAssemblies_nodup children hnd.2).append (component_keys_nodup hnd.2) ?_
      intro key hchild hcomponent
      obtain ⟨r, hr, rfl⟩ := List.mem_map.mp hchild
      obtain ⟨r', hr', heq⟩ := List.mem_map.mp hcomponent
      obtain ⟨p, indices, hne, hb⟩ := replicaBelow_of_mem_generateChildAssemblies children hr
      have hids := (replicaBelow_component hr').idsOf_eq hnd.2 hb heq
      exact hne (List.map_eq_nil_iff.mp hids.symm)
    · refine List.nodup_range.pairwise_of_forall_ne fun i hi j hj hij key hkey hkey' => ?_
      obtain ⟨r, hr, rfl⟩ := List.mem_map.mp hkey
      obtain ⟨r', hr', heq⟩ := List.mem_map.mp hkey'
      obtain ⟨p, indices, hb⟩ := hbelow (List.mem_range.mp hi) hr
      obtain ⟨p', indices', hb'⟩ := hbelow (List.mem_range.mp hj) hr'
      have hidx : r'.getReplicationIndices = r.getReplicationIndices := congrArg Prod.snd heq
      rw [hb.getReplicationIndices, hb'.getReplicationIndices] at hidx
      cases parent with
      | none =>
        have := htop rfl
        have := List.mem_range.mp hi
        have := List.mem_range.mp hj
        omega
      | some parent =>
        rw [Assembly.getReplicationIndices, Assembly.getReplicationIndices, List.append_assoc,
          List.append_assoc] at hidx
        exact hij (List.cons.inj (List.append_cancel_left hidx)).1.symm

theorem generateChildAssemblies_nodup {assembly : Assembly} {ancestors : List Text} :
    ∀ ns : List Node, ((Node.entriesOf ancestors ns).map (·.node.id)).Nodup →
      ((model.generateChildAssemblies assembly ns).map (·.key)).Nodup
  | [], _ => by
    rw [Model.generateChildAssemblies]
    exact List.nodup_nil
  | n :: ns, hnd => by
    have hall := hnd
    rw [Node.entriesOf, List.map_append] at hnd
    rw [Model.generateChildAssemblies, List.map_append]
    refine List.Nodup.append ?_ (generateChildAssemblies_nodup ns hnd.of_append_right) ?_
    · split
      · exact generateReplications_nodup n hnd.of_append_left nofun
      · exact List.nodup_nil
    · intro key hfirst hrest
      obtain ⟨r, hr, rfl⟩ := List.mem_map.mp hfirst
      obtain ⟨r', hr', heq⟩ := List.mem_map.mp hrest
      split at hr
      · obtain ⟨i, p, indices, -, hb⟩ := replicaBelow_of_mem_generateReplications n hr
        obtain ⟨p', indices', hne, hb'⟩ := replicaBelow_of_mem_generateChildAssemblies ns hr'
        obtain ⟨n', q, rfl⟩ := List.exists_cons_of_ne_nil hne
        have hpath : IsPath (n :: ns) ((n :: p) ++ [r.component]) := ⟨by simp, hb.isPath⟩
        have hpath' : IsPath (n :: ns) ((n' :: q) ++ [r'.component]) :=
          hb'.isPath.mono (List.subset_cons_self _ _)
        have hids := (eq_of_id_eq hall hpath hpath' (congrArg Prod.fst heq).symm).2
        -- one of the first nodes would be below the other
        have hid : n.id = n'.id := (List.cons.inj hids).1
        have hn : n.id ∈ (n.entries ancestors).map (·.node.id) := by simp [entries_eq]
        have hn' : n'.id ∈ (Node.entriesOf ancestors ns).map (·.node.id) :=
          (ids_sublist_entriesOf ancestors ns).subset (List.mem_map_of_mem hb'.isPath.1)
        exact List.disjoint_of_nodup_append hnd hn (hid ▸ hn')
      · cases hr

end

/-! ## The replicas of the model -/

/-- Where a replica's component is in the document: below the assembly definitions at the end of
`w`, and below the assemblies `p`, one for each of its indices. -/
structure ReplicaPath (model : Model) (w p : List Node) (r : ComponentReplication) : Prop where
  isPath : IsPath model.nodes (w ++ p ++ [r.component])
  assemblies : ∀ a ∈ p, a.kind = .componentAssembly
  isInstance : r.component.kind = .componentInstance
  length : r.getReplicationIndices.length = p.length

theorem mem_entries_of_assemblyDefinitions {definitions : Node}
    (h : model.assemblyDefinitions = some definitions) :
    ∃ e ∈ model.entries, e.node = definitions ∧ definitions.kind = .assemblyDefinitions := by
  unfold Model.assemblyDefinitions at h
  split at h
  · rename_i e heq
    obtain rfl := Option.some.inj h
    have he : e ∈ model.entries.filter (·.node.kind = .assemblyDefinitions) := by
      rw [heq]
      exact List.mem_singleton_self e
    exact ⟨e, (List.mem_filter.mp he).1, rfl, by simpa using (List.mem_filter.mp he).2⟩
  · cases h

theorem getReplicationId_definitions (h : model.WellFormed) {definitions : Node}
    (hdef : model.assemblyDefinitions = some definitions) :
    model.getReplicationId definitions = 1 := by
  rw [Model.getReplicationId, h.notReplicated definitions hdef]

/-- **A replica has one index for every assembly around its component.** -/
theorem exists_replicaPath (model : Model) :
    ∃ w : List Node, (∀ definitions, model.assemblyDefinitions = some definitions →
        IsPath model.nodes w ∧ w.getLast? = some definitions) ∧
      ∀ r ∈ model.componentInstances, ∃ p, ReplicaPath model w p r := by
  cases hdef : model.assemblyDefinitions with
  | none =>
    refine ⟨[], nofun, fun r hr => ?_⟩
    rw [Model.componentInstances, hdef] at hr
    cases hr
  | some definitions =>
    obtain ⟨e, he, rfl, -⟩ := mem_entries_of_assemblyDefinitions hdef
    obtain ⟨w, hw, -⟩ := isPath_iff_mem_entries.mp he
    refine ⟨w ++ [e.node], fun d hd => ?_, fun r hr => ?_⟩
    · obtain rfl := Option.some.inj hd
      exact ⟨hw, by simp⟩
    · rw [Model.componentInstances, hdef] at hr
      obtain ⟨i, p, indices, -, hb⟩ := replicaBelow_of_mem_generateReplications e.node hr
      refine ⟨p, ?_, hb.assemblies, hb.isInstance, ?_⟩
      · simpa using hw.append hb.isPath
      · rw [hb.getReplicationIndices]
        simp [Assembly.getReplicationIndices, hb.length]

/-- **No two replicas of a component have the same indices.** -/
theorem componentInstances_nodup (h : model.WellFormed) :
    (model.componentInstances.map (·.key)).Nodup := by
  cases hdef : model.assemblyDefinitions with
  | none =>
    rw [Model.componentInstances, hdef]
    exact List.nodup_nil
  | some definitions =>
    rw [Model.componentInstances, hdef]
    obtain ⟨e, he, rfl, -⟩ := mem_entries_of_assemblyDefinitions hdef
    have hnd := ((entries_sublist_entriesOf model.nodes he).map (·.node.id)).nodup
      h.identified.nodup
    exact generateReplications_nodup e.node hnd fun _ => (getReplicationId_definitions h hdef).le

end Sem.Re

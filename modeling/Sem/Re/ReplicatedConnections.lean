import Sem.Re.SharedParents
import Sem.Re.TerminalSources

/-!
# Connections between replicas

`CalculateReplication` records the ends of connections in the messages of the ports. `Records` says
which pairs of port ids a part of it has recorded, at both ends.

* `connect_records`: what one assembly connection records, without a failed assertion or an index
  out of bounds.
* `calculateReplication_records`: what the whole loop records.
* `connected_iff_sharedAgree`: two replicas are connected exactly when their index tuples agree on
  the assemblies around both ports.
-/

namespace Sem.Re

open Xml (Text)
open Model

/-! ## Recording pairs -/

/-- `connected_ports` of the port's message. -/
def Model.Messages.connectedPorts (m : Messages) (uid : Text) : List Text :=
  ((m.ports.lookup uid).map (·.connectedPorts)).getD []

/-- From `m` to `m'` the pairs are recorded, each at both ends, and no message is made. -/
structure Records (m m' : Messages) (pairs : List (Text × Text)) : Prop where
  ports : ∀ u, u ∈ m'.ports ↔ u ∈ m.ports
  externalPorts : ∀ u, u ∈ m'.externalPorts ↔ u ∈ m.externalPorts
  count : ∀ u v, (m'.connectedPorts u).count v =
    (m.connectedPorts u).count v + (pairs.count (u, v) + pairs.count (v, u))

theorem Records.refl (m : Messages) : Records m m [] :=
  ⟨fun _ => Iff.rfl, fun _ => Iff.rfl, fun _ _ => rfl⟩

/-- Pairs are recorded in the order of the calls. -/
theorem Records.trans {m m' m'' : Messages} {pairs pairs' : List (Text × Text)}
    (h : Records m m' pairs) (h' : Records m' m'' pairs') : Records m m'' (pairs ++ pairs') where
  ports u := (h'.ports u).trans (h.ports u)
  externalPorts u := (h'.externalPorts u).trans (h.externalPorts u)
  count u v := by
    rw [h'.count, h.count, List.count_append, List.count_append]
    omega

/-- A loop records what its steps record. -/
theorem Records.foldlM {α : Type*} {f : Messages → α → Option Messages}
    {pairs : α → List (Text × Text)} {l : List α} {P : Messages → Prop}
    (hP : ∀ {m m' ps}, P m → Records m m' ps → P m')
    (hstep : ∀ a ∈ l, ∀ m, P m → ∃ m', f m a = some m' ∧ Records m m' (pairs a)) {m : Messages}
    (hm : P m) : ∃ m', l.foldlM f m = some m' ∧ Records m m' (l.flatMap pairs) := by
  induction l generalizing m with
  | nil => exact ⟨m, rfl, .refl m⟩
  | cons a l ih =>
    obtain ⟨m₁, hf, hrec⟩ := hstep a (by simp) m hm
    obtain ⟨m₂, hl, hrec₂⟩ := ih (fun b hb => hstep b (List.mem_cons_of_mem _ hb)) (hP hm hrec)
    refine ⟨m₂, ?_, hrec.trans hrec₂⟩
    rw [List.foldlM_cons, hf]
    exact hl

/-- A pair is recorded at its own port. -/
theorem connectedPorts_addConnectedPorts {m : Messages} {uid : Text} (huid : uid ∈ m.ports)
    (id u : Text) : (addConnectedPorts m uid id).connectedPorts u =
      m.connectedPorts u ++ if u = uid then [id] else [] := by
  obtain ⟨port, hport⟩ := Table.mem_iff_lookup.mp huid
  unfold addConnectedPorts Messages.connectedPorts
  rw [hport]
  dsimp only
  rw [Table.lookup_insert]
  by_cases hu : u = uid
  · subst hu
    simp [hport]
  · simp [hu]

theorem mem_ports_addConnectedPorts {m : Messages} {uid id u : Text} :
    u ∈ (addConnectedPorts m uid id).ports ↔ u ∈ m.ports := by
  unfold addConnectedPorts
  split
  · rename_i port hport
    rw [AList.mem_insert]
    refine ⟨fun h => ?_, .inr⟩
    rcases h with rfl | h
    · exact Table.mem_of_lookup hport
    · exact h
  · exact Iff.rfl

theorem externalPorts_addConnectedPorts {m : Messages} {uid id : Text} :
    (addConnectedPorts m uid id).externalPorts = m.externalPorts := by
  unfold addConnectedPorts
  split <;> rfl

/-- **Both ends of a connection.** -/
theorem connectPorts_records {m : Messages} {s t : Text} (hs : s ∈ m.ports) :
    Records m (connectPorts m s t) (if t ∈ m.ports then [(s, t)] else []) := by
  unfold connectPorts
  split
  · rename_i ht
    refine ⟨fun u => ?_, fun u => ?_, fun u v => ?_⟩
    · rw [mem_ports_addConnectedPorts, mem_ports_addConnectedPorts]
    · rw [externalPorts_addConnectedPorts, externalPorts_addConnectedPorts]
    · rw [connectedPorts_addConnectedPorts (mem_ports_addConnectedPorts.mpr ht),
        connectedPorts_addConnectedPorts hs, List.count_append, List.count_append]
      have hcount : ∀ a b : Text, ∀ p : Prop, [Decidable p] → (if p then [a] else []).count b =
          if p ∧ a = b then 1 else 0 := by
        intro a b p _
        by_cases hp : p <;> by_cases hab : a = b <;> simp [hp, hab]
      simp only [hcount, List.count_singleton, Prod.mk.injEq, beq_iff_eq]
      grind
  · exact .refl m

/-- Messages of external ports are not asked about. -/
theorem records_of_connectedPorts {m m' : Messages} (hports : ∀ u, u ∈ m'.ports ↔ u ∈ m.ports)
    (hexternal : ∀ u, u ∈ m'.externalPorts ↔ u ∈ m.externalPorts)
    (hconnected : ∀ u, m'.connectedPorts u = m.connectedPorts u) : Records m m' [] :=
  ⟨hports, hexternal, fun u v => by rw [hconnected]; simp⟩

/-- External ports are another list. -/
theorem addConnectedExternalPorts_records (m : Messages) (uid id : Text) :
    Records m (addConnectedExternalPorts m uid id) [] := by
  unfold addConnectedExternalPorts
  split
  · rename_i port hport
    refine records_of_connectedPorts (fun u => ?_) (fun _ => Iff.rfl) (fun u => ?_)
    · rw [AList.mem_insert]
      refine ⟨fun h => ?_, .inr⟩
      rcases h with rfl | h
      · exact Table.mem_of_lookup hport
      · exact h
    · unfold Messages.connectedPorts
      rw [Table.lookup_insert]
      by_cases hu : u = uid
      · subst hu
        simp [hport]
      · simp [hu]
  · exact .refl m

theorem addExternalConnectedPorts_records (m : Messages) (portId id : Text) :
    Records m (addExternalConnectedPorts m portId id) [] := by
  unfold addExternalConnectedPorts
  split
  · rename_i ids hids
    refine records_of_connectedPorts (fun _ => Iff.rfl) (fun u => ?_) (fun _ => rfl)
    rw [AList.mem_insert]
    refine ⟨fun h => ?_, .inr⟩
    rcases h with rfl | h
    · exact Table.mem_of_lookup hids
    · exact h
  · exact .refl m

/-- Calls that record no pair, however many. -/
theorem foldl_records {α : Type*} {f : Messages → α → Messages} {l : List α}
    (h : ∀ m, ∀ a ∈ l, Records m (f m a) []) (m : Messages) : Records m (l.foldl f m) [] := by
  induction l generalizing m with
  | nil => exact .refl m
  | cons a l ih =>
    exact (h m a (by simp)).trans (ih (fun m b hb => h m b (List.mem_cons_of_mem _ hb)) _)

/-! ## What a connection records -/

variable {model : Model} {w p q : List Node} {r r' : ComponentReplication}

/-- The pairs of a source replica. -/
def sourcePairs (model : Model) (ac : AssemblyConnection) (targets : List (List Nat))
    (i : List Nat) : List (Text × Text) :=
  if portUid ac.sourceId i ∉ model.portUids then []
  else if ac.interAssembly then
    (targets.filter fun j => model.SharedAgree ac.sourceId i ac.targetId j ∧
      portUid ac.targetId j ∈ model.portUids).map fun j =>
        (portUid ac.sourceId i, portUid ac.targetId j)
  else if portUid ac.targetId i ∈ model.portUids then
    [(portUid ac.sourceId i, portUid ac.targetId i)]
  else []

/-- The pairs of an assembly connection. -/
def connectionPairs (model : Model) (ac : AssemblyConnection) : List (Text × Text) :=
  let sources := model.componentReplications (model.getParentNode ac.sourceId)
  let targets := model.componentReplications (model.getParentNode ac.targetId)
  if ac.sourceId ∈ model.parsedMessages.externalPorts ∨
      ac.targetId ∈ model.parsedMessages.externalPorts ∨ sources = [] ∨ targets = [] then []
  else sources.flatMap (sourcePairs model ac targets)

/-- The indices of a component are those of its deployed instances. -/
theorem exists_of_mem_componentReplications {componentId : Text} {i : List Nat}
    (h : i ∈ model.componentReplications componentId) :
    ∃ r ∈ model.deployedInstances, r.component.id = componentId ∧ r.getReplicationIndices = i := by
  obtain ⟨r, hr, rfl⟩ := List.mem_map.mp h
  obtain ⟨hmem, hid⟩ := List.mem_filter.mp hr
  exact ⟨r, hmem, of_decide_eq_true hid, rfl⟩

/-- Where the ports of replicas are: below a component of a replica, all under one list of nodes. -/
structure Placed (model : Model) (w : List Node) : Prop where
  above : model.deployedInstances ≠ [] → AboveAssemblies model w
  replica : ∀ r ∈ model.deployedInstances, ∃ p, ReplicaPath model w p r

/-- A port has one path from the root, if any. -/
theorem exists_placed (h : model.WellFormed) : ∃ w, Placed model w := by
  obtain ⟨w, hw, hreplica⟩ := exists_replicaPath model
  refine ⟨w, fun hne => ?_, fun r hr => hreplica r (List.mem_filter.mp hr).1⟩
  cases hdef : model.assemblyDefinitions with
  | none =>
    refine absurd ?_ hne
    rw [deployedInstances, componentInstances, hdef]
    rfl
  | some definitions =>
    obtain ⟨hpath, hlast⟩ := hw definitions hdef
    exact aboveAssemblies h hdef hpath hlast

/-- A port whose component has replicas. -/
theorem Placed.port (h : model.WellFormed) (hplaced : Placed model w) {portId : Text} {i : List Nat}
    (hi : i ∈ model.componentReplications (model.getParentNode portId)) :
    ∃ r p m, AboveAssemblies model w ∧ r ∈ model.deployedInstances ∧ ReplicaPath model w p r ∧
      r.component.id = model.getParentNode portId ∧ m.id = portId ∧
      IsPath model.nodes (w ++ p ++ [r.component, m]) ∧ i.length = p.length := by
  obtain ⟨r, hr, hid, rfl⟩ := exists_of_mem_componentReplications hi
  obtain ⟨p, hp⟩ := hplaced.replica r hr
  obtain ⟨m, hm, hpath⟩ := h.identified.isPath_of_getParentNode hp.isPath hid.symm
  exact ⟨r, p, m, hplaced.above (List.ne_nil_of_mem hr), hr, hp, hid, hm, hpath, hp.length⟩

/-- The messages have the ports of the replicas. -/
structure HasPorts (model : Model) (m : Messages) : Prop where
  ports : ∀ u, u ∈ m.ports ↔ u ∈ model.portUids
  externalPorts : ∀ u, u ∈ m.externalPorts ↔ u ∈ model.parsedMessages.externalPorts

theorem HasPorts.of_records {m m' : Messages} {ps : List (Text × Text)} (h : HasPorts model m)
    (hrec : Records m m' ps) : HasPorts model m' :=
  ⟨fun u => (hrec.ports u).trans (h.ports u),
    fun u => (hrec.externalPorts u).trans (h.externalPorts u)⟩

/-- A pair is recorded if its target has a message. -/
theorem connectPorts_hasPorts {m : Messages} (hm : HasPorts model m) {s t : Text}
    (hs : s ∈ model.portUids) :
    Records m (connectPorts m s t) (if t ∈ model.portUids then [(s, t)] else []) := by
  have hrec : Records m (connectPorts m s t) (if t ∈ m.ports then [(s, t)] else []) :=
    connectPorts_records ((hm.ports s).mpr hs)
  simpa only [hm.ports] using hrec

/-- **One source replica**: the loop over the targets records the replicas that agree with it. -/
theorem connectSource_records (h : model.WellFormed) (hplaced : Placed model w)
    {ac : AssemblyConnection} (hac : IsConnection model ac) {m : Messages} (hm : HasPorts model m)
    {i : List Nat} (hi : i ∈ model.componentReplications (model.getParentNode ac.sourceId)) :
    ∃ m', model.connectSource ac
        (model.componentReplications (model.getParentNode ac.targetId)) m i = some m' ∧
      Records m m' (sourcePairs model ac
        (model.componentReplications (model.getParentNode ac.targetId)) i) := by
  unfold connectSource sourcePairs
  simp only [hm.ports]
  by_cases hs : portUid ac.sourceId i ∈ model.portUids
  · rw [if_neg (not_not.mpr hs), if_neg (not_not.mpr hs)]
    by_cases hinter : ac.interAssembly = true
    · rw [if_pos hinter, if_pos hinter]
      obtain ⟨r, p, sm, hw, -, hr, -, hsm, hspath, hilen⟩ := hplaced.port h hi
      have hparents := hac.interAssembly.mp hinter
      have hpairs : ∀ targets : List (List Nat), ((targets.filter fun j =>
          model.SharedAgree ac.sourceId i ac.targetId j ∧
            portUid ac.targetId j ∈ model.portUids).map fun j =>
              (portUid ac.sourceId i, portUid ac.targetId j)) =
          targets.flatMap fun j => if model.SharedAgree ac.sourceId i ac.targetId j ∧
            portUid ac.targetId j ∈ model.portUids then
              [(portUid ac.sourceId i, portUid ac.targetId j)] else [] := by
        intro targets
        induction targets with
        | nil => rfl
        | cons j targets ih =>
          rw [List.flatMap_cons, ← ih, List.filter_cons]
          split <;> simp_all
      rw [hpairs]
      refine Records.foldlM (fun hP hrec => hP.of_records hrec) (fun j hj m hm => ?_) hm
      obtain ⟨r', q, tm, -, -, hr', -, htm, htpath, hjlen⟩ := hplaced.port h hj
      rw [← hsm, ← htm] at hparents
      have heq := connectTarget_eq h hw hr hr' hspath htpath hparents m hilen hjlen true
      rw [hsm, htm] at heq
      have hmk : ac = ⟨ac.sourceId, ac.targetId, true⟩ := by rw [← hinter]
      rw [hmk]
      refine ⟨_, heq, ?_⟩
      by_cases hagree : model.SharedAgree ac.sourceId i ac.targetId j
      · simp only [hagree, if_true, true_and]
        exact connectPorts_hasPorts hm hs
      · simp only [hagree, if_false, false_and]
        exact .refl m
    · rw [if_neg hinter, if_neg hinter]
      exact ⟨_, rfl, connectPorts_hasPorts hm hs⟩
  · rw [if_pos hs, if_pos hs]
    exact ⟨m, rfl, .refl m⟩

/-- **One assembly connection.** -/
theorem connect_records (h : model.WellFormed) (hplaced : Placed model w)
    {ac : AssemblyConnection} (hac : IsConnection model ac) {m : Messages} (hm : HasPorts model m) :
    ∃ m', model.connect m ac = some m' ∧ Records m m' (connectionPairs model ac) := by
  have hexternal : ∀ u, u ∈ m.externalPorts ↔ u ∈ model.parsedMessages.externalPorts :=
    hm.externalPorts
  unfold connect connectionPairs
  by_cases hs : ac.sourceId ∈ model.parsedMessages.externalPorts
  · simp only [hexternal, hs, decide_true, true_or, if_true]
    split
    · rename_i hfalse _
      cases hfalse
    · refine ⟨_, rfl, foldl_records (fun m i _ => ?_) m⟩
      dsimp only
      split
      · exact (addExternalConnectedPorts_records _ _ _).trans
          (addConnectedExternalPorts_records _ _ _)
      · exact .refl m
    · rename_i hfalse _
      cases hfalse
    · exact ⟨m, rfl, .refl m⟩
  · by_cases ht : ac.targetId ∈ model.parsedMessages.externalPorts
    · simp only [hexternal, hs, ht, decide_true, decide_false, true_or, or_true, if_true]
      refine ⟨_, rfl, foldl_records (fun m i _ => ?_) m⟩
      dsimp only
      split
      · exact (addConnectedExternalPorts_records _ _ _).trans
          (addExternalConnectedPorts_records _ _ _)
      · exact .refl m
    · simp only [hexternal, hs, ht, decide_false, false_or]
      unfold connectPortToPort
      dsimp only
      by_cases hempty : model.componentReplications (model.getParentNode ac.sourceId) = [] ∨
          model.componentReplications (model.getParentNode ac.targetId) = []
      · rw [if_pos hempty, if_neg (by tauto)]
        exact ⟨m, rfl, .refl m⟩
      · rw [if_neg hempty, if_pos (by tauto)]
        refine Records.foldlM (fun hP hrec => hP.of_records hrec) (fun i hi m hm => ?_) hm
        exact connectSource_records h hplaced hac hm hi

/-- A message is made for each id. -/
theorem mem_foldl_insert {V : Type*} {ids : List Text} {v : V} {t : Table Text V} {u : Text} :
    u ∈ ids.foldl (fun t id => t.insert id v) t ↔ u ∈ ids ∨ u ∈ t := by
  induction ids generalizing t with
  | nil => simp
  | cons id ids ih =>
    rw [List.foldl_cons, ih, AList.mem_insert, List.mem_cons]
    tauto

theorem entries_foldl_insert {V : Type*} {ids : List Text} {v : V} {t : Table Text V}
    {P : Text → V → Prop} (h : Table.Entries t P) (hv : ∀ u, P u v) :
    Table.Entries (ids.foldl (fun t id => t.insert id v) t) P := by
  induction ids generalizing t with
  | nil => exact h
  | cons id ids ih => exact ih (h.insert (hv id))

/-- Every port has its message before connections are made. -/
theorem parsedMessages_hasPorts (model : Model) : HasPorts model model.parsedMessages where
  ports u := by
    rw [parsedMessages, mem_foldl_insert]
    simp
  externalPorts _ := Iff.rfl

/-- And no connection yet. -/
theorem parsedMessages_connectedPorts (model : Model) (u : Text) :
    model.parsedMessages.connectedPorts u = [] := by
  have hentries : Table.Entries model.parsedMessages.ports fun _ port => port.connectedPorts = [] :=
    entries_foldl_insert Table.Entries.empty fun _ => rfl
  unfold Messages.connectedPorts
  cases hport : model.parsedMessages.ports.lookup u with
  | none => rfl
  | some port => exact hentries u port hport

/-- **What `CalculateReplication` records.** -/
theorem calculateReplication_records (h : model.WellFormed) {order : List AssemblyConnection}
    (horder : ∀ ac ∈ order, IsConnection model ac) :
    ∃ m, model.calculateReplication order = some m ∧
      ∀ u v, (m.connectedPorts u).count v = (order.flatMap (connectionPairs model)).count (u, v) +
        (order.flatMap (connectionPairs model)).count (v, u) := by
  obtain ⟨w, hplaced⟩ := exists_placed h
  obtain ⟨m, hm, hrec⟩ := Records.foldlM (fun hP hrec => hP.of_records hrec)
    (fun ac hac m hm => connect_records h hplaced (horder ac hac) hm)
    (parsedMessages_hasPorts model)
  refine ⟨m, hm, fun u v => ?_⟩
  rw [hrec.count, parsedMessages_connectedPorts]
  simp

/-! ## The pairs -/

/-- A replica of a port of a component that has messages. -/
def Replica (model : Model) (portId : Text) (indices : List Nat) : Prop :=
  ∃ r ∈ model.deployedInstances, portId ∈ portIds r.component ∧ r.getReplicationIndices = indices

instance (model : Model) (portId : Text) (indices : List Nat) :
    Decidable (Replica model portId indices) :=
  List.decidableBEx _ _

/-- Without a separator in the id the name of a replica tells port and indices. -/
theorem portUid_inj {s s' : Text} {i i' : List Nat} (hs : '_' ∉ s) (hs' : '_' ∉ s')
    (h : portUid s i = portUid s' i') : s = s' ∧ i = i' :=
  append_numerals_inj (by decide) hs hs' h

theorem separator_of_isPath {m : Node} (h : model.WellFormed)
    (hm : IsPath model.nodes (p ++ [m])) : '_' ∉ m.id := by
  have he : (⟨m, (idsOf p).reverse⟩ : Entry) ∈ model.entries :=
    isPath_iff_mem_entries.mpr ⟨p, hm, rfl⟩
  exact h.separator _ he

/-- Ids of replicated ports have no separator. -/
theorem Placed.separator (h : model.WellFormed) (hplaced : Placed model w) {portId : Text}
    (hne : model.componentReplications (model.getParentNode portId) ≠ []) : '_' ∉ portId := by
  obtain ⟨i, hi⟩ := List.exists_mem_of_ne_nil _ hne
  obtain ⟨r, p, m, -, -, -, -, rfl, hpath, -⟩ := hplaced.port h hi
  refine separator_of_isPath h (?_ : IsPath model.nodes ((w ++ p ++ [r.component]) ++ [m]))
  simpa using hpath

/-- The pairs of a connection are pairs of replicas of its ports. -/
theorem mem_connectionPairs {ac : AssemblyConnection} {u v : Text}
    (h : (u, v) ∈ connectionPairs model ac) :
    model.componentReplications (model.getParentNode ac.sourceId) ≠ [] ∧
      model.componentReplications (model.getParentNode ac.targetId) ≠ [] ∧
      ∃ i j, u = portUid ac.sourceId i ∧ v = portUid ac.targetId j ∧
        if ac.interAssembly then model.SharedAgree ac.sourceId i ac.targetId j else i = j := by
  unfold connectionPairs at h
  dsimp only at h
  split at h
  · cases h
  · rename_i hguard
    simp only [not_or] at hguard
    refine ⟨hguard.2.2.1, hguard.2.2.2, ?_⟩
    obtain ⟨i, -, hpair⟩ := List.mem_flatMap.mp h
    unfold sourcePairs at hpair
    split at hpair
    · cases hpair
    · split at hpair
      · rename_i hinter
        obtain ⟨j, hj, heq⟩ := List.mem_map.mp hpair
        obtain ⟨rfl, rfl⟩ := Prod.mk.inj heq
        have hagree := of_decide_eq_true (List.mem_filter.mp hj).2
        exact ⟨i, j, rfl, rfl, by rw [if_pos hinter]; exact hagree.1⟩
      · rename_i hinter
        split at hpair
        · obtain ⟨rfl, rfl⟩ := Prod.mk.inj (List.mem_singleton.mp hpair)
          exact ⟨i, i, rfl, rfl, by rw [if_neg hinter]⟩
        · cases hpair

theorem componentReplications_nodup (h : model.WellFormed) (componentId : Text) :
    (model.componentReplications componentId).Nodup := by
  have hkeys : ((model.deployedInstances.filter (·.component.id = componentId)).map
      (·.key)).Nodup :=
    ((List.filter_sublist.trans List.filter_sublist).map _).nodup (componentInstances_nodup h)
  have hmap : (model.deployedInstances.filter (·.component.id = componentId)).map (·.key) =
      (model.componentReplications componentId).map fun i => (componentId, i) := by
    rw [componentReplications, List.map_map]
    refine List.map_congr_left fun r hr => ?_
    have hid : r.component.id = componentId := of_decide_eq_true (List.mem_filter.mp hr).2
    rw [ComponentReplication.key, hid]
    rfl
  exact List.Nodup.of_map _ (hmap ▸ hkeys)

/-- A connection makes a pair once. -/
theorem connectionPairs_nodup (h : model.WellFormed) (hplaced : Placed model w)
    (ac : AssemblyConnection) : (connectionPairs model ac).Nodup := by
  unfold connectionPairs
  dsimp only
  split
  · exact List.nodup_nil
  · rename_i hguard
    simp only [not_or] at hguard
    have hs := hplaced.separator h hguard.2.2.1
    have ht := hplaced.separator h hguard.2.2.2
    rw [List.nodup_flatMap]
    constructor
    · intro i _
      unfold sourcePairs
      split
      · exact List.nodup_nil
      · split
        · refine List.Nodup.map_on (fun j _ j' _ heq => ?_)
            ((componentReplications_nodup h _).filter _)
          exact (portUid_inj ht ht (congrArg Prod.snd heq)).2
        · split
          · exact List.nodup_singleton _
          · exact List.nodup_nil
    · refine (componentReplications_nodup h _).pairwise_of_forall_ne
        fun i _ i' _ hne pair hpair hpair' => hne ?_
      have hfirst : ∀ {k}, pair ∈ sourcePairs model ac
          (model.componentReplications (model.getParentNode ac.targetId)) k →
          pair.1 = portUid ac.sourceId k := by
        intro k hk
        unfold sourcePairs at hk
        split at hk
        · cases hk
        · split at hk
          · obtain ⟨j, -, rfl⟩ := List.mem_map.mp hk
            rfl
          · split at hk
            · rw [List.mem_singleton.mp hk]
            · cases hk
      exact (portUid_inj hs hs ((hfirst hpair).symm.trans (hfirst hpair'))).2

/-- The loop makes a pair once. -/
theorem pairs_nodup (h : model.WellFormed) (hplaced : Placed model w)
    {order : List AssemblyConnection}
    (hnd : (order.map fun ac => (ac.sourceId, ac.targetId)).Nodup) :
    (order.flatMap (connectionPairs model)).Nodup := by
  rw [List.nodup_flatMap]
  refine ⟨fun ac _ => connectionPairs_nodup h hplaced ac, ?_⟩
  refine (List.pairwise_map.mp hnd).imp fun {ac ac'} hne => ?_
  rintro ⟨u, v⟩ hpair hpair'
  obtain ⟨hs, ht, i, j, rfl, rfl, -⟩ := mem_connectionPairs hpair
  obtain ⟨hs', ht', i', j', hu, hv, -⟩ := mem_connectionPairs hpair'
  refine hne (Prod.ext ?_ ?_)
  · exact (portUid_inj (hplaced.separator h hs) (hplaced.separator h hs') hu).1
  · exact (portUid_inj (hplaced.separator h ht) (hplaced.separator h ht') hv).1

/-- Where a replica of a port is. -/
structure ReplicaPort (model : Model) (w : List Node) (portId : Text) (i : List Nat)
    (p : List Node) (r : ComponentReplication) (m : Node) : Prop where
  replica : ReplicaPath model w p r
  id : m.id = portId
  isPath : IsPath model.nodes (w ++ p ++ [r.component, m])
  mem : i ∈ model.componentReplications (model.getParentNode portId)
  portUid : portUid portId i ∈ model.portUids
  length : i.length = p.length
  notDelegate : portId ∉ model.parsedMessages.externalPorts

/-- A replica of a port belongs to an instance of its component, at one place in the tree. -/
theorem Placed.replicaPort (h : model.WellFormed) (hplaced : Placed model w) {portId : Text}
    {i : List Nat} (hi : Replica model portId i) :
    AboveAssemblies model w ∧ ∃ p r m, ReplicaPort model w portId i p r m := by
  obtain ⟨r, hr, hport, rfl⟩ := hi
  obtain ⟨p, hp⟩ := hplaced.replica r hr
  have huid : portUid portId r.getReplicationIndices ∈ model.portUids :=
    List.mem_flatMap.mpr ⟨r, hr, List.mem_map_of_mem hport⟩
  obtain ⟨m, hm, rfl⟩ := List.mem_map.mp hport
  obtain ⟨hchild, hkind⟩ : m ∈ r.component.children ∧
      (m.kind ≠ .pubSubPortDelegate ∧ m.kind ≠ .requestPortDelegate) := by
    simp only [Node.findImmediateChildren, List.mem_append, List.mem_filter, decide_eq_true_eq] at hm
    rcases hm with ((hm | hm) | hm) | hm <;> exact ⟨hm.1, by rw [hm.2]; decide⟩
  have hpath : IsPath model.nodes (w ++ p ++ [r.component, m]) := hp.isPath.append ⟨hchild, trivial⟩
  have hparent := h.identified.getParentNode_of_isPath hpath
  refine ⟨hplaced.above (List.ne_nil_of_mem hr), p, r, m, hp, rfl, hpath, ?_, huid, hp.length, ?_⟩
  · rw [hparent]
    exact List.mem_map_of_mem (List.mem_filter.mpr ⟨hr, by simp⟩)
  · intro hdelegate
    have hmem : m.id ∈ model.delegateIds := by
      unfold parsedMessages at hdelegate
      dsimp only at hdelegate
      split at hdelegate
      · simpa using mem_foldl_insert.mp hdelegate
      · simp at hdelegate
    have hkindOf : model.kind m.id = some m.kind := kind_of_isPath h
      (by simpa using hpath : IsPath model.nodes ((w ++ p ++ [r.component]) ++ m :: []))
    have hfind : ∀ kind, m.id ∈ model.findNodesOfKind kind → m.kind = kind := by
      intro kind hid
      obtain ⟨e, he, heq⟩ := List.mem_map.mp hid
      obtain ⟨hentry, hk⟩ := List.mem_filter.mp he
      rw [← heq, Document.kind, h.identified.lookup_of_mem hentry] at hkindOf
      exact (Option.some.inj hkindOf).symm.trans (of_decide_eq_true hk)
    rcases List.mem_append.mp hmem with hid | hid
    · exact hkind.1 (hfind _ hid)
    · exact hkind.2 (hfind _ hid)

/-- Ports whose components are in one assembly have the same assemblies around them. -/
theorem idsOf_eq_of_parents (h : model.WellFormed) (hw : w ≠ []) {m n : Node}
    (hm : IsPath model.nodes (w ++ p ++ [r.component, m]))
    (hn : IsPath model.nodes (w ++ q ++ [r'.component, n]))
    (hparents : model.getParentNodeAt m.id 2 = model.getParentNodeAt n.id 2) :
    idsOf p = idsOf q := by
  have hlast : ∀ l : List Node, ∃ u a, w ++ l = u ++ [a] := by
    intro l
    rcases List.eq_nil_or_concat' (w ++ l) with hnil | ⟨u, a, hu⟩
    · exact absurd (List.append_eq_nil_iff.mp hnil).1 hw
    · exact ⟨u, a, hu⟩
  have hparent : ∀ {u : List Node} {a c k : Node}, IsPath model.nodes (u ++ [a] ++ [c, k]) →
      model.getParentNodeAt k.id 2 = a.id := by
    intro u a c k hpath
    have hc : IsPath model.nodes (u ++ [a, c]) := by
      have : IsPath model.nodes ((u ++ [a, c]) ++ [k]) := by simpa using hpath
      exact this.left
    rw [Document.getParentNodeAt, Document.getParentNodeAt, Document.getParentNodeAt,
      h.identified.getParentNode_of_isPath hpath, h.identified.getParentNode_of_isPath hc]
  obtain ⟨u, a, hu⟩ := hlast p
  obtain ⟨u', b, hu'⟩ := hlast q
  rw [hu] at hm
  rw [hu'] at hn
  have hid : a.id = b.id := by rw [← hparent hm, ← hparent hn, hparents]
  obtain ⟨rfl, hids⟩ := h.identified.eq_of_id_eq hm.left hn.left hid
  have hsplit : ∀ l, idsOf (l ++ [a]) = idsOf l ++ [a.id] := fun _ => List.map_append
  have hall : idsOf (w ++ p) = idsOf (w ++ q) := by
    rw [hu, hu', hsplit, hsplit, hids]
  simp only [idsOf, List.map_append] at hall
  exact List.append_cancel_left hall

/-- **In one assembly** two replicas agree on the assemblies around both ports if and only if they
have the same indices. -/
theorem sharedAgree_same (h : model.WellFormed) (hw : AboveAssemblies model w)
    {s t : Text} {i j : List Nat} {m n : Node} (hs : ReplicaPort model w s i p r m)
    (ht : ReplicaPort model w t j q r' n)
    (hparents : model.getParentNodeAt s 2 = model.getParentNodeAt t 2) :
    model.SharedAgree s i t j ↔ i = j := by
  have hids := idsOf_eq_of_parents h hw.ne_nil hs.isPath ht.isPath
    (by rw [hs.id, ht.id]; exact hparents)
  rw [Model.SharedAgree, ← hs.id, ← ht.id, assembliesAbove_eq h hw hs.replica hs.isPath,
    assembliesAbove_eq h hw ht.replica ht.isPath, ← hids]
  constructor
  · intro hagree
    have hnd : (idsOf p).Nodup := by
      have := h.identified.nodup_of_isPath hs.replica.isPath.left
      rw [idsOf, List.map_append] at this
      exact this.of_append_right
    have hlen : (idsOf p).length = p.length := List.length_map _
    have hlen' : (idsOf p).length = q.length := by rw [hids, idsOf, List.length_map]
    exact eq_of_lookup_zip hnd (by rw [hs.length, hlen]) (by rw [ht.length, hlen'])
      fun a ha => hagree a ha ha
  · rintro rfl
    exact fun _ _ _ => rfl

/-- **A pair of replicas is made exactly when they agree.** -/
theorem mem_pairs_iff (h : model.WellFormed) (hplaced : Placed model w)
    {order : List AssemblyConnection} (horder : ∀ ac ∈ order, IsConnection model ac)
    (hnd : (order.map fun ac => (ac.sourceId, ac.targetId)).Nodup)
    {ac : AssemblyConnection} (hac : ac ∈ order) {i j : List Nat}
    (hi : Replica model ac.sourceId i) (hj : Replica model ac.targetId j) :
    (portUid ac.sourceId i, portUid ac.targetId j) ∈ order.flatMap (connectionPairs model) ↔
      model.SharedAgree ac.sourceId i ac.targetId j := by
  obtain ⟨hw, p, r, m, hs⟩ := hplaced.replicaPort h hi
  obtain ⟨-, q, r', n, ht⟩ := hplaced.replicaPort h hj
  have hsep := hplaced.separator h (List.ne_nil_of_mem hs.mem)
  have htep := hplaced.separator h (List.ne_nil_of_mem ht.mem)
  constructor
  · intro hmem
    obtain ⟨ac', hac', hpair⟩ := List.mem_flatMap.mp hmem
    obtain ⟨hs', ht', i', j', hu, hv, hrule⟩ := mem_connectionPairs hpair
    obtain ⟨hsource, rfl⟩ := portUid_inj hsep (hplaced.separator h hs') hu
    obtain ⟨htarget, rfl⟩ := portUid_inj htep (hplaced.separator h ht') hv
    obtain rfl : ac = ac' := List.inj_on_of_nodup_map hnd hac hac' (Prod.ext hsource htarget)
    split at hrule
    · exact hrule
    · rename_i hinter
      have hparents := not_not.mp (mt (horder ac hac).interAssembly.mpr hinter)
      exact (sharedAgree_same h hw hs ht hparents).mpr hrule
  · intro hagree
    refine List.mem_flatMap.mpr ⟨ac, hac, ?_⟩
    unfold connectionPairs
    dsimp only
    rw [if_neg (by
      simp only [not_or]
      exact ⟨hs.notDelegate, ht.notDelegate, List.ne_nil_of_mem hs.mem, List.ne_nil_of_mem ht.mem⟩)]
    refine List.mem_flatMap.mpr ⟨i, hs.mem, ?_⟩
    unfold sourcePairs
    rw [if_neg (not_not.mpr hs.portUid)]
    split
    · exact List.mem_map.mpr ⟨j, List.mem_filter.mpr ⟨ht.mem, by simp [hagree, ht.portUid]⟩, rfl⟩
    · rename_i hinter
      have hparents := not_not.mp (mt (horder ac hac).interAssembly.mpr hinter)
      obtain rfl := (sharedAgree_same h hw hs ht hparents).mp hagree
      rw [if_pos ht.portUid]
      exact List.mem_singleton_self _

/-- No pair is made the other way round. -/
theorem swap_notMem_pairs (h : model.WellFormed) (hplaced : Placed model w)
    {order : List AssemblyConnection} (horder : ∀ ac ∈ order, IsConnection model ac)
    {ac : AssemblyConnection} (hac : ac ∈ order) {i j : List Nat}
    (hi : Replica model ac.sourceId i) (hj : Replica model ac.targetId j) :
    (portUid ac.targetId j, portUid ac.sourceId i) ∉ order.flatMap (connectionPairs model) := by
  obtain ⟨-, p, r, m, hs⟩ := hplaced.replicaPort h hi
  obtain ⟨-, q, r', n, ht⟩ := hplaced.replicaPort h hj
  intro hmem
  obtain ⟨ac', hac', hpair⟩ := List.mem_flatMap.mp hmem
  obtain ⟨hs', ht', i', j', hu, hv, -⟩ := mem_connectionPairs hpair
  have hsource := (portUid_inj (hplaced.separator h (List.ne_nil_of_mem ht.mem))
    (hplaced.separator h hs') hu).1
  have htarget := (portUid_inj (hplaced.separator h (List.ne_nil_of_mem hs.mem))
    (hplaced.separator h ht') hv).1
  exact (horder ac hac).not_reverse (horder ac' hac') ⟨hsource.symm, htarget.symm⟩

theorem Replica.assemblyDefinitions_ne_none {portId : Text} {i : List Nat}
    (h : Replica model portId i) : model.assemblyDefinitions ≠ none := by
  intro hnone
  obtain ⟨r, hr, -⟩ := h
  rw [deployedInstances, componentInstances, hnone] at hr
  cases hr

/-- **Replicated connections.** Where no assembly edges lead back to where they come from,
`CalculateReplication` comes to its end with every assertion true and every index in bounds, in
whichever order `assembly_map_` has the connections; these are recorded at both ends; and for an
assembly connection of the model two replicas are connected, once, exactly when their index tuples
agree on every assembly around both ports. -/
theorem connected_iff_sharedAgree (model : Model) (h : model.WellFormed)
    (hacyclic : ∀ t, model.IsEndpoint t → ¬ model.CycleBehind .assembly t) :
    ∃ connections, model.assemblyConnections = .ok connections ∧ ∀ order, order.Perm connections →
      ∃ m, model.calculateReplication order = some m ∧
        (∀ u v, v ∈ m.connectedPorts u ↔ u ∈ m.connectedPorts v) ∧
        ∀ s t, model.Connects s t → ∀ i j, Replica model s i → Replica model t j →
          (m.connectedPorts (portUid s i)).count (portUid t j) =
            (if model.SharedAgree s i t j then 1 else 0) ∧
          (m.connectedPorts (portUid t j)).count (portUid s i) =
            if model.SharedAgree s i t j then 1 else 0 := by
  obtain ⟨connections, hconnections, hmem⟩ := exists_assemblyConnections h.identified hacyclic
  obtain ⟨hndc, hspec⟩ := assemblyConnections_spec h.identified hconnections
  refine ⟨connections, hconnections, fun order horder => ?_⟩
  have hall : ∀ ac ∈ order, IsConnection model ac := fun ac hac => hspec ac (horder.subset hac)
  have hnd : (order.map fun ac => (ac.sourceId, ac.targetId)).Nodup :=
    ((horder.map _).nodup_iff).mpr hndc
  obtain ⟨w, hplaced⟩ := exists_placed h
  obtain ⟨m, hm, hcount⟩ := calculateReplication_records h hall
  refine ⟨m, hm, fun u v => ?_, fun s t hst i j hi hj => ?_⟩
  · rw [← List.count_pos_iff, ← List.count_pos_iff, hcount, hcount, Nat.add_comm]
  · obtain ⟨ac, hac, rfl, rfl⟩ := (hmem hi.assemblyDefinitions_ne_none s t).mpr hst
    have hac := horder.symm.subset hac
    have hpair : (order.flatMap (connectionPairs model)).count
        (portUid ac.sourceId i, portUid ac.targetId j) =
          if model.SharedAgree ac.sourceId i ac.targetId j then 1 else 0 := by
      rw [(pairs_nodup h hplaced hnd).count]
      simp only [mem_pairs_iff h hplaced hall hnd hac hi hj]
    have hswap := List.count_eq_zero.mpr (swap_notMem_pairs h hplaced hall hac hi hj)
    rw [hcount, hcount, hpair, hswap]
    exact ⟨rfl, Nat.zero_add _⟩

/-! ## An uneven model -/

/-- An assembly with two replicas has a component and, one assembly deeper and replicated twice
again, a component that listens to it. -/
def unevenModel : Model where
  nodes := [.mk ['1'] .assemblyDefinitions [.mk ['2'] .componentAssembly [.mk ['3'] .variable [],
    .mk ['4'] .componentInstance [.mk ['5'] .publisherPortInstance []],
    .mk ['6'] .componentAssembly [.mk ['7'] .variable [],
      .mk ['8'] .componentInstance [.mk ['9'] .subscriberPortInstance []]]]]]
  edges := [⟨.assembly, ['5'], ['9']⟩]
  attributeValue _ := ['2']
  hasContainer _ := true

theorem unevenModel_wellFormed : unevenModel.WellFormed where
  identified := ⟨by decide, by decide⟩
  separator := by decide
  notReplicated := by
    intro definitions h
    obtain rfl := Option.some.inj h
    rfl
  outermost := by
    intro definitions h
    obtain rfl := Option.some.inj h
    decide

/-- The one edge leads back to no node with edges. -/
theorem edgeFrom_unevenModel {id source : Text} :
    unevenModel.EdgeFrom .assembly id source ↔ id = ['9'] ∧ source = ['5'] := by
  simp [Model.EdgeFrom, unevenModel, eq_comm]

theorem not_cycleBehind_unevenModel (id : Text) : ¬ unevenModel.CycleBehind .assembly id := by
  rintro ⟨c, -, hcycle⟩
  obtain ⟨b, hb, -⟩ := Relation.TransGen.head'_iff.mp hcycle
  obtain ⟨a, -, ha⟩ := Relation.TransGen.tail'_iff.mp hcycle
  have hfirst := (edgeFrom_unevenModel.mp hb).1
  have hlast := (edgeFrom_unevenModel.mp ha).2
  cases hfirst.symm.trans hlast

theorem connects_unevenModel : unevenModel.Connects ['5'] ['9'] := by
  refine ⟨.inl (by decide), .edge (edgeFrom_unevenModel.mpr ⟨rfl, rfl⟩), .inl fun s hs => ?_⟩
  cases (edgeFrom_unevenModel.mp hs).1

theorem connected_unevenModel : ∃ m,
    unevenModel.calculateReplication [⟨['5'], ['9'], true⟩] = some m ∧
      (m.connectedPorts "5_0".toList).count "9_0_1".toList = 1 ∧
      (m.connectedPorts "5_0".toList).count "9_1_0".toList = 0 := by
  obtain ⟨connections, hconnections, horders⟩ := connected_iff_sharedAgree unevenModel
    unevenModel_wellFormed fun t _ => not_cycleBehind_unevenModel t
  have hone : unevenModel.assemblyConnections = .ok [⟨['5'], ['9'], true⟩] := by decide
  obtain rfl := Except.ok.inj (hone.symm.trans hconnections)
  obtain ⟨m, hm, -, hcount⟩ := horders _ (List.Perm.refl _)
  refine ⟨m, hm, ?_, ?_⟩
  · exact (hcount _ _ connects_unevenModel [0] [0, 1] (by decide) (by decide)).1
  · exact (hcount _ _ connects_unevenModel [0] [1, 0] (by decide) (by decide)).1

end Sem.Re

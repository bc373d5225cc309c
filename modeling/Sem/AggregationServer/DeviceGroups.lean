import Sem.Lib.Runs
import Sem.Lib.Xml

/-!
# Groups of nodes and devices

`ProcessNetworkUtilisationRequest` and `ProcessGPUMetricRequest` have one loop: it begins a group
for a node when the hostname is not that of the last row, and a group in it when the device is not
that of the last row. The groups are known by pointers.

* `groupRows_correct_iff`: for rows that are sorted by host, the groups are right exactly if the
  first row has names, the device changes with the host, the rows of a device of a host are
  together, and each sample has its values.
-/

namespace Sem.AggregationServer

open Xml (Text)

/-- A row of a node and one of its devices, which is known by its MAC or by its name. -/
structure DeviceRow (M : Type) where
  nodeHostname : Text
  nodeIP : Text
  device : Text
  sampleTime : Text
  measured : M
  deriving DecidableEq, Repr

/-- The host and the device. -/
def DeviceRow.key {M : Type} (r : DeviceRow M) : Text × Text := (r.nodeHostname, r.device)

/-- `InterfaceNetworkEvents` and `GPUDeviceMetrics`. -/
structure DeviceGroup (S : Type) where
  device : Text
  samples : List S
  deriving DecidableEq, Repr

/-- `NodeNetworkEvents` and `NodeGPUMetrics`. -/
structure NodeGroup (S : Type) where
  hostname : Text
  ip : Text
  devices : List (DeviceGroup S)
  deriving DecidableEq, Repr

/-- What ends a reply without a result. -/
inductive ReplierError
  /-- "Failed to parse SampleTime field from string: ". -/
  | sampleTime (text : Text)
  /-- `pqxx::conversion_error`. -/
  | conversion (text : Text)
  /-- `pqxx::argument_error`, for a column that is not there. -/
  | argument
  deriving DecidableEq, Repr

/-- The response and the variables of the loop; a pointer is the place of its group. -/
structure Grouping (S : Type) where
  nodes : List (NodeGroup S)
  currentHostname : Text
  currentDevice : Text
  currentNodeGroup : Option ℕ
  currentDeviceGroup : Option (ℕ × ℕ)
  deriving DecidableEq, Repr

namespace Grouping

variable {M S : Type}

/-- Before the first row, the names that rows are compared with are empty. -/
def start : Grouping S where
  nodes := []
  currentHostname := []
  currentDevice := []
  currentNodeGroup := none
  currentDeviceGroup := none

/-- A new group for another hostname. -/
def nodeFor (g : Grouping S) (row : DeviceRow M) : Grouping S :=
  if g.currentHostname ≠ row.nodeHostname then
    { g with
      nodes := g.nodes ++ [⟨row.nodeHostname, row.nodeIP, []⟩]
      currentHostname := row.nodeHostname
      currentNodeGroup := some g.nodes.length }
  else g

/-- A new group for another device; none when there is no group for it to be in. -/
def deviceFor (g : Grouping S) (row : DeviceRow M) : Option (Grouping S) :=
  if g.currentDevice ≠ row.device then
    g.currentNodeGroup.bind fun i =>
      g.nodes[i]?.map fun node =>
        { g with
          nodes := g.nodes.modify i fun node =>
            { node with devices := node.devices ++ [⟨row.device, []⟩] }
          currentDevice := row.device
          currentDeviceGroup := some (i, node.devices.length) }
  else some g

/-- A sample in the group of the device; none when there is no group. -/
def addSample (g : Grouping S) (sample : S) : Option (Grouping S) :=
  g.currentDeviceGroup.map fun (i, j) =>
    { g with
      nodes := g.nodes.modify i fun node =>
        { node with
          devices := node.devices.modify j fun group =>
            { group with samples := group.samples ++ [sample] } } }

/-- The loop; none when a null pointer is followed. -/
def run (build : DeviceRow M → Except ReplierError S) :
    Grouping S → List (DeviceRow M) → Option (Except ReplierError (List (NodeGroup S)))
  | g, [] => some (.ok g.nodes)
  | g, row :: rows =>
    match (g.nodeFor row).deviceFor row with
    | none => none
    | some g =>
      match g.currentDeviceGroup, build row with
      | none, _ => none
      | some _, .error e => some (.error e)
      | some _, .ok sample => (g.addSample sample).bind fun g => run build g rows

end Grouping

variable {M S : Type}

/-- The nodes of the response to these rows. -/
def groupRows (build : DeviceRow M → Except ReplierError S) (rows : List (DeviceRow M)) :
    Option (Except ReplierError (List (NodeGroup S))) :=
  Grouping.start.run build rows

/-- One group for each host and in it one for each of its devices, with the samples of its rows in
their order. -/
structure GroupedBy (own : DeviceRow M → S → Prop) (rows : List (DeviceRow M))
    (nodes : List (NodeGroup S)) : Prop where
  hosts : (nodes.map NodeGroup.hostname).Nodup
  mem_hosts (h : Text) : h ∈ nodes.map NodeGroup.hostname ↔ ∃ r ∈ rows, r.nodeHostname = h
  devices (g : NodeGroup S) : g ∈ nodes → (g.devices.map DeviceGroup.device).Nodup
  mem_devices (g : NodeGroup S) (d : Text) : g ∈ nodes →
    (d ∈ g.devices.map DeviceGroup.device ↔
      ∃ r ∈ rows, r.nodeHostname = g.hostname ∧ r.device = d)
  samples (g : NodeGroup S) (d : DeviceGroup S) : g ∈ nodes → d ∈ g.devices →
    List.Forall₂ own
      (rows.filter fun r => r.nodeHostname = g.hostname ∧ r.device = d.device) d.samples

/-- The device changes when the host does. -/
def Changes (r r' : DeviceRow M) : Prop :=
  r.nodeHostname ≠ r'.nodeHostname → r.device ≠ r'.device

instance (r r' : DeviceRow M) : Decidable (Changes r r') :=
  inferInstanceAs (Decidable (_ → _))

/-- The rows for which the groups are right. -/
structure Separate (rows : List (DeviceRow M)) : Prop where
  named (r : DeviceRow M) : rows.head? = some r → r.nodeHostname ≠ [] ∧ r.device ≠ []
  changes : rows.IsChain Changes
  together : Together DeviceRow.key rows

/-! ## The groups of rows that are separate -/

/-- The groups of devices with these rows. -/
def devicesOf (f : DeviceRow M → S) (ds : List (Text × List (DeviceRow M))) :
    List (DeviceGroup S) :=
  ds.map fun q => ⟨q.1, q.2.map f⟩

/-- The groups of nodes with these rows, each with a group for each run of a device. -/
def nodesOf (f : DeviceRow M → S) (rs : List (Text × List (DeviceRow M))) : List (NodeGroup S) :=
  rs.map fun q => ⟨q.1, (q.2.head?.map DeviceRow.nodeIP).getD [],
    devicesOf f (runs DeviceRow.device q.2)⟩

@[simp]
theorem length_devicesOf (f : DeviceRow M → S) (ds : List (Text × List (DeviceRow M))) :
    (devicesOf f ds).length = ds.length := by
  simp [devicesOf]

@[simp]
theorem length_nodesOf (f : DeviceRow M → S) (rs : List (Text × List (DeviceRow M))) :
    (nodesOf f rs).length = rs.length := by
  simp [nodesOf]

@[simp]
theorem devicesOf_append (f : DeviceRow M → S) (ds ds' : List (Text × List (DeviceRow M))) :
    devicesOf f (ds ++ ds') = devicesOf f ds ++ devicesOf f ds' := by
  simp [devicesOf]

@[simp]
theorem nodesOf_append (f : DeviceRow M → S) (rs rs' : List (Text × List (DeviceRow M))) :
    nodesOf f (rs ++ rs') = nodesOf f rs ++ nodesOf f rs' := by
  simp [nodesOf]

/-- The last host is described by the first of its rows. -/
theorem nodesOf_concat {f : DeviceRow M → S} {rs ds : List (Text × List (DeviceRow M))}
    {hostname : Text} {run : List (DeviceRow M)} (h : runs DeviceRow.device run = ds) :
    nodesOf f (rs ++ [(hostname, run)]) = nodesOf f rs ++
      [⟨hostname, (run.head?.map DeviceRow.nodeIP).getD [], devicesOf f ds⟩] := by
  rw [nodesOf_append, ← h]
  rfl

/-- The loop is in the last group of the last node, that of the row `p`. -/
structure Settled (f : DeviceRow M → S) (rows : List (DeviceRow M)) (p : DeviceRow M)
    (g : Grouping S) (rs : List (Text × List (DeviceRow M))) (run : List (DeviceRow M))
    (ds : List (Text × List (DeviceRow M))) (drun : List (DeviceRow M)) : Prop where
  hosts : runs DeviceRow.nodeHostname (rows ++ [p]) = rs ++ [(p.nodeHostname, run ++ [p])]
  devices : runs DeviceRow.device (run ++ [p]) = ds ++ [(p.device, drun ++ [p])]
  state : g =
    { nodes := nodesOf f (runs DeviceRow.nodeHostname (rows ++ [p]))
      currentHostname := p.nodeHostname
      currentDevice := p.device
      currentNodeGroup := some rs.length
      currentDeviceGroup := some (rs.length, ds.length) }

theorem modify_append_cons {α : Type} {before : List α} {n : ℕ} (hn : n = before.length) (a : α)
    (after : List α) (f : α → α) :
    (before ++ a :: after).modify n f = before ++ f a :: after := by
  subst hn
  induction before with
  | nil => rfl
  | cons b before ih => rw [List.cons_append, List.length_cons, List.modify_succ_cons, ih]; rfl

namespace Grouping

variable {g : Grouping S} {row : DeviceRow M} {sample : S} {hostname ip device : Text}
  {samples : List S} {i j : ℕ}

/-- What the loop does with a row. -/
def addRow (g : Grouping S) (row : DeviceRow M) (sample : S) : Option (Grouping S) :=
  ((g.nodeFor row).deviceFor row).bind (·.addSample sample)

/-- A row that can be read is added before the others are. -/
theorem run_cons {build : DeviceRow M → Except ReplierError S} {rows : List (DeviceRow M)}
    (hbuild : build row = .ok sample) :
    g.run build (row :: rows) = (g.addRow row sample).bind (run build · rows) := by
  rw [run, addRow, hbuild]
  cases (g.nodeFor row).deviceFor row with
  | none => rfl
  | some g =>
    cases hgroup : g.currentDeviceGroup with
    | none => simp [addSample, hgroup]
    | some group => simp [hgroup]

/-- A new device comes behind those of the current node, wherever the node stands. -/
theorem deviceFor_new (before after : List (NodeGroup S)) (devices : List (DeviceGroup S))
    (hdevice : g.currentDevice ≠ row.device)
    (hnodes : g.nodes = before ++ ⟨hostname, ip, devices⟩ :: after)
    (hgroup : g.currentNodeGroup = some i) (hi : i = before.length) :
    g.deviceFor row = some { g with
      nodes := before ++ ⟨hostname, ip, devices ++ [⟨row.device, []⟩]⟩ :: after
      currentDevice := row.device
      currentDeviceGroup := some (i, devices.length) } := by
  have hnode : g.nodes[i]? = some ⟨hostname, ip, devices⟩ := by
    rw [hnodes, hi]
    simp
  rw [deviceFor, if_pos hdevice, hgroup, Option.bind_some, hnode, Option.map_some, hnodes,
    modify_append_cons hi]

/-- A sample comes behind those of the current device. -/
theorem addSample_eq {before after : List (NodeGroup S)} (devices : List (DeviceGroup S))
    (sample : S)
    (hnodes : g.nodes = before ++ ⟨hostname, ip, devices ++ [⟨device, samples⟩]⟩ :: after)
    (hgroup : g.currentDeviceGroup = some (i, j)) (hi : i = before.length)
    (hj : j = devices.length) :
    g.addSample sample = some { g with
      nodes := before ++ ⟨hostname, ip, devices ++ [⟨device, samples ++ [sample]⟩]⟩ :: after } := by
  simp only [addSample, hgroup, Option.map_some, hnodes, modify_append_cons hi,
    modify_append_cons hj]

end Grouping

section Steps

variable {f : DeviceRow M → S} {rows run drun : List (DeviceRow M)} {p r : DeviceRow M}
  {g : Grouping S} {rs ds : List (Text × List (DeviceRow M))}

/-- Between two rows the reply is the grouping of the rows so far. -/
theorem Settled.nodes (h : Settled f rows p g rs run ds drun) :
    g.nodes = nodesOf f rs ++ [⟨p.nodeHostname, ((run ++ [p]).head?.map DeviceRow.nodeIP).getD [],
      devicesOf f ds ++ [⟨p.device, (drun ++ [p]).map f⟩]⟩] := by
  rw [h.state, h.hosts, nodesOf_concat h.devices, devicesOf_append]
  rfl

/-- A row of the current host opens no group. -/
theorem Settled.nodeFor_same (h : Settled f rows p g rs run ds drun)
    (hhost : p.nodeHostname = r.nodeHostname) : g.nodeFor r = g := by
  rw [Grouping.nodeFor, if_neg]
  rw [h.state]
  exact not_not.mpr hhost

/-- A row of another host opens one behind the others. -/
theorem Settled.nodeFor_new (h : Settled f rows p g rs run ds drun)
    (hhost : p.nodeHostname ≠ r.nodeHostname) :
    g.nodeFor r = { g with
      nodes := g.nodes ++ [⟨r.nodeHostname, r.nodeIP, []⟩]
      currentHostname := r.nodeHostname
      currentNodeGroup := some g.nodes.length } := by
  rw [Grouping.nodeFor, if_pos]
  rw [h.state]
  exact hhost

/-- A row of the same device of the same host. -/
theorem Settled.addRow_same (h : Settled f rows p g rs run ds drun)
    (hhost : p.nodeHostname = r.nodeHostname) (hdevice : p.device = r.device) :
    ∃ g', g.addRow r (f r) = some g' ∧
      Settled f (rows ++ [p]) r g' rs (run ++ [p]) ds (drun ++ [p]) := by
  have hdev : g.deviceFor r = some g := by
    rw [Grouping.deviceFor, if_neg]
    rw [h.state]
    exact not_not.mpr hdevice
  have hadd := Grouping.addSample_eq _ (f r) h.nodes (by rw [h.state]) (by simp) (by simp)
  have hhosts : runs DeviceRow.nodeHostname (rows ++ [p] ++ [r]) =
      rs ++ [(r.nodeHostname, run ++ [p] ++ [r])] := by
    rw [runs_concat, h.hosts, hhost, addToRuns_same]
  have hdevices : runs DeviceRow.device (run ++ [p] ++ [r]) =
      ds ++ [(r.device, drun ++ [p] ++ [r])] := by
    rw [runs_concat, h.devices, hdevice, addToRuns_same]
  refine ⟨_, ?_, hhosts, hdevices, rfl⟩
  rw [Grouping.addRow, h.nodeFor_same hhost, hdev, Option.bind_some, hadd, hhosts,
    nodesOf_concat hdevices, h.state]
  simp [devicesOf, hhost, hdevice]

/-- A row of another device of the same host. -/
theorem Settled.addRow_device (h : Settled f rows p g rs run ds drun)
    (hhost : p.nodeHostname = r.nodeHostname) (hdevice : p.device ≠ r.device) :
    ∃ g', g.addRow r (f r) = some g' ∧ Settled f (rows ++ [p]) r g' rs (run ++ [p])
      (ds ++ [(p.device, drun ++ [p])]) [] := by
  have hcurrent : g.currentDevice ≠ r.device := by
    rw [h.state]
    exact hdevice
  have hdev := Grouping.deviceFor_new _ _ _ hcurrent h.nodes (by rw [h.state]) (by simp)
  have hhosts : runs DeviceRow.nodeHostname (rows ++ [p] ++ [r]) =
      rs ++ [(r.nodeHostname, run ++ [p] ++ [r])] := by
    rw [runs_concat, h.hosts, hhost, addToRuns_same]
  have hdevices : runs DeviceRow.device (run ++ [p] ++ [r]) =
      ds ++ [(p.device, drun ++ [p])] ++ [(r.device, [] ++ [r])] := by
    rw [runs_concat, h.devices, addToRuns_new hdevice, List.nil_append]
  refine ⟨_, ?_, hhosts, hdevices, rfl⟩
  rw [Grouping.addRow, h.nodeFor_same hhost, hdev, Option.bind_some,
    Grouping.addSample_eq _ _ rfl rfl (by simp) (by simp), hhosts, nodesOf_concat hdevices, h.state]
  simp [devicesOf, hhost]

/-- A row of another device of another host. -/
theorem Settled.addRow_host (h : Settled f rows p g rs run ds drun)
    (hhost : p.nodeHostname ≠ r.nodeHostname) (hdevice : p.device ≠ r.device) :
    ∃ g', g.addRow r (f r) = some g' ∧ Settled f (rows ++ [p]) r g'
      (rs ++ [(p.nodeHostname, run ++ [p])]) [] [] [] := by
  have hnew := h.nodeFor_new hhost
  have hcurrent : (g.nodeFor r).currentDevice ≠ r.device := by
    rw [hnew, h.state]
    exact hdevice
  have hdev := Grouping.deviceFor_new g.nodes [] [] hcurrent (by rw [hnew]) (by rw [hnew]) rfl
  have hhosts : runs DeviceRow.nodeHostname (rows ++ [p] ++ [r]) =
      rs ++ [(p.nodeHostname, run ++ [p])] ++ [(r.nodeHostname, [] ++ [r])] := by
    rw [runs_concat, h.hosts, addToRuns_new hhost, List.nil_append]
  refine ⟨_, ?_, hhosts, rfl, rfl⟩
  rw [Grouping.addRow, hdev, Option.bind_some,
    Grouping.addSample_eq [] _ rfl rfl rfl rfl, hnew, hhosts, h.state]
  simp [h.hosts, nodesOf, devicesOf]
  rfl

/-- A row keeps the books unless the host changes and the device stays. -/
theorem Settled.addRow (h : Settled f rows p g rs run ds drun) (hchange : Changes p r) :
    ∃ g' rs' run' ds' drun', g.addRow r (f r) = some g' ∧
      Settled f (rows ++ [p]) r g' rs' run' ds' drun' := by
  by_cases hhost : p.nodeHostname = r.nodeHostname
  · by_cases hdevice : p.device = r.device
    · obtain ⟨g', hadd, hsettled⟩ := h.addRow_same hhost hdevice
      exact ⟨g', _, _, _, _, hadd, hsettled⟩
    · obtain ⟨g', hadd, hsettled⟩ := h.addRow_device hhost hdevice
      exact ⟨g', _, _, _, _, hadd, hsettled⟩
  · obtain ⟨g', hadd, hsettled⟩ := h.addRow_host hhost (hchange hhost)
    exact ⟨g', _, _, _, _, hadd, hsettled⟩

/-- The first row begins two groups, if its names are not empty. -/
theorem addRow_start (hhost : r.nodeHostname ≠ []) (hdevice : r.device ≠ []) :
    ∃ g', Grouping.start.addRow r (f r) = some g' ∧ Settled f [] r g' [] [] [] [] := by
  have hnode : (Grouping.start : Grouping S).nodeFor r = { (Grouping.start : Grouping S) with
      nodes := [⟨r.nodeHostname, r.nodeIP, []⟩]
      currentHostname := r.nodeHostname
      currentNodeGroup := some 0 } := by
    rw [Grouping.nodeFor, if_pos]
    · rfl
    · exact hhost.symm
  refine ⟨_, ?_, rfl, rfl, rfl⟩
  rw [Grouping.addRow, hnode, Grouping.deviceFor_new [] [] _ hdevice.symm rfl rfl rfl,
    Option.bind_some, Grouping.addSample_eq [] _ rfl rfl rfl rfl]
  rfl

/-- A first row without a name leads through a null pointer. -/
theorem addRow_start_eq_none (h : r.nodeHostname = [] ∨ r.device = []) (sample : S) :
    Grouping.start.addRow r sample = none := by
  obtain hhost | hdevice := h
  · have hnode : (Grouping.start : Grouping S).nodeFor r = Grouping.start := by
      rw [Grouping.nodeFor, if_neg]
      exact not_not.mpr hhost.symm
    rw [Grouping.addRow, hnode, Grouping.deviceFor]
    split <;> rfl
  · have hgroup : ((Grouping.start : Grouping S).nodeFor r).currentDeviceGroup = none := by
      rw [Grouping.nodeFor]
      split <;> rfl
    have hdev : ((Grouping.start : Grouping S).nodeFor r).deviceFor r =
        some (Grouping.start.nodeFor r) := by
      rw [Grouping.deviceFor, if_neg]
      rw [Grouping.nodeFor]
      split <;> exact not_not.mpr hdevice.symm
    rw [Grouping.addRow, hdev, Option.bind_some, Grouping.addSample, hgroup]
    rfl

/-- From there, rows whose device changes with the host lead to a group for each run. -/
theorem Settled.run_eq {build : DeviceRow M → Except ReplierError S} {rest : List (DeviceRow M)}
    (h : Settled f rows p g rs run ds drun) (hbuild : ∀ r ∈ rest, build r = .ok (f r))
    (hchain : (p :: rest).IsChain Changes) :
    g.run build rest =
      some (.ok (nodesOf f (runs DeviceRow.nodeHostname (rows ++ p :: rest)))) := by
  induction rest generalizing rows p g rs run ds drun with
  | nil => rw [Grouping.run, h.state]
  | cons r rest ih =>
    obtain ⟨hchange, hchain⟩ := List.isChain_cons_cons.mp hchain
    obtain ⟨g', rs', run', ds', drun', hadd, hsettled⟩ := h.addRow hchange
    rw [Grouping.run_cons (hbuild r List.mem_cons_self), hadd, Option.bind_some,
      ih hsettled (fun q hq => hbuild q (List.mem_cons_of_mem _ hq)) hchain, List.append_assoc]
    rfl

/-! ## Groups only grow -/

/-- The groups that are there stay where they are, and their samples stay in them. -/
def Grows (nodes nodes' : List (NodeGroup S)) : Prop :=
  ∀ (i : ℕ) (node : NodeGroup S), nodes[i]? = some node → ∃ node', nodes'[i]? = some node' ∧
    node'.hostname = node.hostname ∧ ∀ (j : ℕ) (group : DeviceGroup S),
      node.devices[j]? = some group → ∃ group', node'.devices[j]? = some group' ∧
        group'.device = group.device ∧ group.samples <+: group'.samples

theorem Grows.refl (nodes : List (NodeGroup S)) : Grows nodes nodes :=
  fun _ node hnode => ⟨node, hnode, rfl, fun _ group hgroup =>
    ⟨group, hgroup, rfl, List.prefix_rfl⟩⟩

/-- Growth upon growth. -/
theorem Grows.trans {nodes nodes' nodes'' : List (NodeGroup S)} (h : Grows nodes nodes')
    (h' : Grows nodes' nodes'') : Grows nodes nodes'' := by
  intro i node hnode
  obtain ⟨node', hnode', hname, hgroups⟩ := h i node hnode
  obtain ⟨node'', hnode'', hname', hgroups'⟩ := h' i node' hnode'
  refine ⟨node'', hnode'', hname'.trans hname, fun j group hgroup => ?_⟩
  obtain ⟨group', hgroup', hdevice, hsamples⟩ := hgroups j group hgroup
  obtain ⟨group'', hgroup'', hdevice', hsamples'⟩ := hgroups' j group' hgroup'
  exact ⟨group'', hgroup'', hdevice'.trans hdevice, hsamples.trans hsamples'⟩

theorem grows_append (nodes more : List (NodeGroup S)) : Grows nodes (nodes ++ more) := by
  intro i node hnode
  obtain ⟨hlt, -⟩ := List.getElem?_eq_some_iff.mp hnode
  exact ⟨node, by rw [List.getElem?_append_left hlt, hnode], rfl, fun j group hgroup =>
    ⟨group, hgroup, rfl, List.prefix_rfl⟩⟩

/-- A change of one node that keeps its groups. -/
theorem grows_modify {nodes : List (NodeGroup S)} (i : ℕ) (change : NodeGroup S → NodeGroup S)
    (hname : ∀ node, (change node).hostname = node.hostname)
    (hgroups : ∀ (node : NodeGroup S) (j : ℕ) (group : DeviceGroup S),
      node.devices[j]? = some group →
      ∃ group', (change node).devices[j]? = some group' ∧ group'.device = group.device ∧
        group.samples <+: group'.samples) : Grows nodes (nodes.modify i change) := by
  intro k node hnode
  by_cases hk : i = k
  · subst hk
    exact ⟨change node, by rw [List.getElem?_modify_eq, hnode]; rfl, hname node, hgroups node⟩
  · exact ⟨node, by rw [List.getElem?_modify_ne _ _ hk, hnode], rfl, fun j group hgroup =>
      ⟨group, hgroup, rfl, List.prefix_rfl⟩⟩

/-- No row takes away from the reply. -/
theorem grows_addRow {g' : Grouping S} {sample : S} (h : g.addRow r sample = some g') :
    Grows g.nodes g'.nodes := by
  obtain ⟨g₁, hdevice, hsample⟩ := Option.bind_eq_some_iff.mp h
  have hnodeFor : Grows g.nodes (g.nodeFor r).nodes := by
    unfold Grouping.nodeFor
    split
    · exact grows_append _ _
    · exact .refl _
  have hdeviceFor : Grows (g.nodeFor r).nodes g₁.nodes := by
    unfold Grouping.deviceFor at hdevice
    split at hdevice
    · obtain ⟨i, -, hdevice⟩ := Option.bind_eq_some_iff.mp hdevice
      obtain ⟨node, -, rfl⟩ := Option.map_eq_some_iff.mp hdevice
      refine grows_modify i _ (fun _ => rfl) fun node j group hgroup =>
        ⟨group, ?_, rfl, List.prefix_rfl⟩
      obtain ⟨hlt, -⟩ := List.getElem?_eq_some_iff.mp hgroup
      exact (List.getElem?_append_left hlt).trans hgroup
    · cases hdevice
      exact .refl _
  have haddSample : Grows g₁.nodes g'.nodes := by
    obtain ⟨⟨i, j⟩, -, rfl⟩ := Option.map_eq_some_iff.mp hsample
    refine grows_modify i _ (fun _ => rfl) fun node k group hgroup => ?_
    by_cases hk : j = k
    · subst hk
      refine ⟨{ group with samples := group.samples ++ [sample] }, ?_, rfl, List.prefix_append _ _⟩
      rw [List.getElem?_modify_eq, hgroup]
      rfl
    · exact ⟨group, by rw [List.getElem?_modify_ne _ _ hk, hgroup], rfl, List.prefix_rfl⟩
  exact (hnodeFor.trans hdeviceFor).trans haddSample

/-- So the groups of the first rows stay in the reply. -/
theorem grows_run {build : DeviceRow M → Except ReplierError S} {rest : List (DeviceRow M)}
    {nodes : List (NodeGroup S)} (hbuild : ∀ r ∈ rest, build r = .ok (f r))
    (h : g.run build rest = some (.ok nodes)) : Grows g.nodes nodes := by
  induction rest generalizing g with
  | nil =>
    cases h
    exact .refl _
  | cons r rest ih =>
    rw [Grouping.run_cons (hbuild r List.mem_cons_self)] at h
    obtain ⟨g', hadd, hrest⟩ := Option.bind_eq_some_iff.mp h
    exact (grows_addRow hadd).trans
      (ih (fun q hq => hbuild q (List.mem_cons_of_mem _ hq)) hrest)

/-- A row of another host with the same device is added to the group of the last row. -/
theorem Settled.addRow_stuck (h : Settled f rows p g rs run ds drun)
    (hhost : p.nodeHostname ≠ r.nodeHostname) (hdevice : p.device = r.device) (sample : S) :
    ∃ g', g.addRow r sample = some g' ∧
      g'.nodes = nodesOf f rs ++
        ⟨p.nodeHostname, ((run ++ [p]).head?.map DeviceRow.nodeIP).getD [],
          devicesOf f ds ++ [⟨p.device, (drun ++ [p]).map f ++ [sample]⟩]⟩ ::
        [⟨r.nodeHostname, r.nodeIP, []⟩] := by
  have hnew := h.nodeFor_new hhost
  have hdev : (g.nodeFor r).deviceFor r = some (g.nodeFor r) := by
    rw [Grouping.deviceFor, if_neg]
    rw [hnew, h.state]
    exact not_not.mpr hdevice
  have hnodes := h.nodes
  have hnodes' : (g.nodeFor r).nodes = nodesOf f rs ++
      ⟨p.nodeHostname, ((run ++ [p]).head?.map DeviceRow.nodeIP).getD [],
        devicesOf f ds ++ [⟨p.device, (drun ++ [p]).map f⟩]⟩ ::
      [⟨r.nodeHostname, r.nodeIP, []⟩] := by
    rw [hnew, hnodes, List.append_assoc]
    rfl
  have hadd := Grouping.addSample_eq _ sample hnodes' (by rw [hnew, h.state]) (by simp) (by simp)
  exact ⟨_, by rw [Grouping.addRow, hdev, Option.bind_some, hadd], rfl⟩

/-! ## The groups that are right -/

/-- The rows of a run of a device in the rows of its host. -/
theorem run_eq_rows (hhosts : Together DeviceRow.nodeHostname rows) {hostname device : Text}
    {hrun drun : List (DeviceRow M)} (hmem : (hostname, hrun) ∈ runs DeviceRow.nodeHostname rows)
    (hdevices : Together DeviceRow.device hrun)
    (hmem' : (device, drun) ∈ runs DeviceRow.device hrun) :
    drun = rows.filter fun r => r.nodeHostname = hostname ∧ r.device = device := by
  rw [run_eq_filter hdevices hmem', run_eq_filter hhosts hmem, List.filter_filter]
  refine List.filter_congr fun r _ => ?_
  rw [Bool.decide_and, Bool.and_comm]

/-- The rows of each device of a host are together exactly if they are in the run of the host. -/
theorem together_key (hhosts : Together DeviceRow.nodeHostname rows) :
    Together DeviceRow.key rows ↔
      ∀ q ∈ runs DeviceRow.nodeHostname rows, Together DeviceRow.device q.2 := by
  constructor
  · rintro h ⟨hostname, hrun⟩ hmem a b c hsub hdevice
    have hsame : ∀ r ∈ hrun, r.nodeHostname = hostname := (mem_run hmem).2
    have hrows : hrun.Sublist rows := by
      rw [run_eq_filter hhosts hmem]
      exact List.filter_sublist
    have hhost : a.nodeHostname = c.nodeHostname := by
      rw [hsame a (hsub.subset (by simp)), hsame c (hsub.subset (by simp))]
    have hb : b.key = a.key := h a b c (hsub.trans hrows) (Prod.ext hhost hdevice)
    exact (Prod.mk.inj hb).2
  · intro h a b c hsub hkey
    obtain ⟨hhost, hdevice⟩ := Prod.mk.inj hkey
    have hb : b.nodeHostname = a.nodeHostname := hhosts a b c hsub hhost
    have ha : a.nodeHostname ∈ (runs DeviceRow.nodeHostname rows).map Prod.fst :=
      mem_keys_runs.mpr ⟨a, hsub.subset List.mem_cons_self, rfl⟩
    obtain ⟨⟨hostname, hrun⟩, hmem, hname⟩ := List.mem_map.mp ha
    have hsub' : List.Sublist [a, b, c] hrun := by
      have hfilter := hsub.filter fun r => decide (r.nodeHostname = hostname)
      rw [← run_eq_filter hhosts hmem] at hfilter
      have ha : a.nodeHostname = hostname := hname.symm
      have hc : c.nodeHostname = hostname := hhost.symm.trans ha
      simpa [ha, hb, hc] using hfilter
    exact Prod.ext hb (h _ hmem a b c hsub' hdevice)

theorem map_hostname_nodesOf (rs : List (Text × List (DeviceRow M))) :
    (nodesOf f rs).map NodeGroup.hostname = rs.map Prod.fst := by
  simp [nodesOf]

theorem map_device_devicesOf (ds : List (Text × List (DeviceRow M))) :
    (devicesOf f ds).map DeviceGroup.device = ds.map Prod.fst := by
  simp [devicesOf]

/-- If hosts stand together, the run of a host has all of its rows. -/
theorem mem_rows_of_run (hhosts : Together DeviceRow.nodeHostname rows)
    {q : Text × List (DeviceRow M)} (hmem : q ∈ runs DeviceRow.nodeHostname rows) :
    r ∈ q.2 ↔ r ∈ rows ∧ r.nodeHostname = q.1 := by
  rw [run_eq_filter hhosts hmem, List.mem_filter, decide_eq_true_eq]

/-- The grouping is right exactly if also the devices of each host stand together, and every sample
is its row's. -/
theorem groupedBy_nodesOf {own : DeviceRow M → S → Prop}
    (hhosts : Together DeviceRow.nodeHostname rows) :
    GroupedBy own rows (nodesOf f (runs DeviceRow.nodeHostname rows)) ↔
      Together DeviceRow.key rows ∧ ∀ r ∈ rows, own r (f r) := by
  rw [together_key hhosts]
  constructor
  · intro h
    have hdevices : ∀ q ∈ runs DeviceRow.nodeHostname rows, Together DeviceRow.device q.2 := by
      intro q hq
      have hnodup := h.devices _ (List.mem_map_of_mem hq)
      rw [map_device_devicesOf] at hnodup
      exact nodup_keys_runs.mp hnodup
    refine ⟨hdevices, fun r hr => ?_⟩
    rw [← flatten_runs DeviceRow.nodeHostname rows] at hr
    obtain ⟨⟨hostname, hrun⟩, hq, hr⟩ := List.mem_flatMap.mp hr
    have hr' := hr
    rw [← flatten_runs DeviceRow.device hrun] at hr'
    obtain ⟨⟨device, drun⟩, hd, hr'⟩ := List.mem_flatMap.mp hr'
    have hsamples := h.samples _ ⟨device, drun.map f⟩ (List.mem_map_of_mem hq)
      (List.mem_map.mpr ⟨_, hd, rfl⟩)
    rw [← run_eq_rows hhosts hq (hdevices _ hq) hd, List.forall₂_map_right_iff,
      List.forall₂_same] at hsamples
    exact hsamples r hr'
  · rintro ⟨hdevices, hown⟩
    exact {
      hosts := by
        rw [map_hostname_nodesOf]
        exact nodup_keys_runs.mpr hhosts
      mem_hosts := fun h => by
        rw [map_hostname_nodesOf]
        exact mem_keys_runs
      devices := fun g hg => by
        obtain ⟨q, hq, rfl⟩ := List.mem_map.mp hg
        rw [map_device_devicesOf]
        exact nodup_keys_runs.mpr (hdevices q hq)
      mem_devices := fun g d hg => by
        obtain ⟨q, hq, rfl⟩ := List.mem_map.mp hg
        rw [map_device_devicesOf, mem_keys_runs]
        simp only [mem_rows_of_run hhosts hq, and_assoc]
      samples := fun g d hg hd => by
        obtain ⟨q, hq, rfl⟩ := List.mem_map.mp hg
        obtain ⟨p, hp, rfl⟩ := List.mem_map.mp hd
        rw [← run_eq_rows hhosts hq (hdevices q hq) hp, List.forall₂_map_right_iff,
          List.forall₂_same]
        intro r hr
        rw [run_eq_rows hhosts hq (hdevices q hq) hp] at hr
        exact hown r (List.mem_filter.mp hr).1 }

theorem getElem?_append_cons {α : Type} {before after : List α} {a : α} {n : ℕ}
    (hn : n = before.length) : (before ++ a :: after)[n]? = some a := by
  subst hn
  simp

/-- After a row of another host, the rows have no more of the host. -/
theorem filter_after_host {rest : List (DeviceRow M)}
    (hhosts : Together DeviceRow.nodeHostname (rows ++ p :: r :: rest))
    (hhost : p.nodeHostname ≠ r.nodeHostname) (device : Text) :
    (r :: rest).filter (fun q => q.nodeHostname = p.nodeHostname ∧ q.device = device) = [] := by
  refine List.filter_eq_nil_iff.mpr fun q hq hboth => hhost ?_
  have hqp : q.nodeHostname = p.nodeHostname := (of_decide_eq_true hboth).1
  obtain rfl | hq := List.mem_cons.mp hq
  · exact hqp.symm
  · have hsub : List.Sublist [p, r, q] (rows ++ p :: r :: rest) := by
      refine List.Sublist.trans ?_ (List.sublist_append_right _ _)
      exact ((List.singleton_sublist.mpr hq).cons_cons r).cons_cons p
    exact (hhosts p r q hsub hqp.symm).symm

/-- The group of the last row would have one sample more than there are rows of its device. -/
theorem Settled.not_grouped {own : DeviceRow M → S → Prop} {rest : List (DeviceRow M)}
    {nodes after : List (NodeGroup S)} {ip : Text} {sample : S}
    (h : Settled f rows p g rs run ds drun) (hhost : p.nodeHostname ≠ r.nodeHostname)
    (hgrows : Grows (nodesOf f rs ++ ⟨p.nodeHostname, ip,
      devicesOf f ds ++ [⟨p.device, (drun ++ [p]).map f ++ [sample]⟩]⟩ :: after) nodes)
    (hhosts : Together DeviceRow.nodeHostname (rows ++ p :: r :: rest)) :
    ¬ GroupedBy own (rows ++ p :: r :: rest) nodes := by
  intro hgrouped
  obtain ⟨node, hnode, hname, hgroups⟩ := hgrows rs.length _ (getElem?_append_cons (by simp))
  obtain ⟨group, hgroup, hdevice, hsamples⟩ := hgroups ds.length _ (getElem?_append_cons (by simp))
  have hmem : node ∈ nodes := List.mem_of_getElem? hnode
  let devices := devicesOf f ds ++ [⟨p.device, (drun ++ [p]).map f ++ [sample]⟩]
  have hnames : (runs DeviceRow.device (run ++ [p])).map Prod.fst <+:
      node.devices.map DeviceGroup.device := by
    have hsame : (runs DeviceRow.device (run ++ [p])).map Prod.fst =
        devices.map DeviceGroup.device := by
      rw [h.devices, List.map_append, List.map_append, map_device_devicesOf]
      rfl
    rw [hsame, List.prefix_iff_getElem?]
    intro i hi
    rw [List.length_map] at hi
    obtain ⟨group', hgroup', hdevice', -⟩ := hgroups i devices[i] (List.getElem?_eq_getElem hi)
    rw [List.getElem?_map, hgroup', List.getElem_map, Option.map_some, hdevice']
  have hdevices : Together DeviceRow.device (run ++ [p]) :=
    nodup_keys_runs.mp ((hgrouped.devices node hmem).sublist hnames.sublist)
  have hsub : List.Sublist (rows ++ [p]) (rows ++ p :: r :: rest) :=
    (List.Sublist.refl rows).append ((List.nil_sublist _).cons_cons p)
  have hhost' : (p.nodeHostname, run ++ [p]) ∈ runs DeviceRow.nodeHostname (rows ++ [p]) := by
    rw [h.hosts]
    exact List.mem_append_right _ List.mem_cons_self
  have hdevice' : (p.device, drun ++ [p]) ∈ runs DeviceRow.device (run ++ [p]) := by
    rw [h.devices]
    exact List.mem_append_right _ List.mem_cons_self
  have hrows := congrArg List.length
    (run_eq_rows (hhosts.of_sublist hsub) hhost' hdevices hdevice')
  have hlength := (hgrouped.samples node group hmem (List.mem_of_getElem? hgroup)).length_eq
  have hsplit : rows ++ p :: r :: rest = rows ++ [p] ++ r :: rest := by simp
  rw [hname, hdevice, hsplit, List.filter_append, List.length_append] at hlength
  have hafter := congrArg List.length (filter_after_host hhosts hhost p.device)
  have hle := hsamples.length_le
  rw [List.length_append, List.length_map, List.length_singleton] at hle
  rw [List.length_nil] at hafter
  dsimp only at hlength
  omega

/-- Groups that are right come of rows whose device changes with the host. -/
theorem Settled.isChain {build : DeviceRow M → Except ReplierError S}
    {own : DeviceRow M → S → Prop} {rest : List (DeviceRow M)} {nodes : List (NodeGroup S)}
    (h : Settled f rows p g rs run ds drun) (hbuild : ∀ r ∈ rest, build r = .ok (f r))
    (hrun : g.run build rest = some (.ok nodes))
    (hhosts : Together DeviceRow.nodeHostname (rows ++ p :: rest))
    (hgrouped : GroupedBy own (rows ++ p :: rest) nodes) : (p :: rest).IsChain Changes := by
  induction rest generalizing rows p g rs run ds drun with
  | nil => exact .singleton _
  | cons r rest ih =>
    have hbuild' : ∀ q ∈ rest, build q = .ok (f q) := fun q hq =>
      hbuild q (List.mem_cons_of_mem _ hq)
    rw [Grouping.run_cons (hbuild r List.mem_cons_self)] at hrun
    obtain ⟨g₁, hadd, hrest⟩ := Option.bind_eq_some_iff.mp hrun
    have hchange : Changes p r := by
      intro hhost hdevice
      obtain ⟨g', hadd', hnodes⟩ := h.addRow_stuck hhost hdevice (f r)
      obtain rfl : g' = g₁ := Option.some.inj (hadd'.symm.trans hadd)
      have hgrows := grows_run hbuild' hrest
      rw [hnodes] at hgrows
      exact h.not_grouped hhost hgrows hhosts hgrouped
    obtain ⟨g', rs', run', ds', drun', hadd', hsettled⟩ := h.addRow hchange
    obtain rfl : g' = g₁ := Option.some.inj (hadd'.symm.trans hadd)
    have hassoc : rows ++ [p] ++ r :: rest = rows ++ p :: r :: rest := by simp
    exact List.isChain_cons_cons.mpr ⟨hchange, ih hsettled hbuild' hrest (hassoc ▸ hhosts)
      (hassoc ▸ hgrouped)⟩

end Steps

/-- A response has a sample of each row. -/
theorem build_of_run {build : DeviceRow M → Except ReplierError S} {g : Grouping S}
    {rows : List (DeviceRow M)} {nodes : List (NodeGroup S)}
    (h : g.run build rows = some (.ok nodes)) : ∀ r ∈ rows, ∃ s, build r = .ok s := by
  induction rows generalizing g with
  | nil => exact fun r hr => absurd hr List.not_mem_nil
  | cons row rows ih =>
    rw [Grouping.run] at h
    split at h
    · cases h
    · rename_i g' hdevice
      split at h
      · cases h
      · cases h
      · rename_i sample _ hbuild
        obtain ⟨g'', -, hrest⟩ := Option.bind_eq_some_iff.mp h
        exact List.forall_mem_cons.mpr ⟨⟨sample, hbuild⟩, ih hrest⟩

/-- **The groups of rows that are sorted by host are right exactly if the rows are separate and
each sample has its values.** -/
theorem groupRows_correct_iff {build : DeviceRow M → Except ReplierError S}
    {own : DeviceRow M → S → Prop} {rows : List (DeviceRow M)}
    (hhosts : Together DeviceRow.nodeHostname rows) :
    (∃ nodes, groupRows build rows = some (.ok nodes) ∧ GroupedBy own rows nodes) ↔
      Separate rows ∧ ∀ r ∈ rows, ∃ s, build r = .ok s ∧ own r s := by
  cases rows with
  | nil =>
    refine ⟨fun _ => ⟨⟨nofun, .nil, ?_⟩, nofun⟩, fun _ => ⟨[], rfl, ?_⟩⟩
    · intro a b c hsub
      cases hsub
    · constructor <;> simp
  | cons r rest =>
    constructor
    · rintro ⟨nodes, hrun, hgrouped⟩
      have hbuild := build_of_run hrun
      obtain ⟨s, -⟩ := hbuild r List.mem_cons_self
      have : Nonempty S := ⟨s⟩
      choose! f hf using hbuild
      have hf' : ∀ q ∈ rest, build q = .ok (f q) := fun q hq => hf q (List.mem_cons_of_mem _ hq)
      have hrun' := hrun
      rw [groupRows, Grouping.run_cons (hf r List.mem_cons_self)] at hrun'
      obtain ⟨g, hadd, hrest⟩ := Option.bind_eq_some_iff.mp hrun'
      have hnamed : r.nodeHostname ≠ [] ∧ r.device ≠ [] := by
        by_contra hempty
        have hor := Decidable.not_and_iff_not_or_not.mp hempty
        simp only [ne_eq, not_not] at hor
        cases (addRow_start_eq_none hor (f r)).symm.trans hadd
      obtain ⟨g', hadd', hsettled⟩ := addRow_start (f := f) hnamed.1 hnamed.2
      obtain rfl : g' = g := Option.some.inj (hadd'.symm.trans hadd)
      have hchain := hsettled.isChain hf' hrest hhosts hgrouped
      have heq := hsettled.run_eq hf' hchain
      rw [hrest] at heq
      cases heq
      obtain ⟨htogether, hown⟩ := (groupedBy_nodesOf hhosts).mp hgrouped
      refine ⟨⟨fun q hq => ?_, hchain, htogether⟩, fun q hq => ⟨f q, hf q hq, hown q hq⟩⟩
      cases hq
      exact hnamed
    · rintro ⟨hseparate, hown⟩
      obtain ⟨s, -⟩ := hown r List.mem_cons_self
      have : Nonempty S := ⟨s⟩
      choose! f hf using hown
      obtain ⟨hhost, hdevice⟩ := hseparate.named r rfl
      obtain ⟨g, hadd, hsettled⟩ := addRow_start (f := f) hhost hdevice
      have hrun := hsettled.run_eq (fun q hq => (hf q (List.mem_cons_of_mem _ hq)).1)
        hseparate.changes
      refine ⟨_, ?_, (groupedBy_nodesOf hhosts).mpr
        ⟨hseparate.together, fun q hq => (hf q hq).2⟩⟩
      rw [groupRows, Grouping.run_cons (hf r List.mem_cons_self).1, hadd, Option.bind_some, hrun]
      rfl

end Sem.AggregationServer

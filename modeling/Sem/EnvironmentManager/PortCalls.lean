import Sem.EnvironmentManager.PortSafety
import Sem.EnvironmentManager.PlanSteps

/-!
# Ports while an experiment is populated

The free ports of a node and those that the experiments hold are together no more than the ports
that the node came with, and likewise for the manager ports.

* `Safe`: this, while some ports are in hand.
* `Safe.modify`: ports go from the hand into an experiment.
* `addNodeToExperiment_safe`, `deployContainer_safe`, `addComponentToImplicitContainer_safe`,
  `addLoggingClientToNodes_safe`: the calls that put objects in their places.
-/

namespace Sem.EnvironmentManager

open Xml (Text)
open Throwing (Balanced Ends Keeps Preserves read update undefined)

/-! ## Holders -/

/-- The network ports that the registered experiments hold. -/
def Environment.owners (env : Environment) : List (Text × ℕ) :=
  env.experimentMap.values.flatMap Experiment.held

/-- The manager ports of the registered experiments. -/
def Environment.managers (env : Environment) : List ℕ :=
  env.experimentMap.values.flatMap fun e => e.managerPort.toList

/-- Nodes are kept under their addresses. -/
def Experiment.Keyed (e : Experiment) : Prop := e.nodes.Entries fun ip n => n.ip = ip

theorem Experiment.held_core (e : Experiment) : e.core.held = e.held := e.held_unmark

theorem Experiment.keyed_core (e : Experiment) : e.core.Keyed ↔ e.Keyed := by
  constructor
  · intro h ip n hn
    exact h ip n.unmark (by simp [core, unmark, Table.lookup_mapValues, hn])
  · intro h ip n hn
    simp only [core, unmark, Table.lookup_mapValues, Option.map_eq_some_iff] at hn
    obtain ⟨n, hn, rfl⟩ := hn
    exact h ip n hn

/-- What is held can be read off the cores. -/
theorem owners_cores (env : Environment) :
    (cores env).values.flatMap Experiment.held = env.owners := by
  simp only [cores, Environment.owners, Table.values_mapValues, List.flatMap_map,
    Experiment.held_core]

theorem managers_cores (env : Environment) :
    (cores env).values.flatMap (fun e => e.managerPort.toList) = env.managers := by
  simp only [cores, Environment.managers, Table.values_mapValues, List.flatMap_map]
  rfl

theorem keyed_cores (env : Environment) : (cores env).Entries (fun _ e => e.Keyed) ↔
    env.experimentMap.Entries fun _ e => e.Keyed := by
  constructor
  · intro h m e he
    have hcore := h m e.core (by rw [lookup_cores, he, Option.map_some])
    exact e.keyed_core.mp hcore
  · intro h m e he
    rw [lookup_cores, Option.map_eq_some_iff] at he
    obtain ⟨e, he, rfl⟩ := he
    exact e.keyed_core.mpr (h m e he)

/-- What all but the free ports is read off from. -/
def frameOf (env : Environment) : Table Text Experiment × List Text × List ℕ × List ℕ :=
  (cores env, env.nodeMap.keys, env.availableNodeManagerPorts, env.availablePorts)

/-- Programs that change labels, ids, marks and ports leave the frame. -/
theorem stable_frameOf (name : Text) (v : Table Text Experiment × List Text × List ℕ × List ℕ) :
    Stable name fun env => frameOf env = v where
  labels _ _ := id
  ids env r internalId f hI := by
    rw [← hI, frameOf, cores_adjust env name fun e => core_adjustIds e r internalId f]
    rfl
  mark env m e path _ _ _ hI := by
    rw [← hI]
    show (cores { env with experimentMap := env.experimentMap.adjust m (·.setDirty path) }, _) = _
    rw [cores_adjust env m fun e => core_setDirty e path]
    rfl
  nodeMap env ip f hI := by
    rw [← hI]
    show (_, (env.nodeMap.adjust ip f).keys, _, _) = _
    rw [Table.keys_adjust]
    rfl

/-! ## The invariant -/

variable {ports managerPorts : List ℕ}

/-- No port is there more often than it was at the start: free, held by an experiment, or in
hand. -/
structure Safe (ports managerPorts : List ℕ) (hand : Text × ℕ → ℕ) (env : Environment) : Prop where
  available : env.availablePorts = ports
  once : ∀ ip p, freePorts env (ip, p) + amount env.owners (ip, p) + hand (ip, p) ≤ ports.count p
  placed : ∀ ip, ip ∉ env.nodeMap → ∀ p, amount env.owners (ip, p) + hand (ip, p) = 0
  managers : ∀ p, env.availableNodeManagerPorts.count p + env.managers.count p ≤
    managerPorts.count p
  keyed : env.experimentMap.Entries fun _ e => e.Keyed

theorem freePorts_of_notMem {env : Environment} {ip : Text} (h : ip ∉ env.nodeMap) (p : ℕ) :
    freePorts env (ip, p) = 0 := by
  rw [freePorts, Environment.free, AList.lookup_eq_none.mpr h]
  rfl

namespace Safe

variable {hand hand' : Text × ℕ → ℕ} {env env' : Environment}

/-- Within a frame the account of ports decides. -/
theorem of_frame (h : Safe ports managerPorts hand env) (hframe : frameOf env' = frameOf env)
    (hbalance : freePorts env' + hand' ≤ freePorts env + hand) :
    Safe ports managerPorts hand' env' := by
  simp only [frameOf, Prod.mk.injEq] at hframe
  obtain ⟨hcores, hkeys, havailable, hports⟩ := hframe
  have howners : env'.owners = env.owners := by
    rw [← owners_cores, hcores, owners_cores]
  have hmem : ∀ ip, ip ∈ env'.nodeMap ↔ ip ∈ env.nodeMap := fun ip => by
    rw [AList.mem_keys, hkeys, AList.mem_keys]
  refine ⟨hports.trans h.available, fun ip p => ?_, fun ip hip p => ?_, fun p => ?_, ?_⟩
  · have hk := hbalance (ip, p)
    have hold := h.once ip p
    simp only [Pi.add_apply, howners] at hk ⊢
    omega
  · have hold : ip ∉ env.nodeMap := fun hm => hip ((hmem ip).mpr hm)
    have hzero := h.placed ip hold p
    have hk := hbalance (ip, p)
    simp only [Pi.add_apply, freePorts_of_notMem hold, freePorts_of_notMem hip, howners] at hk ⊢
    omega
  · rw [← managers_cores, hcores, managers_cores, havailable]
    exact h.managers p
  · rw [← keyed_cores, hcores, keyed_cores]
    exact h.keyed

theorem mono (h : Safe ports managerPorts hand env) (hle : hand' ≤ hand) :
    Safe ports managerPorts hand' env :=
  h.of_frame rfl (add_le_add_right hle _)

/-- Ports go into the experiment, or get lost. -/
theorem modify (h : Safe ports managerPorts hand env) {name : Text} {f : Experiment → Experiment}
    (hle : hand' ≤ hand) (hf : ∀ e, env.experimentMap.lookup name = some e → e.Keyed →
      amount (f e).held + hand' ≤ amount e.held + hand ∧ (f e).managerPort = e.managerPort ∧
        (f e).Keyed) :
    Safe ports managerPorts hand'
      { env with experimentMap := env.experimentMap.adjust name f } := by
  cases he : env.experimentMap.lookup name with
  | none =>
    rw [Table.adjust_of_notMem (AList.lookup_eq_none.mp he)]
    exact h.mono hle
  | some e =>
    obtain ⟨hheld, hmanager, hkeyed⟩ := hf e he (h.keyed name e he)
    obtain ⟨rest, hbefore, hafter⟩ := Table.flatMap_adjust he Experiment.held
    obtain ⟨others, hmbefore, hmafter⟩ :=
      Table.flatMap_adjust he fun e : Experiment => e.managerPort.toList
    refine ⟨h.available, fun ip p => ?_, fun ip hip p => ?_, fun p => ?_, fun m e' he' => ?_⟩
    · have hold := h.once ip p
      have hk := hheld (ip, p)
      simp only [Pi.add_apply, amount, Environment.owners, hbefore.count_eq, (hafter f).count_eq,
        List.count_append] at hold hk ⊢
      exact le_trans (by simp only [freePorts, Environment.free]; omega) hold
    · have hold := h.placed ip hip p
      have hk := hheld (ip, p)
      simp only [Pi.add_apply, amount, Environment.owners, hbefore.count_eq, (hafter f).count_eq,
        List.count_append] at hold hk ⊢
      omega
    · have hold := h.managers p
      simp only [Environment.managers, hmbefore.count_eq, (hmafter f).count_eq, hmanager] at hold ⊢
      exact hold
    · rw [Table.lookup_adjust] at he'
      split at he'
      · next heq =>
        rw [heq, he] at he'
        cases he'
        exact hkeyed
      · exact h.keyed m e' he'

end Safe

/-! ## Changes in their place -/

section Amounts

variable {x y : Text × ℕ → ℕ}

/-- A change of one value changes the account by as much as its own. -/
theorem amount_adjust_le {V : Type} {t : Table Text V} {k : Text} {f : V → V}
    {g : V → List (Text × ℕ)} (hle : x ≤ y)
    (h : ∀ v, t.lookup k = some v → amount (g (f v)) + x ≤ amount (g v) + y) :
    amount ((t.adjust k f).values.flatMap g) + x ≤ amount (t.values.flatMap g) + y := by
  cases hk : t.lookup k with
  | none =>
    rw [Table.adjust_of_notMem (AList.lookup_eq_none.mp hk)]
    exact add_le_add_right hle _
  | some v =>
    obtain ⟨rest, hbefore, hafter⟩ := Table.flatMap_adjust hk g
    intro key
    have hkey := h v hk key
    simp only [Pi.add_apply, amount, hbefore.count_eq, (hafter f).count_eq, List.count_append]
      at hkey ⊢
    omega

/-- A new value adds what it has, or less if it replaces another one. -/
theorem count_insert_le {V β : Type} [BEq β] (t : Table Text V) (k : Text) (v : V)
    (g : V → List β) (b : β) :
    ((Table.values (t.insert k v)).flatMap g).count b ≤
      (t.values.flatMap g).count b + (g v).count b := by
  have hperm := (t.values_perm_erase k).flatMap_right g
  rw [Table.values_insert_erase, List.flatMap_cons, hperm.count_eq, List.flatMap_append,
    List.count_append, List.count_append]
  omega

/-- The same for an entry that comes to stand anywhere. -/
theorem amount_place_le [HashOrder] {V : Type} (t : Table Text V) (k : Text) (v : V)
    (g : V → List (Text × ℕ)) :
    amount ((t.place k v).values.flatMap g) ≤ amount (t.values.flatMap g) + amount (g v) := by
  rw [amount_of_perm ((t.values_place_perm_insert k v).flatMap_right g)]
  exact fun key => count_insert_le t k v g key

theorem amount_adjustNode_le {e : Experiment} {ip : Text} {f : Node → Node} (hle : x ≤ y)
    (h : ∀ n, e.nodes.lookup ip = some n → amount (f n).held + x ≤ amount n.held + y) :
    amount (e.adjustNode ip f).held + x ≤ amount e.held + y := by
  have hnodes := amount_adjust_le (g := Node.held) hle h
  intro key
  have hkey := hnodes key
  simp only [Pi.add_apply, Experiment.held, Experiment.adjustNode, amount_append] at hkey ⊢
  show _ + amount e.masterPorts key + x key ≤ _
  omega

/-- A container of a node holds ports of that node. -/
theorem amount_adjustContainer_le {e : Experiment} {ip id : Text} {f : Container → Container}
    (hkeyed : e.Keyed) (hle : x ≤ y)
    (h : ∀ n c, e.nodes.lookup ip = some n → n.containers.lookup id = some c →
      amount ((f c).held ip) + x ≤ amount (c.held ip) + y) :
    amount (e.adjustContainer ip id f).held + x ≤ amount e.held + y := by
  refine amount_adjustNode_le hle fun n hn => ?_
  have hip : n.ip = ip := hkeyed ip n hn
  refine amount_adjust_le (g := Container.held n.ip) hle fun c hc => ?_
  rw [hip]
  exact h n c hn hc

end Amounts

theorem Experiment.Keyed.adjustNode {e : Experiment} (h : e.Keyed) (ip : Text) {f : Node → Node}
    (hf : ∀ n, (f n).ip = n.ip) : (e.adjustNode ip f).Keyed := by
  intro ip' n hn
  simp only [Experiment.adjustNode, Table.lookup_adjust] at hn
  split at hn
  · obtain ⟨m, hm, rfl⟩ := Option.map_eq_some_iff.mp hn
    exact (hf m).trans (h _ m hm)
  · exact h ip' n hn

/-! ## The parts of the calls -/

section Calls

variable {name : Text}

/-- The constructors and destructors, with what else is known of the experiments. -/
theorem safe_frame_of_balanced {α : Type} {before thrown : Text × ℕ → ℕ} {p : Program α}
    {after : α → Text × ℕ → ℕ} (h : Balanced freePorts before p after thrown)
    (hstable : ∀ I, Stable name I → Preserves I p)
    (v : Table Text Experiment × List Text × List ℕ × List ℕ) :
    Ends (fun t => frameOf t = v ∧ Safe ports managerPorts before t) p
      (fun a t => frameOf t = v ∧ Safe ports managerPorts (after a) t)
      fun t => frameOf t = v ∧ Safe ports managerPorts thrown t := by
  rintro s r s' ⟨rfl, hsafe⟩ hrun
  have hframe := (hstable _ (stable_frameOf name (frameOf s))).run rfl hrun
  cases r with
  | ok a => exact ⟨hframe, hsafe.of_frame hframe (h.run_ok hrun)⟩
  | error e => exact ⟨hframe, hsafe.of_frame hframe (h.run_error hrun)⟩

/-- A balanced program that is stable keeps the account with what it has in hand. -/
theorem safe_of_balanced {α : Type} {before thrown : Text × ℕ → ℕ} {p : Program α}
    {after : α → Text × ℕ → ℕ} (h : Balanced freePorts before p after thrown)
    (hstable : ∀ I, Stable name I → Preserves I p) :
    Ends (Safe ports managerPorts before) p (fun a => Safe ports managerPorts (after a))
      (Safe ports managerPorts thrown) := fun s _ _ hsafe hrun =>
  (safe_frame_of_balanced h hstable (frameOf s)).conseq (fun _ => id) (fun _ _ h => h.2)
    (fun _ h => h.2) ⟨rfl, hsafe⟩ hrun

/-- An object whose key is taken is destroyed. -/
theorem destroyTaken_safe {held : Text × ℕ → ℕ} {destroy : Table Text ExternalPort → Program Unit}
    (hbalanced : ∀ T, Balanced freePorts held (destroy T) (fun _ => 0) 0)
    (hstable : ∀ T I, Stable name I → Preserves I (destroy T)) :
    Ends (Safe ports managerPorts held) (liveExternalPorts name >>= destroy)
      (fun _ => Safe ports managerPorts 0) (Safe ports managerPorts 0) :=
  safe_of_balanced ((liveExternalPorts_balanced name held 0).bind hbalanced) fun I h =>
    (LabelStable.liveExternalPorts name).bind fun T => hstable T I h

/-- A change that every experiment hides. -/
theorem modifyExperiment_safe {hand : Text × ℕ → ℕ} {f : Experiment → Experiment}
    (hf : ∀ e, e.Keyed → amount (f e).held ≤ amount e.held ∧ (f e).managerPort = e.managerPort ∧
      (f e).Keyed) : Preserves (Safe ports managerPorts hand) (modifyExperiment name f) :=
  .update fun _ h => h.modify le_rfl fun e _ hkeyed =>
    ⟨add_le_add_left (hf e hkeyed).1 hand, (hf e hkeyed).2⟩

theorem Experiment.Keyed.lookup {e : Experiment} (h : e.Keyed) {n : Node}
    (hn : n ∈ e.nodes.values) : e.nodes.lookup n.ip = some n := by
  obtain ⟨ip, hip⟩ := Table.mem_values.mp hn
  rw [h ip n hip]
  exact hip

/-- The experiment of a call, while nothing but marks and external ports changes. -/
theorem exists_of_frame {env env' : Environment} (hframe : frameOf env' = frameOf env)
    {e : Experiment} (he : env.experimentMap.lookup name = some e) :
    ∃ e', env'.experimentMap.lookup name = some e' ∧ e'.core = e.core := by
  have hcores : cores env' = cores env := congrArg Prod.fst hframe
  have hlookup := lookup_cores env' name
  rw [hcores, lookup_cores, he, Option.map_some] at hlookup
  obtain ⟨e', he', hcore⟩ := Option.map_eq_some_iff.mp hlookup.symm
  exact ⟨e', he', hcore⟩

/-- A container in its place, while nothing but marks and external ports changes. -/
theorem container_of_core {e e' : Experiment} (hcore : e'.core = e.core) {ip id : Text}
    {n n' : Node} {c c' : Container} (hn : e.nodes.lookup ip = some n)
    (hc : n.containers.lookup id = some c)
    (hn' : e'.nodes.lookup ip = some n') (hc' : n'.containers.lookup id = some c') :
    c'.unmark = c.unmark := by
  obtain ⟨m, hm, hnode⟩ := Experiment.lookup_of_core hcore hn
  obtain rfl := Option.some.inj (hn'.symm.trans hm)
  obtain ⟨k, hk, hcontainer⟩ := Node.lookup_of_unmark hnode hc
  obtain rfl := Option.some.inj (hc'.symm.trans hk)
  exact hcontainer

theorem addNodeToEnvironment_safe (ip : Text) :
    Preserves (Safe ports managerPorts 0) (addNodeToEnvironment ip) := by
  refine .update fun env h => ?_
  split
  · exact h
  · next hip =>
    refine ⟨h.available, fun ip' p => ?_, fun ip' hip' p => h.placed ip' (fun hmem => hip' ?_) p,
      h.managers, h.keyed⟩
    · have hold := h.once ip' p
      by_cases heq : ip' = ip
      · subst heq
        have hzero := h.placed ip' hip p
        have hfree : freePorts { env with
            nodeMap := env.nodeMap.insert ip' ⟨env.availablePorts⟩ } (ip', p) = ports.count p := by
          simp only [freePorts, Environment.free, Table.lookup_insert, if_true, Option.map_some,
            Option.getD_some, h.available]
        rw [hfree]
        show ports.count p + amount env.owners (ip', p) + 0 ≤ _
        simp only [Pi.zero_apply] at hzero
        omega
      · refine le_trans (le_of_eq ?_) hold
        simp only [freePorts, Environment.free, Table.lookup_insert, if_neg heq]
        rfl
    · exact (AList.mem_insert env.nodeMap).mpr (.inr hmem)

variable [HashOrder]

/-- External ports have no sockets of the environment. -/
theorem addExternalPorts_safe (externalPorts : List NodeManager.ExternalPort) :
    Preserves (Safe ports managerPorts 0) (addExternalPorts name externalPorts) := by
  refine .forM fun port => .ite (.pure _) (getExperimentInternal_preserves fun e => ?_)
  exact .ite (.throw _) (modifyExperiment_safe fun e hkeyed => ⟨le_rfl, rfl, hkeyed⟩)

/-- A node that comes to the environment brings its ports. -/
theorem addNodeToExperiment_safe (msg : NodeManager.Node) :
    Preserves (Safe ports managerPorts 0) (addNodeToExperiment name msg) := by
  refine (addNodeToEnvironment_safe _).bind fun _ => getExperimentInternal_preserves fun e =>
    .ite (.throw _) ?_
  have hbuild : Ends (Safe ports managerPorts 0) (constructNode name msg)
      (fun n env => n.ip = msg.ipAddress ∧ Safe ports managerPorts (amount n.held) env)
      (Safe ports managerPorts 0) :=
    ((safe_of_balanced (constructNode_balanced name msg) fun _ h => h.constructNode msg).returning
      ((constructNode_returns msg).conseq (fun _ _ => trivial) fun _ _ h => h)).post
        fun n env h => ⟨h.1.ip, h.2⟩
  refine Ends.bind hbuild fun n => .assuming fun hip => .update fun env h =>
    h.modify (fun _ => Nat.zero_le _) fun e _ hkeyed => ⟨?_, rfl, hkeyed.place hip⟩
  have hnodes := amount_place_le e.nodes msg.ipAddress n Node.held
  intro key
  have hkey := hnodes key
  simp only [Pi.add_apply, Pi.zero_apply, Experiment.held, amount_append] at hkey ⊢
  show _ + amount e.masterPorts key + 0 ≤ _
  omega

/-! ## Deployments -/

/-- The container is built on the node with the fewest components. -/
theorem deployContainer_safe (msg : NodeManager.Container) :
    Preserves (Safe ports managerPorts 0) (deployContainer name msg) := by
  refine getExperimentInternal_preserves fun e => ?_
  cases e.getLeastDeployedToNode false with
  | none => exact .undefined
  | some n =>
    have hnote : ∀ m : Node, (m.noteImplicit msg).ip = m.ip ∧
        (m.noteImplicit msg).held = m.held := by
      intro m
      unfold Node.noteImplicit
      split <;> exact ⟨rfl, rfl⟩
    refine Preserves.bind (modifyExperiment_safe fun e hkeyed => ⟨?_, rfl,
      hkeyed.adjustNode n.ip fun m => (hnote m).1⟩) fun _ => ?_
    · have hheld : amount (e.adjustNode n.ip (·.noteImplicit msg)).held + 0 ≤ amount e.held + 0 :=
        amount_adjustNode_le le_rfl fun m _ => by rw [(hnote m).2]
      rwa [add_zero, add_zero] at hheld
    refine Ends.bind (safe_of_balanced (constructContainer_balanced name n.ip msg)
      fun _ h => h.constructContainer n.ip msg) fun c => .ite (fun _ => ?_) fun _ => ?_
    · exact destroyTaken_safe (fun T => destroyContainer_balanced T name n.ip c)
        fun T I h => h.destroyContainer n.ip c
    · refine .update fun env h => h.modify (fun _ => Nat.zero_le _) fun e _ hkeyed =>
        ⟨amount_adjustNode_le (fun _ => Nat.zero_le _) fun m hm => ?_, rfl,
          hkeyed.adjustNode n.ip fun _ => rfl⟩
      have hinsert := amount_place_le m.containers msg.id c (Container.held m.ip)
      rw [add_zero, ← hkeyed n.ip m hm]
      exact hinsert

theorem addComponentToImplicitContainer_safe (msg : NodeManager.Component) :
    Preserves (Safe ports managerPorts 0) (addComponentToImplicitContainer name msg) := by
  refine getExperimentInternal_ends (fun env e hsafe he => ?_) fun _ h _ => h
  cases hleast : e.getLeastDeployedToNode false with
  | none => exact .undefined
  | some n =>
    dsimp only
    have hn := (hsafe.keyed name e he).lookup (getLeastDeployedToNode_mem hleast)
    cases hc : n.containers.lookup n.implicitContainerId with
    | none => exact .throw fun _ heq => heq ▸ hsafe
    | some c =>
      have hbuild : Ends (fun t => t = env) (constructComponent name n.ip c.orbPort msg)
          (fun built t => (c.orbPort ≠ none → built.2 = c.orbPort) ∧ frameOf t = frameOf env ∧
            Safe ports managerPorts
              (amount (gained n.ip c.orbPort built.2) + amount built.1.held) t)
          (Safe ports managerPorts 0) := by
        rintro t r t' rfl hrun
        have hend := safe_frame_of_balanced (constructComponent_gained name n.ip c.orbPort msg)
          (fun _ h => h.constructComponent n.ip c.orbPort msg) (frameOf t) ⟨rfl, hsafe⟩ hrun
        have horb := constructComponent_orbPort name n.ip c.orbPort msg trivial hrun
        cases r with
        | ok built => exact ⟨horb, hend⟩
        | error ex => exact hend.2
      refine hbuild.bind fun built => .assuming fun horb => ?_
      -- the ORB port goes into the container first, then the component
      have hplace : Ends
          (fun t => frameOf t = frameOf env ∧ Safe ports managerPorts
            (amount (gained n.ip c.orbPort built.2) + amount built.1.held) t)
          (modifyExperiment name (·.adjustContainer n.ip n.implicitContainerId fun c =>
            { c with orbPort := built.2 }))
          (fun _ => Safe ports managerPorts (amount built.1.held)) (Safe ports managerPorts 0) := by
        refine .update fun t ⟨hframe, h⟩ => h.modify (fun _ => Nat.le_add_left _ _)
          fun e' he' hkeyed => ⟨?_, rfl, hkeyed.adjustNode n.ip fun _ => rfl⟩
        obtain ⟨e'', he'', hcore⟩ := exists_of_frame hframe he
        obtain rfl := Option.some.inj (he'.symm.trans he'')
        refine amount_adjustContainer_le hkeyed (fun _ => Nat.le_add_left _ _)
          fun n' c' hn' hc' => ?_
        have hcontainer := container_of_core hcore hn hc hn' hc'
        have hsame : c'.unmark.orbPort = c.unmark.orbPort := congrArg Container.orbPort hcontainer
        replace hsame : c'.orbPort = c.orbPort := hsame
        rw [amount_container, amount_container, hsame,
          ← @portAt_append_gained n.ip _ _ horb, amount_append]
        intro key
        simp only [Pi.add_apply]
        show _ + amount (c'.heldByMembers n.ip) key + _ ≤ _
        omega
      refine hplace.bind fun _ => .ite (fun _ => ?_) fun _ => ?_
      · exact destroyTaken_safe (fun T => destroyComponent_balanced T name built.1)
          fun T I h => h.destroyComponent built.1
      · refine .update fun t h => h.modify (fun _ => Nat.zero_le _) fun e' _ hkeyed =>
          ⟨amount_adjustContainer_le hkeyed (fun _ => Nat.zero_le _) fun n' c' _ _ => ?_, rfl,
            hkeyed.adjustNode n.ip fun _ => rfl⟩
        have hinsert := amount_place_le c'.components msg.id built.1 Component.held
        intro key
        have hkey := hinsert key
        simp only [Pi.add_apply, Pi.zero_apply, Container.held, amount_append] at hkey ⊢
        omega

/-! ## Loggers -/

/-- Where the container is, `AddLogger` gives it a logger without a port. -/
theorem addLoggerTo_safe {env : Environment} {e : Experiment} {ip id : Text} {n : Node}
    {c : Container} (hsafe : Safe ports managerPorts 0 env)
    (he : env.experimentMap.lookup name = some e) (hn : e.nodes.lookup ip = some n)
    (hc : n.containers.lookup id = some c) (msg : NodeManager.Logger) :
    Ends (fun t => t = env) (addLoggerTo name ip id c msg)
      (fun _ t => Safe ports managerPorts 0 t ∧ ∃ e', t.experimentMap.lookup name = some e' ∧
        ∀ ip', ip' ≠ ip → e'.nodes.lookup ip' = e.nodes.lookup ip')
      (Safe ports managerPorts 0) := by
  unfold addLoggerTo
  cases hlogger : c.addLogger msg with
  | error ex => exact .throw fun _ heq => heq ▸ hsafe
  | ok added =>
    refine .update fun t heq => ?_
    subst heq
    refine ⟨hsafe.modify le_rfl fun e' he' hkeyed =>
      ⟨amount_adjustContainer_le hkeyed le_rfl fun n' c' hn' hc' => ?_, rfl,
        hkeyed.adjustNode ip fun _ => rfl⟩,
      e.adjustContainer ip id fun c => { c with loggers := added.loggers }, ?_, fun ip' hne => ?_⟩
    · obtain rfl := Option.some.inj (he'.symm.trans he)
      obtain rfl := Option.some.inj (hn'.symm.trans hn)
      obtain rfl := Option.some.inj (hc'.symm.trans hc)
      have hports := (Container.loggersAdded_addLogger hlogger).ports ip
      simp only [Container.held, amount_append, amount_of_perm hports]
      exact le_rfl
    · rw [Table.lookup_adjust, if_pos rfl, he, Option.map_some]
    · simp only [Experiment.adjustContainer, Experiment.adjustNode, Table.lookup_adjust, if_neg hne]

/-- A logger that is added holds no port yet. -/
theorem addLoggingClient_safe {env : Environment} {e : Experiment} {ip : Text} {n : Node}
    (hsafe : Safe ports managerPorts 0 env) (he : env.experimentMap.lookup name = some e)
    (hn : e.nodes.lookup ip = some n) (msg : NodeManager.Logger) :
    Ends (fun t => t = env) (addLoggingClient name ip n msg)
      (fun _ t => Safe ports managerPorts 0 t ∧ ∃ e', t.experimentMap.lookup name = some e' ∧
        ∀ ip', ip' ≠ ip → e'.nodes.lookup ip' = e.nodes.lookup ip')
      (Safe ports managerPorts 0) := by
  unfold addLoggingClient
  cases hc : n.containers.lookup n.implicitContainerId with
  | none => exact .throw fun _ heq => heq ▸ hsafe
  | some c =>
    refine .ite (fun _ => addLoggerTo_safe hsafe he hn hc msg) fun _ => ?_
    cases hfound : n.containers.entries.find? fun c => c.2.getDeployedComponentCount ≠ 0 with
    | none => exact .pure fun _ heq => heq ▸ ⟨hsafe, e, he, fun _ _ => rfl⟩
    | some found =>
      have hlookup : n.containers.lookup found.1 = some found.2 :=
        AList.mem_lookup_iff.mpr (List.mem_of_find?_eq_some hfound)
      exact addLoggerTo_safe hsafe he hn hlookup msg

theorem addLoggingClientToNodes_safe (msg : NodeManager.Logger) :
    Preserves (Safe ports managerPorts 0) (addLoggingClientToNodes name msg) := by
  refine getExperimentInternal_ends (fun env e hsafe he => ?_) fun _ h _ => h
  -- the nodes that are still to do are as they were read
  refine (Ends.forM (fun todo t => (todo.map (·.1)).Nodup ∧ Safe ports managerPorts 0 t ∧
      ∃ e', t.experimentMap.lookup name = some e' ∧
        ∀ x ∈ todo, e'.nodes.lookup x.1 = some x.2) (fun x rest => ?_) e.nodes.entries).conseq
    (fun t heq => ?_) (fun _ t h => h.2.1) fun _ h => h
  · refine .assuming fun hnodup => ?_
    rintro t r t' ⟨h, e', he', hlookup⟩ hrun
    have hend := addLoggingClient_safe h he' (hlookup x List.mem_cons_self) msg rfl hrun
    cases r with
    | error ex => exact hend
    | ok u =>
      obtain ⟨h', e'', he'', hother⟩ := hend
      obtain ⟨hx, hrest⟩ := List.nodup_cons.mp hnodup
      refine ⟨hrest, h', e'', he'', fun y hy => ?_⟩
      rw [hother y.1 fun heq => hx (List.mem_map.mpr ⟨y, hy, heq⟩)]
      exact hlookup y (List.mem_cons_of_mem _ hy)
  · subst heq
    exact ⟨e.nodes.nodupKeys, hsafe, e, he, fun x hx => AList.mem_lookup_iff.mpr hx⟩

theorem addLoggingServerToImplicitContainer_safe (msg : NodeManager.Logger) :
    Preserves (Safe ports managerPorts 0) (addLoggingServerToImplicitContainer name msg) := by
  refine getExperimentInternal_ends (fun env e hsafe he => ?_) fun _ h _ => h
  cases hleast : e.getLeastDeployedToNode true with
  | none => exact .undefined
  | some n =>
    dsimp only
    have hn := (hsafe.keyed name e he).lookup (getLeastDeployedToNode_mem hleast)
    cases hc : n.containers.lookup n.implicitContainerId with
    | none => exact .throw fun _ heq => heq ▸ hsafe
    | some c => exact (addLoggerTo_safe hsafe he hn hc msg).post fun _ _ h => h.1

end Calls

end Sem.EnvironmentManager

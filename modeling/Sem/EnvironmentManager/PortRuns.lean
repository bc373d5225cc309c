import Sem.EnvironmentManager.PortCalls
import Sem.EnvironmentManager.Rules

/-!
# Ports in every run

In every run of the environment manager, whatever fails in it, a network port is free or held by
one object, and a manager port is free or held by one experiment.

* `runJob_safe`: the calls of `PopulateExperiment`.
* `removeExperimentInternal_safe`: the destructor of an experiment.
* `portsOnce_of_reach`: the ports in every run of the environment manager.
-/

namespace Sem.EnvironmentManager

open Xml (Text)
open Throwing (Balanced Ends Keeps Preserves read update undefined)

variable {ports managerPorts : List ℕ} {name : Text}

/-! ## Ports that are assigned when they are read -/

/-- A port is taken and put where there was none. -/
theorem assignPort_safe {env : Environment} {e : Experiment} {ip : Text}
    {f : Option ℕ → Experiment → Experiment} (hsafe : Safe ports managerPorts 0 env)
    (he : env.experimentMap.lookup name = some e)
    (hf : ∀ port e', e'.core = e.core → e'.Keyed →
      amount (f port e').held ≤ amount e'.held + amount (portAt ip port) ∧
        (f port e').managerPort = e'.managerPort ∧ (f port e').Keyed) :
    Ends (fun t => t = env) (getPort ip >>= fun port => modifyExperiment name (f port))
      (fun _ => Safe ports managerPorts 0) (Safe ports managerPorts 0) := by
  have hport : Ends (fun t => t = env) (getPort ip)
      (fun port t => frameOf t = frameOf env ∧ Safe ports managerPorts (amount (portAt ip port)) t)
      (Safe ports managerPorts 0) :=
    (safe_frame_of_balanced (getPort_balanced ip) (fun I (h : Stable name I) => h.getPort ip)
      (frameOf env)).conseq (fun _ heq => ⟨congrArg frameOf heq, heq ▸ hsafe⟩) (fun _ _ => id)
        fun _ h => h.2
  refine hport.bind fun port => .update fun t ⟨hframe, h⟩ =>
    h.modify (fun _ => Nat.zero_le _) fun e' he' hkeyed => ?_
  obtain ⟨e'', he'', hcore⟩ := exists_of_frame hframe he
  obtain rfl := Option.some.inj (he'.symm.trans he'')
  rw [add_zero]
  exact hf port e' hcore hkeyed

/-- The address of the master belongs to the core. -/
theorem masterIpAddress_of_core {e e' : Experiment} (h : e'.core = e.core) :
    e'.masterIpAddress = e.masterIpAddress := by
  have hcore : e'.core.masterIpAddress = e.core.masterIpAddress :=
    congrArg Experiment.masterIpAddress h
  exact hcore

/-- The address of the publisher is made with a manager port when it is first asked for. -/
theorem getMasterPublisherAddress_safe :
    Preserves (Safe ports managerPorts 0) (getMasterPublisherAddress name) := by
  refine getExperimentInternal_ends (fun env e hsafe he => ?_) fun _ h _ => h
  refine .ite (fun hnone => ?_) fun _ => .pure fun _ heq => heq ▸ hsafe
  refine assignPort_safe hsafe he fun port e' hcore hkeyed => ⟨?_, rfl, hkeyed⟩
  intro key
  simp only [Experiment.held, Experiment.masterPorts, amount_append, Pi.add_apply,
    masterIpAddress_of_core hcore]
  omega

theorem getMasterRegistrationAddress_safe :
    Preserves (Safe ports managerPorts 0) (getMasterRegistrationAddress name) := by
  refine getExperimentInternal_ends (fun env e hsafe he => ?_) fun _ h _ => h
  refine .ite (fun hnone => ?_) fun _ => .pure fun _ heq => heq ▸ hsafe
  refine assignPort_safe hsafe he fun port e' hcore hkeyed => ⟨?_, rfl, hkeyed⟩
  intro key
  simp only [Experiment.held, Experiment.masterPorts, amount_append, Pi.add_apply,
    masterIpAddress_of_core hcore]
  omega

/-- The port of a logger comes from its node when it is first read. -/
theorem getPublisherPort_safe (ip container logger : Text) :
    Preserves (Safe ports managerPorts 0) (getPublisherPort name ip container logger) := by
  refine getExperimentInternal_ends (fun env e hsafe he => ?_) fun _ h _ => h
  have hthrow : ∀ ex, Ends (fun t => t = env) (throw ex : Program Unit)
      (fun _ => Safe ports managerPorts 0) (Safe ports managerPorts 0) :=
    fun _ => .throw fun _ heq => heq ▸ hsafe
  cases e.getLogger ip container logger with
  | none => exact hthrow _
  | some found =>
    refine .ite (fun _ => .ite (fun _ => hthrow _) fun _ => .ite (fun _ => hthrow _) fun _ =>
      .ite (fun _ => hthrow _) fun _ => ?_) fun _ => .pure fun _ heq => heq ▸ hsafe
    refine assignPort_safe hsafe he fun port e' _ hkeyed =>
      ⟨?_, rfl, hkeyed.adjustNode ip fun _ => rfl⟩
    have hheld : amount (e'.setPublisherPort ip container logger port).held + 0 ≤
        amount e'.held + amount (portAt ip port) := by
      refine amount_adjustContainer_le hkeyed (fun _ => Nat.zero_le _) fun n c _ _ key => ?_
      have hlogger := amount_adjust_le (t := c.loggers) (k := logger)
        (f := fun l : Logger => { l with publisherPort := port })
        (g := fun l => portAt ip l.publisherPort) (x := 0) (y := amount (portAt ip port))
        (fun _ => Nat.zero_le _) (fun l _ _ => Nat.le_add_left _ _) key
      simp only [Pi.add_apply, Pi.zero_apply, Container.held, amount_append] at hlogger ⊢
      omega
    rwa [add_zero] at hheld

theorem catchRuntimeError_safe {p : Program Unit} (h : Preserves (Safe ports managerPorts 0) p) :
    Preserves (Safe ports managerPorts 0) (catchRuntimeError p) :=
  .tryCatch h fun _ => .ite (.pure _) (.throw _)

theorem readLogger_safe (ip container logger : Text) :
    Preserves (Safe ports managerPorts 0) (readLogger name ip container logger) := by
  refine getExperimentInternal_preserves fun e => ?_
  cases e.getLogger ip container logger with
  | none => exact .pure _
  | some found =>
    obtain ⟨c, l⟩ := found
    dsimp only
    cases l.type with
    | server =>
      exact .forM fun _ => .forM fun _ => catchRuntimeError_safe (getPublisherPort_safe _ _ _)
    | client => exact catchRuntimeError_safe (getPublisherPort_safe _ _ _)
    | model => exact catchRuntimeError_safe (getPublisherPort_safe _ _ _)
    | experiment => exact catchRuntimeError_safe (getPublisherPort_safe _ _ _)
    | none => exact .pure _

/-- Being read changes marks only. -/
theorem core_clearDirty (full : Bool) (e : Experiment) : (e.clearDirty full).core = e.core := by
  have hcomponents : ∀ k : Component, k.clearDirty.unmark = k.unmark := fun _ => rfl
  have hcontainers : ∀ c : Container, (c.clearDirty full).unmark = c.unmark := by
    intro c
    unfold Container.clearDirty
    split
    · simp only [Container.unmark, Table.mapValues_mapValues hcomponents]
    · rfl
  have hnodes : ∀ n : Node, (n.clearDirty full).unmark = n.unmark := by
    intro n
    unfold Node.clearDirty
    split
    · simp only [Node.unmark, Table.mapValues_mapValues hcontainers]
    · rfl
  unfold Experiment.clearDirty
  split
  · rfl
  · simp only [Experiment.core, Experiment.unmark, Table.mapValues_mapValues hnodes]

/-- A change of marks. -/
theorem modifyMarks_safe {f : Experiment → Experiment} (hf : ∀ e, (f e).core = e.core) :
    Preserves (Safe ports managerPorts 0) (modifyExperiment name f) := by
  refine modifyExperiment_safe fun e hkeyed => ⟨?_, ?_, ?_⟩
  · rw [← Experiment.held_core (f e), hf, Experiment.held_core]
  · have hmanager : (f e).core.managerPort = e.core.managerPort :=
      congrArg Experiment.managerPort (hf e)
    exact hmanager
  · rwa [← Experiment.keyed_core, hf, Experiment.keyed_core]

theorem getProto_safe (full : Bool) :
    Preserves (Safe ports managerPorts 0) (getProto name full) := by
  refine getExperimentInternal_preserves fun e => .ite (.ite ?_ ?_) (.pure _)
  · exact (modifyMarks_safe (core_clearDirty full)).bind fun _ => .pure _
  · refine Preserves.bind (getExperimentInternal_preserves fun e => ?_) fun _ =>
      getMasterPublisherAddress_safe.bind fun _ => getMasterRegistrationAddress_safe.bind fun _ =>
        (modifyMarks_safe (core_clearDirty full)).bind fun _ => .pure _
    exact .ite (.forM fun _ => readLogger_safe _ _ _) (.pure _)

theorem getEnvironmentProto_safe (full : Bool) :
    Preserves (Safe ports managerPorts 0) (getEnvironmentProto name full) := by
  refine (getProto_safe full).bind fun proto => ?_
  cases proto with
  | none => exact .undefined
  | some message => exact .pure message

/-! ## Completion -/

/-- The experiment has no master yet. -/
def Unplaced (name : Text) (env : Environment) : Prop :=
  ∀ e, env.experimentMap.lookup name = some e →
    e.masterPublisherPort = none ∧ e.masterRegistrationPort = none

theorem Unplaced.modify {env : Environment} {m : Text} {f : Experiment → Experiment}
    (h : Unplaced name env) (hf : ∀ e, (f e).masterPublisherPort = e.masterPublisherPort ∧
      (f e).masterRegistrationPort = e.masterRegistrationPort) :
    Unplaced name { env with experimentMap := env.experimentMap.adjust m f } := by
  intro e he
  rw [Table.lookup_adjust] at he
  split at he
  · obtain ⟨e', he', rfl⟩ := Option.map_eq_some_iff.mp he
    rw [(hf e').1, (hf e').2]
    exact h e' he'
  · exact h e he

/-- Nothing but the master's own addresses takes its ports. -/
theorem buildStable_unplaced : BuildStable name (Unplaced name) where
  labels _ _ := id
  ids _ _ _ _ h := h.modify fun _ => ⟨rfl, rfl⟩
  mark _ _ _ _ _ _ _ h := Unplaced.modify h fun _ => ⟨rfl, rfl⟩
  nodeMap _ _ _ := id
  modify env f hf h := by
    have hpublisher e : (f e).bare.masterPublisherPort = e.bare.masterPublisherPort := by rw [hf]
    have hregistration e : (f e).bare.masterRegistrationPort = e.bare.masterRegistrationPort := by
      rw [hf]
    exact h.modify fun e => ⟨hpublisher e, hregistration e⟩
  addNode _ _ := id

/-- A new experiment has no master. -/
theorem registerExperiment_unplaced :
    Ends (fun _ => True) (registerExperiment name) (fun _ => Unplaced name) fun _ => True := by
  refine Ends.any.bind fun p => .update fun env _ e he => ?_
  rw [Table.lookup_insert, if_pos rfl] at he
  cases he
  exact ⟨rfl, rfl⟩

/-- A master is placed, where there was none. -/
theorem configureMaster_safe [HashOrder] :
    Ends (fun env => Unplaced name env ∧ Safe ports managerPorts 0 env) (configureMaster name)
      (fun _ => Safe ports managerPorts 0) (Safe ports managerPorts 0) := by
  refine getExperimentInternal_ends (fun env e h he => ?_) fun _ h _ => h.2
  cases e.nodes.entries.find? fun n => n.2.hasMasterEligibleContainer with
  | none => exact .pure fun _ heq => heq ▸ h.2
  | some n =>
    dsimp only
    cases n.2.getMasterEligibleContainer with
    | none => exact .throw fun _ heq => heq ▸ h.2
    | some container =>
      refine Ends.bind (R := fun _ => Safe ports managerPorts 0)
        (.update fun t heq => ?_) fun _ =>
        getMasterPublisherAddress_safe.bind fun _ => getMasterRegistrationAddress_safe
      subst heq
      refine h.2.modify le_rfl fun e' he' hkeyed => ⟨?_, rfl, hkeyed.adjustNode n.1 fun _ => rfl⟩
      obtain ⟨hpublisher, hregistration⟩ := h.1 e' he'
      have hheld : ∀ c : Container, amount (c.setNodeManagerMaster.held n.1) + 0 ≤
          amount (c.held n.1) + 0 := fun c => by
        rw [amount_of_perm ((Container.loggersAdded_setNodeManagerMaster c).held_perm n.1)]
      have hnodes : amount (e'.adjustContainer n.1 container Container.setNodeManagerMaster).held +
          0 ≤ amount e'.held + 0 :=
        amount_adjustContainer_le hkeyed le_rfl fun _ c _ _ => hheld c
      intro key
      have hkey := hnodes key
      simp only [Pi.add_apply, Experiment.held, Experiment.masterPorts, amount_append,
        Experiment.adjustContainer, Experiment.adjustNode, hpublisher, hregistration] at hkey ⊢
      exact hkey

/-- The completion places the master and takes its ports. -/
theorem complete_safe [HashOrder] :
    Ends (fun env => Unplaced name env ∧ Safe ports managerPorts 0 env) (complete name)
      (fun _ => Safe ports managerPorts 0) (Safe ports managerPorts 0) := by
  refine configureMaster_safe.bind fun _ => getExperimentInternal_preserves fun e => ?_
  cases e.checkValidity with
  | error ex => exact .throw _
  | ok u =>
    exact .ite (modifyExperiment_safe fun e hkeyed => ⟨le_rfl, rfl, hkeyed⟩) (.throw _)

/-! ## The destructor of an experiment -/

/-- A change of the manager ports alone. -/
theorem Safe.withManagers {hand : Text × ℕ → ℕ} {env : Environment}
    (h : Safe ports managerPorts hand env) {available : List ℕ}
    (hle : ∀ p, available.count p + env.managers.count p ≤ managerPorts.count p) :
    Safe ports managerPorts hand { env with availableNodeManagerPorts := available } :=
  ⟨h.available, h.once, h.placed, hle, h.keyed⟩

/-- What only marks a change to be told. -/
theorem Safe.withOwed {hand : Text × ℕ → ℕ} {env : Environment}
    (h : Safe ports managerPorts hand env) (owed : List (Text × Update)) :
    Safe ports managerPorts hand { env with owed := owed } :=
  h.of_frame rfl le_rfl

/-- The manager port of an experiment that is not in the map any more. -/
theorem freeManagerPort_safe {hand : Text × ℕ → ℕ} {env : Environment} {port : Option ℕ}
    {E : Environment → Prop} (hroom : ∀ p, env.availableNodeManagerPorts.count p +
      env.managers.count p + port.toList.count p ≤ managerPorts.count p) :
    Ends (fun t => frameOf t = frameOf env ∧ Safe ports managerPorts hand t)
      (freeManagerPort port) (fun _ => Safe ports managerPorts hand) E := by
  cases port with
  | none => exact .pure fun _ h => h.2
  | some q =>
    refine .update fun t ⟨hframe, h⟩ => h.withManagers fun p => ?_
    simp only [frameOf, Prod.mk.injEq] at hframe
    obtain ⟨hcores, -, havailable, -⟩ := hframe
    have hpush := count_push_le t.availableNodeManagerPorts q p
    have hmanagers : t.managers = env.managers := by
      rw [← managers_cores, hcores, managers_cores]
    have hp := hroom p
    rw [Option.toList_some] at hp
    rw [havailable] at hpush ⊢
    rw [hmanagers]
    omega

/-- What an experiment held is in hand when the map lets go of it. -/
theorem Safe.erase {env : Environment} (h : Safe ports managerPorts 0 env) {e : Experiment}
    (he : env.experimentMap.lookup name = some e) (owed : List (Text × Update)) :
    Safe ports managerPorts (amount e.held)
      { env with experimentMap := env.experimentMap.erase name, owed := owed } ∧
    ∀ p, env.availableNodeManagerPorts.count p +
      (Environment.managers
        { env with experimentMap := env.experimentMap.erase name, owed := owed }).count p +
      e.managerPort.toList.count p ≤ managerPorts.count p := by
  have hperm := env.experimentMap.values_perm_erase name
  rw [he] at hperm
  have howners := hperm.flatMap_right Experiment.held
  have hmanagers := hperm.flatMap_right fun e => e.managerPort.toList
  refine ⟨⟨h.available, fun ip p => ?_, fun ip hip p => ?_, fun p => ?_, h.keyed.erase name⟩,
    fun p => ?_⟩
  · have hold := h.once ip p
    simp only [amount, Environment.owners, howners.count_eq, List.flatMap_append,
      List.count_append, Option.toList_some, List.flatMap_singleton, Pi.zero_apply] at hold ⊢
    exact le_trans (by simp only [freePorts, Environment.free]; omega) hold
  · have hold := h.placed ip hip p
    simp only [amount, Environment.owners, howners.count_eq, List.flatMap_append,
      List.count_append, Option.toList_some, List.flatMap_singleton, Pi.zero_apply] at hold ⊢
    omega
  · have hold := h.managers p
    simp only [Environment.managers, hmanagers.count_eq, List.flatMap_append, List.count_append]
      at hold ⊢
    omega
  · have hold := h.managers p
    simp only [Environment.managers, hmanagers.count_eq, List.flatMap_append, List.count_append,
      Option.toList_some, List.flatMap_singleton] at hold ⊢
    omega

/-- `~Experiment` gives back no more than the experiment held. -/
theorem destroyExperiment_safe {env : Environment} {e : Experiment}
    (h : Safe ports managerPorts (amount e.held) env)
    (hroom : ∀ p, env.availableNodeManagerPorts.count p + env.managers.count p +
      e.managerPort.toList.count p ≤ managerPorts.count p) :
    Ends (fun t => t = env) e.destroy (fun _ => Safe ports managerPorts 0)
      (Safe ports managerPorts 0) := by
  -- the nodes never throw, so the handler starts where the deregistration ended
  have hnodes : ∀ T thrown, Balanced freePorts (amount e.held)
      (e.nodes.values.forM fun n => n.destroy T e.modelName)
      (fun _ => amount e.masterPorts) thrown := by
    intro T thrown
    have hbalanced := (destroyAll_balanced (destroyNode_balanced T e.modelName)
      e.nodes.values).frame (amount e.masterPorts)
    rw [add_zero] at hbalanced
    refine (hbalanced.conseq ?_ (fun _ => le_rfl) le_rfl).noThrow
      (succeeds_forM (Node.destroy_succeeds e.modelName T) _).neverThrows thrown
    rw [Experiment.held, amount_append, add_comm]
  have hmaster : Balanced freePorts (amount e.masterPorts)
      (freePort e.masterIpAddress e.masterPublisherPort >>= fun _ =>
        freePort e.masterIpAddress e.masterRegistrationPort) (fun _ => 0) 0 := by
    have hfirst := (freePort_balanced e.masterIpAddress e.masterPublisherPort 0).frame
      (amount (portAt e.masterIpAddress e.masterRegistrationPort))
    rw [Experiment.masterPorts, amount_append, add_comm]
    refine (hfirst.conseq le_rfl (fun _ => le_rfl) fun _ => Nat.zero_le _).bind fun _ => ?_
    exact freePort_balanced e.masterIpAddress e.masterRegistrationPort 0
  have hnodesStable : ∀ (T : Table Text ExternalPort) I, Stable e.modelName I →
      Preserves I (e.nodes.values.forM fun n => n.destroy T e.modelName) :=
    fun _ _ h => .forM h.destroyNode
  refine Ends.tryCatch (R := fun t => frameOf t = frameOf env ∧
    Safe ports managerPorts (amount e.held) t) ?_ fun _ => ?_
  · refine ((safe_frame_of_balanced (.of_keeps (keeps_freePorts e.modelName fun _ h =>
      h.unregister e)) (fun I (h : Stable e.modelName I) => h.toLabelStable.unregister e)
        (frameOf env)).pre
        fun _ heq => ⟨congrArg frameOf heq, heq ▸ h⟩).bind fun _ => ?_
    refine (safe_frame_of_balanced (hnodes _ _) (hnodesStable _) (frameOf env)).bind fun _ => ?_
    refine (freeManagerPort_safe hroom).bind fun _ => .ite (fun _ => ?_) fun _ =>
      .pure fun _ h => h.mono fun _ => Nat.zero_le _
    exact ((freePort_succeeds _ _).bind fun _ => freePort_succeeds _ _).neverThrows.ends
      (safe_of_balanced hmaster fun I (h : Stable e.modelName I) =>
        (h.freePort _ _).bind fun _ => h.freePort _ _)
  · exact (safe_of_balanced (hnodes _ 0) (hnodesStable _)).conseq (fun _ h => h.2)
      (fun _ _ h => h.mono fun _ => Nat.zero_le _) fun _ h => h

/-- The destructor of an experiment frees its ports, those of the master too. -/
theorem removeExperimentInternal_safe :
    Preserves (Safe ports managerPorts 0) (removeExperimentInternal name) := by
  refine Ends.read fun env h => ?_
  cases he : env.experimentMap.lookup name with
  | none => exact .pure fun _ heq => heq ▸ h
  | some e =>
    intro t r t' heq hrun
    subst heq
    obtain ⟨hsafe, hroom⟩ := h.erase he (t.owed.filter fun o => o.1 ≠ name)
    exact destroyExperiment_safe hsafe hroom rfl hrun

/-! ## Requests -/

/-- A manager port in hand is as good as a free one. -/
theorem getManagerPort_safe :
    Ends (Safe ports managerPorts 0) getManagerPort
      (fun p env => Safe ports managerPorts 0
        { env with availableNodeManagerPorts := p :: env.availableNodeManagerPorts })
      (Safe ports managerPorts 0) := by
  refine Ends.read fun env h => ?_
  cases hqueue : env.availableNodeManagerPorts with
  | nil => exact .throw fun _ heq => heq ▸ h
  | cons p ps =>
    refine Ends.bind (R := fun _ env => Safe ports managerPorts 0
      { env with availableNodeManagerPorts := p :: env.availableNodeManagerPorts })
      (.update fun t heq => ?_) fun _ => .pure fun _ => id
    subst heq
    exact h.withManagers fun q => hqueue ▸ h.managers q

/-- A registration takes a manager port, or throws. -/
theorem registerExperiment_safe :
    Preserves (Safe ports managerPorts 0) (registerExperiment name) := by
  refine Ends.bind getManagerPort_safe fun p => .update fun env h => ?_
  -- the new experiment holds nothing but the manager port
  refine ⟨h.available, fun ip q => ?_, fun ip hip q => ?_, fun q => ?_, h.keyed.insert ?_⟩
  · refine le_trans (Nat.add_le_add_right (Nat.add_le_add_left ?_ _) _) (h.once ip q)
    exact count_insert_le env.experimentMap name _ Experiment.held (ip, q)
  · refine Nat.le_zero.mp (le_trans (Nat.add_le_add_right ?_ _) (h.placed ip hip q).le)
    exact count_insert_le env.experimentMap name _ Experiment.held (ip, q)
  · have hinsert := count_insert_le env.experimentMap name
      { modelName := name
        state := .registered
        shutdown := false
        dirty := false
        masterIpAddress := []
        managerPort := some p
        masterPublisherPort := none
        masterRegistrationPort := none
        nodes := ∅
        externalPorts := ∅
        externalIdToInternalId := ∅ } (fun e : Experiment => e.managerPort.toList) q
    have hq := h.managers q
    simp only [List.count_cons, Option.toList_some, List.count_nil] at hq hinsert ⊢
    refine le_trans (Nat.add_le_add_left hinsert _) (le_trans (le_of_eq ?_) hq)
    simp only [Environment.managers]
    omega
  · exact Table.Entries.empty

/-- An experiment that is not active is removed at once. -/
theorem shutdownExperiment_safe :
    Preserves (Safe ports managerPorts 0) (shutdownExperiment name) := by
  refine getExperimentInternal_preserves fun e => .ite (.update fun env h => ?_)
    removeExperimentInternal_safe
  let f : Experiment → Experiment := fun e =>
    if e.shutdown then e else { e with shutdown := true, dirty := true }
  have hmarked : Safe ports managerPorts 0
      { env with experimentMap := env.experimentMap.adjust name f } := by
    refine h.modify le_rfl fun e _ hkeyed => ?_
    unfold f
    split <;> exact ⟨le_rfl, rfl, hkeyed⟩
  exact hmarked.withOwed _

theorem handleHeartbeat_safe : Preserves (Safe ports managerPorts 0) (handleHeartbeat name) := by
  refine Preserves.bind (Preserves.read.bind fun env => ?_) fun reply =>
    (Preserves.update fun env h => h.withOwed _).bind fun _ => .pure _
  cases env.experimentMap.lookup name with
  | none => exact .pure _
  | some e => exact .ite (getEnvironmentProto_safe false) (.pure _)

theorem handleGetExperimentInfo_safe :
    Preserves (Safe ports managerPorts 0) (handleGetExperimentInfo name) := by
  refine getExperimentInternal_preserves fun e => .ite ?_ (.throw _)
  exact (getEnvironmentProto_safe true).bind fun reply => Preserves.bind
    (modifyExperiment_safe fun e hkeyed => ⟨le_rfl, rfl, hkeyed⟩) fun _ => .pure _

theorem handleNodeManagerRegistration_safe (ip container : Text) :
    Preserves (Safe ports managerPorts 0) (handleNodeManagerRegistration name ip container) := by
  refine getExperimentInternal_preserves fun e => ?_
  cases (e.nodes.lookup ip).bind fun n => n.containers.lookup container with
  | none => exact .throw _
  | some c =>
    have hmaster : Preserves (Safe ports managerPorts 0)
        (getMasterPublisherAddress name >>= fun _ => getMasterRegistrationAddress name) :=
      getMasterPublisherAddress_safe.bind fun _ => getMasterRegistrationAddress_safe
    refine .ite (.ite (.ite ?_ ?_) hmaster) (.pure _)
    · exact (getPublisherPort_safe _ _ _).bind fun _ => hmaster
    · exact Preserves.bind (.throw _) fun _ => hmaster

theorem handleLoganRegistration_safe (ip : Text) :
    Preserves (Safe ports managerPorts 0) (handleLoganRegistration name ip) := by
  refine getExperimentInternal_preserves fun e => ?_
  cases e.nodes.lookup ip with
  | none => exact .throw _
  | some n =>
    refine Preserves.bind (.forM fun _ => readLogger_safe _ _ _) fun _ => .ite ?_ (.pure _)
    -- nobody gives this manager port back
    refine Ends.bind getManagerPort_safe fun p => .pure fun env h => ?_
    refine ⟨h.available, h.once, h.placed, fun q => ?_, h.keyed⟩
    have hq := h.managers q
    simp only [List.count_cons] at hq
    exact le_trans (Nat.add_le_add_right (Nat.le_add_right _ _) _) hq

/-! ## Runs -/

/-- Every call but the last keeps the account, wherever it stands. -/
theorem runJob_safe [HashOrder] {job : Job} (hjob : job ≠ .complete) :
    Preserves (Safe ports managerPorts 0) (runJob name job) := by
  cases job with
  | addExternalPorts externalPorts => exact addExternalPorts_safe externalPorts
  | addNodeToExperiment msg => exact addNodeToExperiment_safe msg
  | deployContainer msg => exact deployContainer_safe msg
  | addComponentToImplicitContainer msg => exact addComponentToImplicitContainer_safe msg
  | addLoggingClientToNodes logger => exact addLoggingClientToNodes_safe logger
  | addLoggingServerToImplicitContainer logger =>
    exact addLoggingServerToImplicitContainer_safe logger
  | complete => exact absurd rfl hjob
  | publish => exact .tryCatch ((getProto_safe true).bind fun _ => .pure _) fun _ => .pure _
  | removeExperiment => exact removeExperimentInternal_safe

/-- Until its completion an experiment that is populated has no master. -/
theorem safe_rules [HashOrder] : Server.Rules (fun _ _ => True) Unplaced (fun _ _ => True)
    (Safe ports managerPorts 0) where
  register name := by
    have hsafe : Preserves (Safe ports managerPorts 0) (registerExperiment name) :=
      registerExperiment_safe
    exact (hsafe.ends registerExperiment_unplaced).conseq (fun _ h => ⟨h.2, trivial⟩)
      (fun _ _ h => h.symm) fun _ h => h.1
  build name job hjob := by
    have hne : job ≠ .complete := fun heq => by rw [heq] at hjob; cases hjob
    exact (runJob_safe hne).ends (buildStable_unplaced.runJob hjob) |>.conseq
      (fun _ h => h.symm) (fun _ _ h => h.symm) fun _ h => h.symm
  complete name := complete_safe.post fun _ _ h => ⟨trivial, h⟩
  publish name := by
    have hsafe : Preserves (Safe ports managerPorts 0) (runJob name .publish) :=
      runJob_safe (by decide)
    exact hsafe.pre fun _ h => h.2
  remove name := removeExperimentInternal_safe
  shutdown name := shutdownExperiment_safe.pre fun _ h => h.2
  heartbeat name := handleHeartbeat_safe
  inspect name := (getEnvironmentProto_safe true).pre fun _ h => h.2
  info name := handleGetExperimentInfo_safe.pre fun _ h => h.2
  nodeManager name ip container := handleNodeManagerRegistration_safe ip container
  logan name ip := handleLoganRegistration_safe ip

/-- The account is right after any run. -/
theorem safe_of_reach [HashOrder] {qpid tao : Text} {portRangeMin portRangeMax : ℕ} {s : Server}
    (h : (Server.system (Environment.init qpid tao portRangeMin portRangeMax)).Reach s) :
    let env := Environment.init qpid tao portRangeMin portRangeMax
    Safe env.availablePorts env.availableNodeManagerPorts 0 s.env := by
  intro env
  refine (safe_rules.reach ⟨rfl, fun ip p => ?_, fun ip _ p => rfl, fun p => le_rfl,
    Table.Entries.empty⟩ (h.mono fun _ _ _ => trivial)).env
  exact Nat.zero_le _

/-- A list without repetitions has an element once at most. -/
theorem count_le_ite {l : List ℕ} (hl : l.Nodup) {p : ℕ} {c : Prop} [Decidable c] (h : p ∈ l → c) :
    l.count p ≤ if c then 1 else 0 := by
  rw [hl.count]
  split
  · next hp => rw [if_pos (h hp)]
  · exact Nat.zero_le _

/-- Whatever is requested and whatever fails, a network port of a node is free or held by one
object, and a manager port is free or held by one experiment; both lie in their ranges. -/
theorem portsOnce_of_reach [HashOrder] {qpid tao : Text} {portRangeMin portRangeMax : ℕ}
    {s : Server} (h : (Server.system (Environment.init qpid tao portRangeMin portRangeMax)).Reach s)
    (p : ℕ) :
    (∀ ip, (s.env.free ip).count p + s.env.owners.count (ip, p) ≤
      if portRangeMin ≤ p ∧ p ≤ portRangeMax then 1 else 0) ∧
    s.env.availableNodeManagerPorts.count p + s.env.managers.count p ≤
      if portRangeMin + 10000 < p ∧ p < portRangeMax + 10000 then 1 else 0 := by
  have hsafe := safe_of_reach h
  refine ⟨fun ip => (hsafe.once ip p).trans ?_, (hsafe.managers p).trans ?_⟩
  · refine count_le_ite List.nodup_range' fun hp => ?_
    simp only [Environment.init, List.mem_range'_1] at hp
    omega
  · simp only [Environment.init, List.tail_range']
    refine count_le_ite List.nodup_range' fun hp => ?_
    rw [List.mem_range'_1] at hp
    omega

/-- A publisher on a node that gets nine ports. -/
def onePublisher : NodeManager.Experiment where
  name := "E".toList
  clusters :=
    [⟨[⟨"10.0.0.1".toList,
      [⟨"C".toList, [⟨"K".toList, [⟨"P".toList, .publisher, .zmq, [], []⟩]⟩], [], false,
        false⟩]⟩], []⟩]
  externalPorts := []

section Example

attribute [local instance] HashOrder.newestFirst

theorem portsOnce_onePublisher : ∃ s, (Server.system (Environment.init [] [] 1 9)).Reach s ∧
    s.env.owners.map Prod.snd = [4, 1, 2, 3] ∧ s.env.managers = [10002] ∧
    (∀ ip, (s.env.free ip).count 4 + s.env.owners.count (ip, 4) ≤ 1) ∧
    s.env.availableNodeManagerPorts.count 4 + s.env.managers.count 4 ≤ 0 := by
  have hsome : (Lts.run Server.step ⟨Environment.init [] [] 1 9, none⟩
      [.populateExperiment onePublisher, .advance, .advance, .advance, .advance]).map (fun s =>
        (s.env.owners.map Prod.snd, s.env.managers)) = some ([4, 1, 2, 3], [10002]) := by
    decide +kernel
  obtain ⟨s, hrun, hports⟩ := Option.map_eq_some_iff.mp hsome
  rw [Prod.mk.injEq] at hports
  have hreach := Lts.reach_of_run hrun
  exact ⟨s, hreach, hports.1, hports.2, portsOnce_of_reach hreach 4⟩

end Example

end Sem.EnvironmentManager

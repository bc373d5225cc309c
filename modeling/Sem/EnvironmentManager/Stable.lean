import Sem.EnvironmentManager.Construction
import Sem.EnvironmentManager.EnvironmentLemmas
import Sem.Lib.Ledger

/-!
# What constructors and destructors leave alone

The constructors and destructors of an experiment's objects take and free network ports, change
the external labels and the ids of the experiment's external ports, and mark ports of experiments
that are configured already. What none of these breaks (`Stable`) holds after every one of them.

* `LabelStable`: what recording the use of an external port does not break.
* `Stable.constructContainer`, `Stable.constructComponent`, `Stable.constructNode`,
  `Stable.destroyNode`: the programs.
* `cores`: the experiments without marks and external ports, which all these programs keep.
-/

namespace Sem.EnvironmentManager

open Xml (Text)
open Throwing (Ends Preserves read update undefined)

/-- What the steps that record the use of external ports for an experiment keep. -/
structure LabelStable (name : Text) (I : Environment → Prop) : Prop where
  labels : ∀ env labels, I env → I { env with externalEventportMap := labels }
  ids : ∀ env r internalId f, I env →
    I { env with experimentMap := env.experimentMap.adjust name (·.adjustIds r internalId f) }
  mark : ∀ env m e path, env.experimentMap.lookup m = some e → e.state ≠ .registered →
    e.findPort path.port = some (path.node, path.container, path.component) → I env →
    I { env with
      experimentMap := env.experimentMap.adjust m (·.setDirty path)
      owed := (m, .port path) :: env.owed }

/-- What all steps of the programs that work for an experiment keep. -/
structure Stable (name : Text) (I : Environment → Prop) : Prop extends LabelStable name I where
  nodeMap : ∀ env ip f, I env → I { env with nodeMap := env.nodeMap.adjust ip f }

/-- A program that reads an experiment first. -/
theorem getExperimentInternal_ends {α : Type} {P : Environment → Prop} {name : Text}
    {k : Experiment → Program α} {Q : α → Environment → Prop} {E : Environment → Prop}
    (hsome : ∀ env e, P env → env.experimentMap.lookup name = some e →
      Ends (fun t => t = env) (k e) Q E)
    (hnone : ∀ env, P env → env.experimentMap.lookup name = none → E env) :
    Ends P (getExperimentInternal name >>= k) Q E := by
  intro env r env' hP hrun
  cases he : env.experimentMap.lookup name with
  | some e =>
    rw [Throwing.bind_ok (getExperimentInternal_some he)] at hrun
    exact hsome env e hP he rfl hrun
  | none =>
    rw [Throwing.bind_error (getExperimentInternal_none he)] at hrun
    cases hrun
    exact hnone env hP he

/-- A program that reads an experiment first and goes on whatever it is. -/
theorem getExperimentInternal_preserves {α : Type} {I : Environment → Prop} {name : Text}
    {k : Experiment → Program α} (h : ∀ e, Preserves I (k e)) :
    Preserves I (getExperimentInternal name >>= k) :=
  getExperimentInternal_ends (fun _ e hI _ => (h e).pre fun _ heq => heq ▸ hI) fun _ hI _ => hI

/-- Taking a port changes the table of free ports only. -/
theorem getPort_preserves {I : Environment → Prop}
    (h : ∀ env ip f, I env → I { env with nodeMap := env.nodeMap.adjust ip f }) (ip : Text) :
    Preserves I (getPort ip) := by
  refine Preserves.read.bind fun env => ?_
  cases env.nodeMap.lookup ip with
  | none => exact .throw _
  | some tracker =>
    dsimp only
    cases tracker.availablePorts with
    | nil => exact .pure none
    | cons p ps =>
      refine Preserves.bind (.update ?_) fun _ => .pure _
      exact fun env => h env ip _

/-! ## External ports -/

namespace LabelStable

variable {name : Text} {I : Environment → Prop} (h : LabelStable name I)

include h

theorem setPortDirty (m portId : Text) :
    Preserves (fun env => I env ∧
      ∃ e, env.experimentMap.lookup m = some e ∧ e.state ≠ .registered)
      (setPortDirty m portId) := by
  refine getExperimentInternal_ends (fun env e hI he => ?_) fun _ hI _ => hI
  obtain ⟨hI, e', he', hstate⟩ := hI
  obtain rfl := Option.some.inj (he.symm.trans he')
  have hkept : I env ∧ ∃ e, env.experimentMap.lookup m = some e ∧ e.state ≠ .registered :=
    ⟨hI, e, he, hstate⟩
  cases hport : e.findPort portId with
  | none => exact Ends.throw fun t heq => heq ▸ hkept
  | some found =>
    obtain ⟨node, container, component⟩ := found
    refine Ends.update fun t heq => ?_
    subst heq
    refine ⟨h.mark t m e ⟨node, container, component, portId⟩ he hstate hport hI,
      e.setDirty ⟨node, container, component, portId⟩, ?_, hstate⟩
    rw [Table.lookup_adjust, if_pos rfl, he]
    rfl

theorem updatePort (m label : Text) : Preserves I (updatePort m label) := by
  refine getExperimentInternal_ends (fun env e hI he => ?_) fun _ hI _ => hI
  refine Ends.ite (fun hstate => ?_) fun _ => Ends.pure fun _ heq => heq ▸ hI
  cases e.externalIdToInternalId.lookup label with
  | none => exact Ends.pure fun _ heq => heq ▸ hI
  | some internalId =>
    dsimp only
    cases e.externalPorts.lookup internalId with
    | none => exact Ends.throw fun _ heq => heq ▸ hI
    | some port =>
      have hne : e.state ≠ .registered := by
        rintro hr
        rw [hr] at hstate
        exact hstate.elim (by decide) (by decide)
      exact (Preserves.forM (l := port.consumerIds) (h.setPortDirty m)).conseq
        (fun _ heq => heq ▸ ⟨hI, e, he, hne⟩) (fun _ _ hkept => hkept.1) fun _ hkept => hkept.1

omit h in
theorem getSharedPort (label : Text) : Preserves I (getSharedPort label) := by
  refine Preserves.read.bind fun env => ?_
  cases env.externalEventportMap.lookup label with
  | none => exact .throw _
  | some port => exact .pure port

theorem updateConsumers (label : Text) : Preserves I (updateConsumers label) :=
  (getSharedPort label).bind fun _ => .forM fun _ =>
    getExperimentInternal_preserves fun _ => h.updatePort _ label

theorem adjustNames (r : Role) (label : Text) (f : OrderedSet Text → OrderedSet Text) :
    Preserves I (update fun env => env.adjustNames r label f : Program Unit) :=
  .update fun env => h.labels env _

theorem addName (r : Role) (label : Text) (f : OrderedSet Text → OrderedSet Text) :
    Preserves I (update fun env => (env.addLabel label).adjustNames r label f : Program Unit) := by
  refine .update fun env hI => ?_
  unfold Environment.addLabel
  split
  · exact h.labels env _ hI
  · exact h.labels _ _ (h.labels env _ hI)

theorem environmentAddExternalPort (r : Role) (m label : Text) :
    Preserves I (Environment.addExternalPort r m label) := by
  cases r with
  | producer => exact (h.addName .producer label _).bind fun _ => h.updateConsumers label
  | consumer => exact h.addName .consumer label _

theorem environmentRemoveExternalPort (r : Role) (m label : Text) :
    Preserves I (Environment.removeExternalPort r m label) := by
  cases r with
  | producer =>
    exact (getSharedPort label).bind fun _ => (h.adjustNames .producer label _).bind fun _ =>
      h.updateConsumers label
  | consumer => exact (getSharedPort label).bind fun _ => h.adjustNames .consumer label _

theorem addExternalPort (r : Role) (internalId portId : Text) :
    Preserves I (Experiment.addExternalPort r name internalId portId) := by
  refine .tryCatch (getExperimentInternal_preserves fun e => ?_) fun _ => .pure _
  cases e.externalPorts.lookup internalId with
  | none => exact .throw _
  | some port =>
    exact (h.environmentAddExternalPort r name port.externalLabel).bind fun _ =>
      .update fun env => h.ids env r internalId _

theorem removeExternalPort (r : Role) (externalPorts : Table Text ExternalPort)
    (internalId portId : Text) :
    Preserves I (Experiment.removeExternalPort r externalPorts name internalId portId) := by
  refine .tryCatch ?_ fun _ => .pure _
  cases externalPorts.lookup internalId with
  | none => exact .throw _
  | some port =>
    exact (h.environmentRemoveExternalPort r name port.externalLabel).bind fun _ =>
      .update fun env => h.ids env r internalId _

omit h in
theorem liveExternalPorts (m : Text) : Preserves I (liveExternalPorts m) :=
  Preserves.read.bind fun _ => .pure _

variable {externalPorts : Table Text ExternalPort}

theorem unregisterPort (p : Port) : Preserves I (p.unregister externalPorts name) := by
  unfold Port.unregister
  cases role p.kind with
  | none => exact .pure _
  | some r => exact .forM fun id => h.removeExternalPort r externalPorts id p.id

theorem newPort (msg : NodeManager.Port) : Preserves I (newPort name msg) := by
  unfold EnvironmentManager.newPort
  cases role msg.kind with
  | none => exact .pure _
  | some r => exact (Preserves.forM fun id => h.addExternalPort r id msg.id).bind fun _ => .pure _

theorem failPort (p : Port) : Preserves I (failPort name p) :=
  (liveExternalPorts name).bind fun _ => (h.unregisterPort p).bind fun _ => .pure _

/-- The deregistration in `~Experiment`. -/
theorem unregister (e : Experiment) : Preserves I e.unregister := by
  refine .forM fun port => ?_
  have hproducer : Preserves I (if port.producerIds ≠ [] then
      Environment.removeExternalProducerPort e.modelName port.externalLabel else pure ()) :=
    .ite (h.environmentRemoveExternalPort .producer _ _) (.pure _)
  exact .ite ((h.environmentRemoveExternalPort .consumer _ _).bind fun _ => hproducer) hproducer

end LabelStable

/-! ## Constructors and destructors -/

namespace Stable

variable {name : Text} {I : Environment → Prop} (h : Stable name I)

include h

theorem getPort (ip : Text) : Preserves I (getPort ip) := getPort_preserves h.nodeMap ip

theorem freePort (ip : Text) (port : Option ℕ) : Preserves I (freePort ip port) := by
  cases port with
  | none => exact .pure _
  | some p => exact .update fun env => h.nodeMap env ip _

variable {externalPorts : Table Text ExternalPort}

theorem destroyPort (p : Port) : Preserves I (p.destroy externalPorts name) := by
  unfold Port.destroy
  exact .ite ((h.freePort p.ip p.producerPort).bind fun _ => h.toLabelStable.unregisterPort p)
    (h.toLabelStable.unregisterPort p)

theorem assignOrbPort (ip : Text) (orbPort : Option ℕ) :
    Preserves I (assignOrbPort ip orbPort) := by
  cases orbPort with
  | none => exact h.getPort ip
  | some p => exact .pure _

theorem takePorts (ip : Text) (orbPort : Option ℕ) (p : Port) :
    Preserves I (takePorts ip orbPort p) := by
  unfold EnvironmentManager.takePorts
  cases p.middleware with
  | zmq => exact .ite ((h.getPort ip).bind fun _ => .pure _) (.pure _)
  | tao => exact (h.assignOrbPort ip orbPort).bind fun _ => .pure _
  | qpid => exact .pure _
  | rti => exact .pure _
  | ospl => exact .pure _
  | noMiddleware => exact .pure _

theorem constructPort (ip : Text) (orbPort : Option ℕ) (msg : NodeManager.Port) :
    Preserves I (constructPort name ip orbPort msg) := by
  unfold EnvironmentManager.constructPort
  refine .ite (.pure _) ((h.toLabelStable.newPort msg).bind fun p => .tryCatch ?_ fun _ => ?_)
  · exact (h.takePorts ip orbPort p).bind fun _ => Preserves.read.bind fun _ =>
      .ite (.pure _) ((h.toLabelStable.failPort p).bind fun _ => .pure _)
  · exact (h.toLabelStable.failPort p).bind fun _ => .pure _

theorem destroyComponent (k : Component) : Preserves I (k.destroy externalPorts name) :=
  .forM h.destroyPort

theorem destroyMembers (ip : Text) (c : Container) :
    Preserves I (c.destroyMembers externalPorts name ip) := by
  unfold Container.destroyMembers
  refine Preserves.bind (.forM ?_) fun _ => .forM h.destroyComponent
  exact fun l => h.freePort ip l.publisherPort

theorem destroyContainer (ip : Text) (c : Container) :
    Preserves I (c.destroy externalPorts name ip) := by
  unfold Container.destroy
  exact .ite ((h.freePort ip c.orbPort).bind fun _ => h.destroyMembers ip c)
    (h.destroyMembers ip c)

theorem destroyNode (n : Node) : Preserves I (n.destroy externalPorts name) :=
  .forM (h.destroyContainer n.ip)

variable [HashOrder]

theorem emplacePort (k : Component) (id : Text) (p : Port) :
    Preserves I (k.emplacePort name id p) := by
  unfold Component.emplacePort
  refine .ite ?_ (.pure _)
  exact (LabelStable.liveExternalPorts name).bind fun _ => (h.destroyPort p).bind fun _ => .pure _

theorem constructComponent (ip : Text) (orbPort : Option ℕ) (msg : NodeManager.Component) :
    Preserves I (constructComponent name ip orbPort msg) := by
  unfold EnvironmentManager.constructComponent
  apply Preserves.foldlM
  rintro built port
  apply (h.constructPort ip built.2 port).bind
  rintro ⟨made, orbPort⟩
  cases made with
  | none => exact .pure _
  | some p => exact (h.emplacePort built.1 port.id p).bind fun _ => .pure _

theorem addComponent (ip : Text) (c : Container) (msg : NodeManager.Component) :
    Preserves I (Container.addComponent name ip c msg) := by
  refine (h.constructComponent ip c.orbPort msg).bind fun built => ?_
  unfold Container.emplaceComponent
  refine .ite ?_ (.pure _)
  exact (LabelStable.liveExternalPorts name).bind fun _ =>
    (h.destroyComponent built.1).bind fun _ => .pure _

theorem addLoggers (ip : Text) (c : Container) (msgs : List NodeManager.Logger) :
    Preserves I (addLoggers name ip c msgs) := by
  unfold EnvironmentManager.addLoggers
  refine .foldlM (fun c msg => .ite ?_ (.pure _)) c
  cases c.addLogger msg with
  | ok c => exact .pure _
  | error ex =>
    exact (LabelStable.liveExternalPorts name).bind fun _ =>
      (h.destroyMembers ip c).bind fun _ => .throw _

theorem constructContainer (ip : Text) (msg : NodeManager.Container) :
    Preserves I (constructContainer name ip msg) := by
  unfold EnvironmentManager.constructContainer
  exact (Preserves.foldlM (h.addComponent ip) _).bind fun _ => h.addLoggers ip _ _

theorem addContainer (n : Node) (msg : NodeManager.Container) :
    Preserves I (Node.addContainer name n msg) := by
  unfold Node.addContainer
  refine Preserves.bind (.tryCatch (h.constructContainer n.ip msg) fun _ => ?_) fun c =>
    .ite ?_ (.pure _)
  · exact (LabelStable.liveExternalPorts name).bind fun _ =>
      (h.destroyNode n).bind fun _ => .throw _
  · exact (LabelStable.liveExternalPorts name).bind fun _ =>
      (h.destroyContainer n.ip c).bind fun _ => .pure _

theorem constructNode (msg : NodeManager.Node) : Preserves I (constructNode name msg) := by
  unfold EnvironmentManager.constructNode
  exact .ite (.throw _) (.foldlM h.addContainer _)

end Stable

/-! ## Cores -/

/-- The experiments without their marks and their external ports. -/
def cores (env : Environment) : Table Text Experiment := env.experimentMap.mapValues Experiment.core

theorem core_adjustIds (e : Experiment) (r : Role) (internalId : Text)
    (f : OrderedSet Text → OrderedSet Text) : (e.adjustIds r internalId f).core = e.core := rfl

/-- A mark for the next update is no part of the core. -/
theorem core_setDirty (e : Experiment) (path : PortPath) : (e.setDirty path).core = e.core :=
  Experiment.core_congr (e.unmark_setDirty path)

/-- A change outside the core of one experiment leaves all cores. -/
theorem cores_adjust (env : Environment) (name : Text) {f : Experiment → Experiment}
    (h : ∀ e, (f e).core = e.core) :
    cores { env with experimentMap := env.experimentMap.adjust name f } = cores env :=
  Table.mapValues_adjust h

theorem lookup_cores (env : Environment) (m : Text) :
    (cores env).lookup m = (env.experimentMap.lookup m).map Experiment.core :=
  Table.lookup_mapValues _ _ _

end Sem.EnvironmentManager

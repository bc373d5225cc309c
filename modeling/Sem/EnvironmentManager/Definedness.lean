import Sem.EnvironmentManager.Construction
import Sem.EnvironmentManager.EnvironmentLemmas
import Sem.Lib.Ledger

/-!
# Constructors and destructors return

The constructors of ports and components catch what is thrown in them, and destructors throw
nothing: from every state they return.

* `constructComponent_succeeds`, `Node.destroy_succeeds`: the programs.
-/

namespace Sem.EnvironmentManager

open Xml (Text)
open Throwing (NeverThrows Triple read update undefined)

/-- From every state the program returns. -/
abbrev Succeeds {α : Type} (p : Program α) : Prop :=
  Triple (fun _ => True) p (fun _ _ => True) fun _ => False

/-- From every state the program returns or throws. -/
abbrev Defined {α : Type} (p : Program α) : Prop :=
  Triple (fun _ => True) p (fun _ _ => True) fun _ => True

section Succeeds

variable {α β : Type} {p : Program α} (name : Text)

theorem Succeeds.defined (h : Succeeds p) : Defined p := h.noThrow

/-- A program that always returns does not throw. -/
theorem Succeeds.neverThrows (h : Succeeds p) : NeverThrows p := by
  intro s r s' _ hrun
  obtain ⟨r', t, hrun', hr⟩ := h trivial
  obtain ⟨rfl, rfl⟩ := Prod.mk.inj (Option.some.inj (hrun.symm.trans hrun'))
  exact hr

theorem succeeds_pure (a : α) : Succeeds (pure a : Program α) := .pure fun _ _ => trivial

theorem succeeds_update (f : Environment → Environment) : Succeeds (update f) :=
  .update fun _ _ => trivial

theorem defined_throw (ex : Exception) : Defined (throw ex : Program α) := .throw fun _ _ => trivial

theorem Defined.bind {k : α → Program β} (h : Defined p) (hk : ∀ a, Defined (k a)) :
    Defined (p >>= k) :=
  Triple.bind h hk

theorem Succeeds.bind {k : α → Program β} (h : Succeeds p) (hk : ∀ a, Succeeds (k a)) :
    Succeeds (p >>= k) :=
  Triple.bind h hk

theorem defined_read {k : Environment → Program β} (h : ∀ env, Defined (k env)) :
    Defined (read >>= k) :=
  .read fun env _ => (h env).pre fun _ _ => trivial

theorem succeeds_read {k : Environment → Program β} (h : ∀ env, Succeeds (k env)) :
    Succeeds (read >>= k) :=
  .read fun env _ => (h env).pre fun _ _ => trivial

/-- A handler that returns makes up for every exception. -/
theorem Defined.succeeds_tryCatch {handler : Exception → Program α} (h : Defined p)
    (hh : ∀ ex, Succeeds (handler ex)) : Succeeds (tryCatch p handler) :=
  .tryCatch h hh

theorem succeeds_forM {f : β → Program Unit} (h : ∀ b, Succeeds (f b)) (l : List β) :
    Succeeds (l.forM f) :=
  .forM_const fun b _ => h b

theorem defined_forM {f : β → Program Unit} (h : ∀ b, Defined (f b)) (l : List β) :
    Defined (l.forM f) :=
  .forM_const fun b _ => h b

/-- `at` throws where there is no experiment. -/
theorem getExperimentInternal_defined : Defined (getExperimentInternal name) := by
  refine defined_read fun env => ?_
  cases env.experimentMap.lookup name with
  | none => exact defined_throw _
  | some e => exact (succeeds_pure e).defined

theorem modifyExperiment_succeeds (f : Experiment → Experiment) :
    Succeeds (modifyExperiment name f) :=
  succeeds_update _

/-- A port tracker without ports throws, and so does a node that is not known. -/
theorem getPort_defined (ip : Text) : Defined (getPort ip) := by
  refine defined_read fun env => ?_
  cases env.nodeMap.lookup ip with
  | none => exact defined_throw _
  | some tracker =>
    dsimp only
    cases tracker.availablePorts with
    | nil => exact (succeeds_pure none).defined
    | cons p ps => exact (succeeds_update _).defined.bind fun _ => (succeeds_pure _).defined

/-- A port is freed also where none was taken. -/
theorem freePort_succeeds (ip : Text) (port : Option ℕ) : Succeeds (freePort ip port) := by
  cases port with
  | none => exact succeeds_pure _
  | some p => exact succeeds_update _

/-- The experiment or the port may be gone. -/
theorem setPortDirty_defined (portId : Text) : Defined (setPortDirty name portId) := by
  refine (getExperimentInternal_defined name).bind fun e => ?_
  cases e.findPort portId with
  | none => exact defined_throw _
  | some path => exact (succeeds_update _).defined

theorem updatePort_defined (label : Text) : Defined (updatePort name label) := by
  refine (getExperimentInternal_defined name).bind fun e =>
    .ite (fun _ => ?_) fun _ => (succeeds_pure _).defined
  cases e.externalIdToInternalId.lookup label with
  | none => exact (succeeds_pure _).defined
  | some internalId =>
    dsimp only
    cases e.externalPorts.lookup internalId with
    | none => exact defined_throw _
    | some port => exact defined_forM (setPortDirty_defined name) _

theorem getSharedPort_defined (label : Text) : Defined (getSharedPort label) := by
  refine defined_read fun env => ?_
  cases env.externalEventportMap.lookup label with
  | none => exact defined_throw _
  | some port => exact (succeeds_pure port).defined

theorem updateConsumers_defined (label : Text) : Defined (updateConsumers label) :=
  (getSharedPort_defined label).bind fun _ => defined_forM (fun consumer =>
    (getExperimentInternal_defined consumer).bind fun _ => updatePort_defined consumer label) _

theorem Experiment.addExternalPort_succeeds (r : Role) (internalId portId : Text) :
    Succeeds (Experiment.addExternalPort r name internalId portId) := by
  refine Defined.succeeds_tryCatch ((getExperimentInternal_defined name).bind fun e => ?_)
    fun _ => succeeds_pure _
  cases e.externalPorts.lookup internalId with
  | none => exact defined_throw _
  | some port =>
    refine Defined.bind ?_ fun _ => (modifyExperiment_succeeds name _).defined
    cases r with
    | producer =>
      exact (succeeds_update _).defined.bind fun _ => updateConsumers_defined port.externalLabel
    | consumer => exact (succeeds_update _).defined

variable (externalPorts : Table Text ExternalPort)

/-- A port that was not registered is passed over. -/
theorem Experiment.removeExternalPort_succeeds (r : Role) (internalId portId : Text) :
    Succeeds (Experiment.removeExternalPort r externalPorts name internalId portId) := by
  refine Defined.succeeds_tryCatch ?_ fun _ => succeeds_pure _
  cases externalPorts.lookup internalId with
  | none => exact defined_throw _
  | some port =>
    refine Defined.bind ?_ fun _ => (modifyExperiment_succeeds name _).defined
    cases r with
    | producer =>
      exact (getSharedPort_defined _).bind fun _ => (succeeds_update _).defined.bind fun _ =>
        updateConsumers_defined _
    | consumer => exact (getSharedPort_defined _).bind fun _ => (succeeds_update _).defined

theorem liveExternalPorts_succeeds : Succeeds (liveExternalPorts name) :=
  succeeds_read fun _ => succeeds_pure _

theorem Port.unregister_succeeds (p : Port) : Succeeds (p.unregister externalPorts name) := by
  unfold Port.unregister
  cases role p.kind with
  | none => exact succeeds_pure _
  | some r =>
    exact succeeds_forM
      (fun id => Experiment.removeExternalPort_succeeds name externalPorts r id p.id) _

/-- Destructors return whatever is still registered. -/
theorem Port.destroy_succeeds (p : Port) : Succeeds (p.destroy externalPorts name) := by
  unfold Port.destroy
  refine .ite (fun _ => ?_) fun _ => p.unregister_succeeds name externalPorts
  exact (freePort_succeeds p.ip p.producerPort).bind fun _ =>
    p.unregister_succeeds name externalPorts

theorem Component.destroy_succeeds (k : Component) : Succeeds (k.destroy externalPorts name) :=
  succeeds_forM (Port.destroy_succeeds name externalPorts) _

theorem Container.destroy_succeeds (ip : Text) (c : Container) :
    Succeeds (c.destroy externalPorts name ip) := by
  have hmembers : Succeeds (c.destroyMembers externalPorts name ip) :=
    (succeeds_forM (fun l => freePort_succeeds ip (Logger.publisherPort l)) _).bind fun _ =>
      succeeds_forM (Component.destroy_succeeds name externalPorts) _
  exact .ite (fun _ => (freePort_succeeds _ _).bind fun _ => hmembers) fun _ => hmembers

theorem Node.destroy_succeeds (n : Node) : Succeeds (n.destroy externalPorts name) :=
  succeeds_forM (Container.destroy_succeeds name externalPorts n.ip) _

theorem newPort_succeeds (msg : NodeManager.Port) : Succeeds (newPort name msg) := by
  unfold newPort
  cases role msg.kind with
  | none => exact succeeds_pure _
  | some r =>
    exact (succeeds_forM (fun id => Experiment.addExternalPort_succeeds name r id msg.id) _).bind
      fun _ => succeeds_pure _

theorem failPort_succeeds (p : Port) : Succeeds (failPort name p) :=
  (liveExternalPorts_succeeds name).bind fun externalPorts =>
    (p.unregister_succeeds name externalPorts).bind fun _ => succeeds_pure _

theorem takePorts_defined (ip : Text) (orbPort : Option ℕ) (p : Port) :
    Defined (takePorts ip orbPort p) := by
  unfold takePorts
  cases p.middleware with
  | zmq =>
    refine .ite (fun _ => ?_) fun _ => (succeeds_pure _).defined
    exact (getPort_defined ip).bind fun _ => (succeeds_pure _).defined
  | tao =>
    refine Defined.bind ?_ fun _ => (succeeds_pure _).defined
    cases orbPort with
    | none => exact getPort_defined ip
    | some port => exact (succeeds_pure _).defined
  | _ => exact (succeeds_pure _).defined

/-- `Port::ConstructPort` turns every exception into no port. -/
theorem constructPort_succeeds (ip : Text) (orbPort : Option ℕ) (msg : NodeManager.Port) :
    Succeeds (constructPort name ip orbPort msg) := by
  unfold constructPort
  refine .ite (fun _ => succeeds_pure _) fun _ => (newPort_succeeds name msg).bind fun p =>
    Defined.succeeds_tryCatch ?_ fun _ => (failPort_succeeds name p).bind fun _ => succeeds_pure _
  refine (takePorts_defined ip orbPort p).bind fun _ => defined_read fun _ =>
    .ite (fun _ => (succeeds_pure _).defined) fun _ => ?_
  exact (failPort_succeeds name p).defined.bind fun _ => (succeeds_pure _).defined

theorem constructComponent_succeeds [HashOrder] (ip : Text) (orbPort : Option ℕ)
    (msg : NodeManager.Component) : Succeeds (constructComponent name ip orbPort msg) := by
  unfold constructComponent
  refine .foldlM (fun _ _ _ => True) (fun port _ built => ?_) _ _
  refine (constructPort_succeeds name ip built.2 port).bind ?_
  rintro ⟨made, orbPort⟩
  cases made with
  | none => exact succeeds_pure _
  | some p =>
    refine Succeeds.bind ?_ fun _ => succeeds_pure _
    refine .ite (fun _ => ?_) fun _ => succeeds_pure _
    exact (liveExternalPorts_succeeds name).bind fun externalPorts =>
      (p.destroy_succeeds name externalPorts).bind fun _ => succeeds_pure _

end Succeeds

end Sem.EnvironmentManager

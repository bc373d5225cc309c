import Mathlib.Data.Finset.Card
import Sem.EnvironmentManager.Holdings
import Sem.EnvironmentManager.Server
import Sem.EnvironmentManager.Stable

/-!
# What is deployed where

The plan of an experiment: which containers its nodes have, and the ids of the components and
loggers in these. Building and destroying objects, marking them and assigning network ports leave
the plan as it is; it changes where an object is put in its place.

* `stable_planOf`: constructors and destructors.
* `getProto_keeps`: reading an experiment.
-/

namespace Sem.EnvironmentManager

open Xml (Text)
open Throwing (Keeps read update undefined)

/-- The keys of a container's maps. -/
structure ContainerPlan where
  components : Finset Text
  loggers : Finset Text

/-- A node, without what can change while components are placed. -/
@[ext] structure NodePlan where
  ip : Text
  implicitContainerId : Text
  containers : Text → Option ContainerPlan
  deployedComponentCount : ℕ

/-- The nodes of an experiment by their addresses. -/
abbrev Plan := Text → Option NodePlan

/-- The keys of the components and of the loggers. -/
def Container.plan (c : Container) : ContainerPlan :=
  ⟨c.components.keys.toFinset, c.loggers.keys.toFinset⟩

/-- The plans of the containers, and how many components there are. -/
def Node.plan (n : Node) : NodePlan where
  ip := n.ip
  implicitContainerId := n.implicitContainerId
  containers key := (n.containers.lookup key).map Container.plan
  deployedComponentCount := n.getDeployedComponentCount

/-- The plans of the nodes, by their addresses. -/
def Experiment.plan (e : Experiment) : Plan := fun ip => (e.nodes.lookup ip).map Node.plan

/-- The plan of a registered experiment. -/
def planOf (name : Text) (env : Environment) : Option Plan :=
  (env.experimentMap.lookup name).map Experiment.plan

theorem Container.mem_plan_components {c : Container} {id : Text} :
    id ∈ c.plan.components ↔ id ∈ c.components :=
  List.mem_toFinset

theorem Container.mem_plan_loggers {c : Container} {id : Text} :
    id ∈ c.plan.loggers ↔ id ∈ c.loggers :=
  List.mem_toFinset

/-! ## Changes that the plan does not see -/

/-- The plan depends on the ids only. -/
theorem Container.plan_congr {c c' : Container} (hcomponents : c'.components.keys = c.components.keys)
    (hloggers : c'.loggers.keys = c.loggers.keys) : c'.plan = c.plan := by
  rw [plan, plan, hcomponents, hloggers]

theorem Container.plan_unmark (c : Container) : c.unmark.plan = c.plan :=
  plan_congr (Table.keys_mapValues _ _) rfl

/-- The number of components is that of the plan. -/
theorem Container.getDeployedComponentCount_eq (c : Container) :
    c.getDeployedComponentCount = c.plan.components.card :=
  (List.toFinset_card_of_nodup c.components.nodupKeys).symm

theorem Container.getDeployedComponentCount_congr {c c' : Container} (h : c'.plan = c.plan) :
    c'.getDeployedComponentCount = c.getDeployedComponentCount := by
  rw [getDeployedComponentCount_eq, h, getDeployedComponentCount_eq]

theorem Node.plan_unmark (n : Node) : n.unmark.plan = n.plan := by
  have hcount : n.unmark.getDeployedComponentCount = n.getDeployedComponentCount := by
    simp only [getDeployedComponentCount, unmark, Table.values_mapValues, List.map_map]
    congr 1
    exact List.map_congr_left fun c _ => Container.getDeployedComponentCount_congr c.plan_unmark
  have hcontainers : n.unmark.plan.containers = n.plan.containers := by
    funext key
    simp only [plan, unmark, Table.lookup_mapValues, Option.map_map]
    congr 1
    funext c
    exact c.plan_unmark
  exact NodePlan.ext rfl rfl hcontainers hcount

theorem Experiment.plan_unmark (e : Experiment) : e.unmark.plan = e.plan := by
  funext ip
  simp only [plan, unmark, Table.lookup_mapValues, Option.map_map]
  congr 1
  funext n
  exact n.plan_unmark

theorem Experiment.plan_setDirty (e : Experiment) (path : PortPath) :
    (e.setDirty path).plan = e.plan := by
  rw [← plan_unmark, unmark_setDirty, plan_unmark]

/-- A change of a container that the plan does not see. -/
theorem Node.plan_adjust_same {f : Container → Container} (h : ∀ c, (f c).plan = c.plan) (n : Node)
    (key : Text) : ({ n with containers := n.containers.adjust key f } : Node).plan = n.plan := by
  refine NodePlan.ext rfl rfl ?_ ?_
  · funext key'
    show ((n.containers.adjust key f).lookup key').map Container.plan = _
    rw [Table.lookup_adjust]
    split
    · rw [Option.map_map]
      exact congrArg (fun g => (n.containers.lookup key').map g) (funext h)
    · rfl
  · exact congrArg List.sum (Table.map_values_adjust fun c =>
      Container.getDeployedComponentCount_congr (h c))

theorem Experiment.plan_adjust_same {f : Node → Node} (h : ∀ n, (f n).plan = n.plan)
    (e : Experiment) (ip : Text) :
    ({ e with nodes := e.nodes.adjust ip f } : Experiment).plan = e.plan := by
  funext ip'
  show ((e.nodes.adjust ip f).lookup ip').map Node.plan = _
  rw [Table.lookup_adjust]
  split
  · rw [Option.map_map]
    exact congrArg (fun g => (e.nodes.lookup ip').map g) (funext h)
  · rfl

theorem Experiment.plan_adjustContainer_same {f : Container → Container}
    (h : ∀ c, (f c).plan = c.plan) (e : Experiment) (ip key : Text) :
    (e.adjustContainer ip key f).plan = e.plan :=
  e.plan_adjust_same (fun n => n.plan_adjust_same h key) ip

/-! ## Changing the experiment -/

section Adjust

variable {name m : Text}

/-- A change that the plan does not show, of whichever experiment. -/
theorem planOf_adjust (env : Environment) {f : Experiment → Experiment}
    (h : ∀ e, (f e).plan = e.plan) :
    planOf name { env with experimentMap := env.experimentMap.adjust m f } = planOf name env := by
  simp only [planOf, Table.lookup_adjust]
  split
  · rw [Option.map_map]
    congr 1
    funext e
    exact h e
  · rfl

theorem modifyExperiment_keeps {f : Experiment → Experiment} (h : ∀ e, (f e).plan = e.plan) :
    Keeps (planOf name) (modifyExperiment m f) :=
  .update fun env => planOf_adjust env h

theorem getExperimentInternal_keeps : Keeps (planOf name) (getExperimentInternal m) := by
  refine Keeps.read.bind fun env => ?_
  cases env.experimentMap.lookup m with
  | none => exact .throw _
  | some e => exact .pure e

/-- Labels, ids, marks and ports are no part of the plan. -/
theorem stable_planOf (m : Text) (plan : Option Plan) :
    Stable m fun env => planOf name env = plan where
  labels _ _ := id
  ids env r internalId f h := by
    rwa [planOf_adjust env fun e => (rfl : (e.adjustIds r internalId f).plan = e.plan)]
  mark env _ _ path _ _ _ h := (planOf_adjust env fun e => e.plan_setDirty path).trans h
  nodeMap _ _ _ := id

theorem getPort_keeps (ip : Text) : Keeps (planOf name) (getPort ip) :=
  .of_preserves fun plan => (stable_planOf name plan).getPort ip

/-! ## Constructors and destructors -/

theorem liveExternalPorts_keeps : Keeps (planOf name) (liveExternalPorts m) :=
  Keeps.read.bind fun _ => .pure _

variable {externalPorts : Table Text ExternalPort}

theorem Component.destroy_keeps (k : Component) :
    Keeps (planOf name) (k.destroy externalPorts m) :=
  .of_preserves fun plan => (stable_planOf m plan).destroyComponent k

theorem Container.destroy_keeps (ip : Text) (c : Container) :
    Keeps (planOf name) (c.destroy externalPorts m ip) :=
  .of_preserves fun plan => (stable_planOf m plan).destroyContainer ip c

section Build

variable [HashOrder]

theorem constructComponent_keeps (ip : Text) (orbPort : Option ℕ) (msg : NodeManager.Component) :
    Keeps (planOf name) (constructComponent m ip orbPort msg) :=
  .of_preserves fun plan => (stable_planOf m plan).constructComponent ip orbPort msg

theorem constructContainer_keeps (ip : Text) (msg : NodeManager.Container) :
    Keeps (planOf name) (constructContainer m ip msg) :=
  .of_preserves fun plan => (stable_planOf m plan).constructContainer ip msg

theorem constructNode_keeps (msg : NodeManager.Node) :
    Keeps (planOf name) (constructNode m msg) :=
  .of_preserves fun plan => (stable_planOf m plan).constructNode msg

end Build

/-! ## Reading an experiment -/

theorem catchRuntimeError_keeps {p : Program Unit} (h : Keeps (planOf name) p) :
    Keeps (planOf name) (catchRuntimeError p) :=
  .tryCatch h fun _ => .ite (.pure _) (.throw _)

/-- A port that a logger gets when it is read is not in the plan. -/
theorem getPublisherPort_keeps (ip container logger : Text) :
    Keeps (planOf name) (getPublisherPort m ip container logger) := by
  refine getExperimentInternal_keeps.bind fun e => ?_
  cases e.getLogger ip container logger with
  | none => exact .throw _
  | some found =>
    refine .ite (.ite (.throw _) (.ite (.throw _) (.ite (.throw _) ?_))) (.pure _)
    refine (getPort_keeps ip).bind fun port => modifyExperiment_keeps fun e => ?_
    apply e.plan_adjustContainer_same
    exact fun c => Container.plan_congr rfl (Table.keys_adjust _ _ _)

theorem readLogger_keeps (ip container logger : Text) :
    Keeps (planOf name) (readLogger m ip container logger) := by
  refine getExperimentInternal_keeps.bind fun e => ?_
  cases e.getLogger ip container logger with
  | none => exact .pure _
  | some found =>
    obtain ⟨c, l⟩ := found
    dsimp only
    cases l.type with
    | server => exact .forM fun _ => .forM fun _ =>
        catchRuntimeError_keeps (getPublisherPort_keeps _ _ _)
    | client => exact catchRuntimeError_keeps (getPublisherPort_keeps _ _ _)
    | model => exact catchRuntimeError_keeps (getPublisherPort_keeps _ _ _)
    | experiment => exact catchRuntimeError_keeps (getPublisherPort_keeps _ _ _)
    | none => exact .pure _

theorem readLoggers_keeps (full : Bool) : Keeps (planOf name) (readLoggers m full) :=
  getExperimentInternal_keeps.bind fun _ =>
    .ite (.forM fun _ => readLogger_keeps _ _ _) (.pure _)

theorem getMasterPublisherAddress_keeps : Keeps (planOf name) (getMasterPublisherAddress m) := by
  refine getExperimentInternal_keeps.bind fun e => .ite ?_ (.pure _)
  exact (getPort_keeps _).bind fun _ => modifyExperiment_keeps fun _ => rfl

theorem getMasterRegistrationAddress_keeps :
    Keeps (planOf name) (getMasterRegistrationAddress m) := by
  refine getExperimentInternal_keeps.bind fun e => .ite ?_ (.pure _)
  exact (getPort_keeps _).bind fun _ => modifyExperiment_keeps fun _ => rfl

theorem Container.plan_clearDirty (full : Bool) (c : Container) :
    (c.clearDirty full).plan = c.plan := by
  unfold Container.clearDirty
  split
  · exact Container.plan_congr (Table.keys_mapValues _ _) rfl
  · rfl

theorem Node.plan_clearDirty (full : Bool) (n : Node) : (n.clearDirty full).plan = n.plan := by
  unfold Node.clearDirty
  split
  · refine NodePlan.ext rfl rfl ?_ ?_
    · funext key
      show ((n.containers.mapValues (·.clearDirty full)).lookup key).map Container.plan = _
      rw [Table.lookup_mapValues, Option.map_map]
      exact congrArg (fun g => (n.containers.lookup key).map g)
        (funext (Container.plan_clearDirty full))
    · show ((n.containers.mapValues (·.clearDirty full)).values.map _).sum = _
      rw [Table.values_mapValues, List.map_map]
      exact congrArg (fun g => (n.containers.values.map g).sum) (funext fun c =>
        Container.getDeployedComponentCount_congr (c.plan_clearDirty full))
  · rfl

theorem Experiment.plan_clearDirty (full : Bool) (e : Experiment) :
    (e.clearDirty full).plan = e.plan := by
  unfold Experiment.clearDirty
  split
  · rfl
  · funext ip
    show ((e.nodes.mapValues (·.clearDirty full)).lookup ip).map Node.plan = _
    rw [Table.lookup_mapValues, Option.map_map]
    exact congrArg (fun g => (e.nodes.lookup ip).map g) (funext (Node.plan_clearDirty full))

/-- Reading an experiment marks it clean and may give its loggers ports. -/
theorem getProto_keeps (full : Bool) : Keeps (planOf name) (getProto m full) := by
  refine getExperimentInternal_keeps.bind fun e => .ite (.ite ?_ ?_) (.pure _)
  · exact (modifyExperiment_keeps (Experiment.plan_clearDirty full)).bind fun _ => .pure _
  · exact (readLoggers_keeps full).bind fun _ => getMasterPublisherAddress_keeps.bind fun _ =>
      getMasterRegistrationAddress_keeps.bind fun _ =>
        (modifyExperiment_keeps (Experiment.plan_clearDirty full)).bind fun _ => .pure _

end Adjust

end Sem.EnvironmentManager

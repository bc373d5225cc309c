import Sem.EnvironmentManager.ContainerLoggers
import Sem.EnvironmentManager.Definedness
import Sem.Lib.Balance

/-!
# Distribution of an implicit container

`DistributeContainerToImplicitNodeContainers` gives each component of a cluster's implicit
container to the implicit container of a node that deploys the fewest components, and counts anew
before the next one. `containers_.at` throws when the node has no implicit container, and
`components_.emplace` drops a component whose id is taken.

* `distributed_of_reach`: else every component comes to one node, and the nodes that got one are at
  most one above the others.
* `not_distributed`: the two cases.
-/

namespace Sem.EnvironmentManager

open Xml (Text)
open NodeManager (LoggerType)
open Throwing (Keeps Returns Triple read update undefined)

/-- A logger of a distributed container. -/
def distributeLogger [HashOrder] (name : Text) (logger : NodeManager.Logger) : Program Unit :=
  match logger.type with
  | .client => addLoggingClientToNodes name logger
  | .server => addLoggingServerToImplicitContainer name logger
  | .none | .model | .experiment => pure ()

/-- `Environment::DistributeContainerToImplicitNodeContainers`. -/
def distributeContainerToImplicitNodeContainers [HashOrder] (name : Text)
    (container : NodeManager.Container) : Program Unit := do
  container.components.forM (addComponentToImplicitContainer name)
  container.loggers.forM (distributeLogger name)

/-- The calls of `PopulateExperiment` for the container. -/
theorem distributeJobs_forM [HashOrder] (name : Text) (container : NodeManager.Container) :
    container.distributeJobs.forM (runJob name) =
      distributeContainerToImplicitNodeContainers name container := by
  unfold NodeManager.Container.distributeJobs distributeContainerToImplicitNodeContainers
  rw [Throwing.forM_append, Throwing.forM_map]
  congr 1
  funext _
  induction container.loggers with
  | nil => rfl
  | cons l ls ih =>
    have hcons : ∀ f : NodeManager.Logger → Program Unit,
        (l :: ls).forM f = f l >>= fun _ => ls.forM f := fun _ => rfl
    rw [hcons, ← ih, distributeLogger]
    cases htype : l.type <;> simp [htype] <;> rfl

/-! ## The calls return -/

section Calls

variable {name : Text} {env : Environment} {e : Experiment} {n : Node} {k : Container}

/-- What follows the lookup of an experiment that is there. -/
theorem succeeds_getExperimentInternal {p : Experiment → Program Unit}
    (he : env.experimentMap.lookup name = some e) (hp : Succeeds (p e)) :
    ∃ env', (getExperimentInternal name >>= p) env = some (.ok (), env') := by
  rw [Throwing.bind_ok (getExperimentInternal_some he)]
  obtain ⟨r, env', hrun, hr⟩ := hp trivial
  cases r with
  | ok u => exact ⟨env', hrun⟩
  | error ex => exact absurd hr id

variable [HashOrder]

/-- A component is added wherever the least deployed node has its implicit container. -/
theorem exists_addComponent (he : env.experimentMap.lookup name = some e)
    (hleast : e.getLeastDeployedToNode false = some n)
    (hk : n.containers.lookup n.implicitContainerId = some k) (msg : NodeManager.Component) :
    ∃ env', addComponentToImplicitContainer name msg env = some (.ok (), env') := by
  refine succeeds_getExperimentInternal he ?_
  rw [hleast]
  dsimp only
  rw [hk]
  refine (constructComponent_succeeds name n.ip k.orbPort msg).bind fun built =>
    (modifyExperiment_succeeds name _).bind fun _ => .ite (fun _ => ?_) fun _ =>
      modifyExperiment_succeeds name _
  exact (liveExternalPorts_succeeds name).bind fun externalPorts =>
    built.1.destroy_succeeds name externalPorts

/-- Loggers of a known type are added. -/
theorem addLoggerTo_succeeds {msg : NodeManager.Logger}
    (htype : msg.type = .client ∨ msg.type = .server) (ip key : Text) :
    Succeeds (addLoggerTo name ip key k msg) := by
  unfold addLoggerTo
  rw [Container.addLogger_eq]
  obtain htype | htype := htype <;> simp only [newLogger, htype] <;>
    exact modifyExperiment_succeeds name _

/-- A client is added to every node. -/
theorem exists_addLoggingClientToNodes (he : env.experimentMap.lookup name = some e)
    (himplicit : ∀ n ∈ e.nodes.values, n.implicitContainerId ∈ n.containers)
    {msg : NodeManager.Logger} (htype : msg.type = .client) :
    ∃ env', addLoggingClientToNodes name msg env = some (.ok (), env') := by
  refine succeeds_getExperimentInternal he (.forM_const fun entry hentry => ?_)
  have hmem := himplicit entry.2 (List.mem_map.mpr ⟨entry, hentry, rfl⟩)
  obtain ⟨k, hk⟩ := Option.ne_none_iff_exists'.mp (mt AList.lookup_eq_none.mp (not_not.mpr hmem))
  unfold addLoggingClient
  rw [hk]
  refine .ite (fun _ => addLoggerTo_succeeds (.inl htype) _ _) fun _ => ?_
  cases entry.2.containers.entries.find? fun c => c.2.getDeployedComponentCount ≠ 0 with
  | none => exact succeeds_pure _
  | some found => exact addLoggerTo_succeeds (.inl htype) _ _

/-- A server is added to the least deployed node with components. -/
theorem exists_addLoggingServer (he : env.experimentMap.lookup name = some e)
    (hleast : e.getLeastDeployedToNode true = some n)
    (hk : n.containers.lookup n.implicitContainerId = some k) {msg : NodeManager.Logger}
    (htype : msg.type = .server) :
    ∃ env', addLoggingServerToImplicitContainer name msg env = some (.ok (), env') := by
  refine succeeds_getExperimentInternal he ?_
  rw [hleast]
  dsimp only
  rw [hk]
  exact addLoggerTo_succeeds (.inr htype) _ _

end Calls

/-! ## Plans with more components -/

/-- The components `ids` came to the implicit container. -/
structure NodePlan.Extends (ids : List Text) (n n' : NodePlan) : Prop where
  implicitContainerId : n'.implicitContainerId = n.implicitContainerId
  implicit : n.containers n.implicitContainerId ≠ none
  containers : ∀ key, Option.Rel (fun c c' : ContainerPlan => ∀ id, id ∈ c'.components ↔
    key = n.implicitContainerId ∧ id ∈ ids ∨ id ∈ c.components)
    (n.containers key) (n'.containers key)
  deployedComponentCount : n'.deployedComponentCount = n.deployedComponentCount + ids.length

/-- The components came to the nodes that they are paired with. -/
def Plan.Extends (placed : List (Text × Text)) (plan plan' : Plan) : Prop :=
  ∀ ip, Option.Rel (NodePlan.Extends (itemsAt placed ip)) (plan ip) (plan' ip)

/-- There is a node, and every node has its implicit container. -/
structure Plan.Distributable (plan : Plan) : Prop where
  node : ∃ ip, plan ip ≠ none
  implicit : ∀ ip n, plan ip = some n → n.containers n.implicitContainerId ≠ none

section Extends

variable {plan plan' plan'' : Plan} {placed : List (Text × Text)} {ip id : Text}
  {n n' n'' : NodePlan} {c : ContainerPlan} {ids : List Text}

theorem NodePlan.extends_nil (h : n.containers n.implicitContainerId ≠ none) :
    n.Extends [] n where
  implicitContainerId := rfl
  implicit := h
  containers key := rel_refl (fun _ _ => by simp) _
  deployedComponentCount := rfl

/-- Loggers may come in between. -/
theorem NodePlan.Extends.grows (h : n.Extends ids n') (hgrows : n'.Grows n'') :
    n.Extends ids n'' where
  implicitContainerId := hgrows.implicitContainerId.trans h.implicitContainerId
  implicit := h.implicit
  containers key := rel_trans (h.containers key) (hgrows.containers key)
    fun c c' c'' hc hcontainer id => by rw [hcontainer.components, hc]
  deployedComponentCount := hgrows.deployedComponentCount.trans h.deployedComponentCount

theorem NodePlan.Extends.implicit' (h : n.Extends ids n') :
    n'.containers n'.implicitContainerId ≠ none := by
  obtain ⟨c, hc⟩ := Option.ne_none_iff_exists'.mp h.implicit
  obtain ⟨c', hc', -⟩ := exists_after_of_rel (h.containers n.implicitContainerId) hc
  rw [h.implicitContainerId, hc']
  exact Option.some_ne_none c'

/-- A component that the implicit container did not have. -/
theorem NodePlan.Extends.addComponent (h : n.Extends ids n')
    (hc : n'.containers n'.implicitContainerId = some c) (hnew : id ∉ c.components) :
    n.Extends (ids ++ [id]) (n'.putContainer n'.implicitContainerId c (c.addComponent id)) := by
  refine ⟨h.implicitContainerId, h.implicit, fun key => ?_, ?_⟩
  · show Option.Rel _ _ (Function.update n'.containers n'.implicitContainerId
      (some (c.addComponent id)) key)
    by_cases heq : key = n'.implicitContainerId
    · subst heq
      obtain ⟨c₀, hc₀, hmem⟩ := exists_before_of_rel (h.containers _) hc
      rw [Function.update_self, hc₀]
      refine .some fun id' => ?_
      rw [ContainerPlan.mem_addComponent, hmem, List.mem_append, List.mem_singleton]
      have := h.implicitContainerId
      tauto
    · rw [Function.update_of_ne heq]
      refine rel_trans (h.containers key) (rel_refl (r := Eq) (fun _ => rfl) _) ?_
      rintro c₀ c₁ _ hmem rfl id'
      have hne : key ≠ n.implicitContainerId := h.implicitContainerId ▸ heq
      rw [hmem]
      simp [hne]
  · show n'.deployedComponentCount + (c.addComponent id).components.card - c.components.card = _
    rw [ContainerPlan.addComponent, Finset.card_insert_of_notMem hnew, h.deployedComponentCount,
      List.length_append]
    simp only [List.length_cons, List.length_nil]
    omega

/-- Before the first component nothing has been placed. -/
theorem Plan.Distributable.extends_nil (h : plan.Distributable) : plan.Extends [] plan := by
  intro ip
  cases hn : plan ip with
  | none => exact .none
  | some n => exact .some (NodePlan.extends_nil (h.implicit ip n hn))

theorem Plan.Extends.grows (h : plan.Extends placed plan') (hgrows : plan'.Grows plan'') :
    plan.Extends placed plan'' :=
  fun ip => rel_trans (h ip) (hgrows ip) fun _ _ _ => NodePlan.Extends.grows

/-- One more component on the node that it was placed on. -/
theorem Plan.Extends.addComponent (h : plan.Extends placed plan') (hn : plan' ip = some n)
    (hc : n.containers n.implicitContainerId = some c) (hnew : id ∉ c.components) :
    plan.Extends (placed ++ [(ip, id)]) (Function.update plan' ip
      (some (n.putContainer n.implicitContainerId c (c.addComponent id)))) := by
  intro ip'
  by_cases heq : ip' = ip
  · subst heq
    obtain ⟨n₀, hn₀, hext⟩ := exists_before_of_rel (h ip') hn
    rw [Function.update_self, hn₀, itemsAt_concat_self]
    exact .some (hext.addComponent hc hnew)
  · rw [Function.update_of_ne heq, itemsAt_concat_of_ne placed heq]
    exact h ip'

/-- The nodes keep their implicit containers. -/
theorem Plan.Distributable.of_extends (h : plan.Distributable) (hext : plan.Extends placed plan') :
    plan'.Distributable := by
  obtain ⟨ip, hip⟩ := h.node
  refine ⟨⟨ip, (ne_none_iff_of_rel (hext ip)).mpr hip⟩, fun ip' n' hn' => ?_⟩
  obtain ⟨n, -, hnode⟩ := exists_before_of_rel (hext ip') hn'
  exact hnode.implicit'

theorem Plan.Distributable.grows (h : plan.Distributable) (hgrows : plan.Grows plan') :
    plan'.Distributable :=
  h.of_extends (h.extends_nil.grows hgrows)

/-- How many components a node has. -/
def Plan.load (plan : Plan) (ip : Text) : ℕ :=
  ((plan ip).map NodePlan.deployedComponentCount).getD 0

/-- The load of a node is what it was and what was placed on it. -/
theorem Plan.Extends.load_eq (h : plan.Extends placed plan') (hn : plan' ip = some n) :
    n.deployedComponentCount = loadOf plan.load placed ip := by
  obtain ⟨n₀, hn₀, hext⟩ := exists_before_of_rel (h ip) hn
  rw [hext.deployedComponentCount, loadOf, Plan.load, hn₀]
  rfl

end Extends

/-! ## The loops -/

section Loops

variable {name : Text} {env : Environment} {e : Experiment}

/-- A node that is least exists as soon as there is a node. -/
theorem exists_least {n : Node} (hn : n ∈ e.nodes.values) (nonEmpty : Bool) :
    ∃ m, e.getLeastDeployedToNode nonEmpty = some m := by
  unfold Experiment.getLeastDeployedToNode
  cases hvalues : e.nodes.values with
  | nil =>
    rw [hvalues] at hn
    exact absurd hn List.not_mem_nil
  | cons m ms => exact ⟨_, rfl⟩

theorem Plan.Distributable.implicit_mem (h : e.plan.Distributable) :
    ∀ n ∈ e.nodes.values, n.implicitContainerId ∈ n.containers := by
  intro n hn
  obtain ⟨ip, hip⟩ := Table.mem_values.mp hn
  refine mem_containers_iff.mpr (h.implicit ip n.plan ?_)
  rw [Experiment.plan, hip, Option.map_some]

theorem Plan.Distributable.exists_node (h : e.plan.Distributable) : ∃ n, n ∈ e.nodes.values := by
  obtain ⟨ip, hip⟩ := h.node
  obtain ⟨n, hn, -⟩ := Option.map_eq_some_iff.mp (Option.ne_none_iff_exists'.mp hip).choose_spec
  exact ⟨n, Table.mem_values.mpr ⟨ip, hn⟩⟩

/-- Of the components to do, the others have come to nodes with the fewest. -/
structure Distributing (name : Text) (plan : Plan) (ids : List Text)
    (todo : List NodeManager.Component) (placed : List (Text × Text)) (e : Experiment)
    (env : Environment) : Prop where
  experiment : env.experimentMap.lookup name = some e
  keyed : e.plan.Keyed
  ids : placed.map Prod.snd ++ todo.map NodeManager.Component.id = ids
  extends_ : plan.Extends placed e.plan
  greedy : Greedy (fun ip => plan ip ≠ none) plan.load placed

variable {plan : Plan} {ids : List Text} {placed : List (Text × Text)}

/-- The implicit containers do not have the components. -/
def Fresh (plan : Plan) (ids : List Text) : Prop :=
  ∀ ip n c, plan ip = some n → n.containers n.implicitContainerId = some c →
    ∀ id ∈ ids, id ∉ c.components

variable [HashOrder]

/-- One component goes to a node with the least load. -/
theorem Distributing.step {msg : NodeManager.Component} {todo : List NodeManager.Component}
    (hnodup : ids.Nodup) (hfresh : Fresh plan ids) (hnode : ∃ ip, plan ip ≠ none)
    (h : Distributing name plan ids (msg :: todo) placed e env) :
    ∃ env' placed' e', addComponentToImplicitContainer name msg env = some (.ok (), env') ∧
      Distributing name plan ids todo placed' e' env' := by
  obtain ⟨n, hleast⟩ : ∃ n, e.getLeastDeployedToNode false = some n := by
    obtain ⟨ip, hip⟩ := hnode
    obtain ⟨n₀, hn₀⟩ := Option.ne_none_iff_exists'.mp hip
    obtain ⟨m, hm, -⟩ := exists_after_of_rel (h.extends_ ip) hn₀
    obtain ⟨n, hn, -⟩ := Option.map_eq_some_iff.mp hm
    exact exists_least (Table.mem_values.mpr ⟨ip, hn⟩) false
  have hn : e.plan n.ip = some n.plan := by
    rw [Experiment.plan, h.keyed.lookup_least hleast, Option.map_some]
  obtain ⟨n₀, hn₀, hext⟩ := exists_before_of_rel (h.extends_ n.ip) hn
  obtain ⟨k, hk⟩ : ∃ k, n.containers.lookup n.implicitContainerId = some k := by
    obtain ⟨c, hc⟩ := Option.ne_none_iff_exists'.mp hext.implicit'
    obtain ⟨k, hk, -⟩ := Option.map_eq_some_iff.mp hc
    exact ⟨k, hk⟩
  have hc : n.plan.containers n.plan.implicitContainerId = some k.plan := by
    show (n.containers.lookup n.implicitContainerId).map Container.plan = _
    rw [hk, Option.map_some]
  have hids := h.ids
  rw [List.map_cons] at hids
  have hnew : msg.id ∉ k.plan.components := by
    obtain ⟨c₀, hc₀, hmem⟩ := exists_before_of_rel (hext.containers _) hc
    rw [hmem, not_or]
    refine ⟨fun hitem => ?_, ?_⟩
    · -- it would be there twice
      have hplaced := List.mem_map_of_mem (f := Prod.snd) (mem_itemsAt.mp hitem.2)
      rw [← hids, List.nodup_append] at hnodup
      exact hnodup.2.2 _ hplaced _ List.mem_cons_self rfl
    · rw [hext.implicitContainerId] at hc₀
      exact hfresh n.ip n₀ c₀ hn₀ hc₀ _ (hids ▸ List.mem_append_right _ List.mem_cons_self)
  obtain ⟨env', hrun⟩ := exists_addComponent h.experiment hleast hk msg
  obtain ⟨n', k', hleast', hk', henv'⟩ :=
    addComponentToImplicitContainer_returns (fun _ => h.keyed.lookup_least) msg h.experiment hrun
  obtain rfl := Option.some.inj (hleast.symm.trans hleast')
  obtain rfl := Option.some.inj (hk.symm.trans hk')
  obtain ⟨e', he', hplan'⟩ := planOf_eq_some.mp henv'
  have hstep : PlanStep e (.addComponentToImplicitContainer msg) _ := .addComponent n k hleast hk
  have hkeyed := hstep.keyed h.keyed
  refine ⟨env', placed ++ [(n.ip, msg.id)], e', hrun, he', hplan' ▸ hkeyed, ?_, ?_, ?_⟩
  · rw [← hids, List.map_append]
    simp
  · rw [hplan']
    exact h.extends_.addComponent hn hc hnew
  · refine h.greedy.put n.ip msg.id (hn₀ ▸ Option.some_ne_none n₀) fun ip hip => ?_
    obtain ⟨m₀, hm₀⟩ := Option.ne_none_iff_exists'.mp hip
    obtain ⟨m, hm, -⟩ := exists_after_of_rel (h.extends_ ip) hm₀
    rw [← h.extends_.load_eq hn, ← h.extends_.load_eq hm]
    obtain ⟨m', hm', rfl⟩ := Option.map_eq_some_iff.mp hm
    exact getLeastDeployedToNode_le hleast (Table.mem_values.mpr ⟨ip, hm'⟩)

/-- By induction over the components that are still to be placed. -/
theorem Distributing.run (hnodup : ids.Nodup) (hfresh : Fresh plan ids)
    (hnode : ∃ ip, plan ip ≠ none) {todo : List NodeManager.Component}
    (h : Distributing name plan ids todo placed e env) :
    ∃ env' placed' e',
      todo.forM (addComponentToImplicitContainer name) env = some (.ok (), env') ∧
        Distributing name plan ids [] placed' e' env' := by
  induction todo generalizing env placed e with
  | nil => exact ⟨env, placed, e, rfl, h⟩
  | cons msg todo ih =>
    obtain ⟨env₁, placed₁, e₁, hrun₁, h₁⟩ := h.step hnodup hfresh hnode
    obtain ⟨env', placed', e', hrun, h'⟩ := ih h₁
    exact ⟨env', placed', e', (Throwing.bind_ok hrun₁).trans hrun, h'⟩

/-- Loggers of the container are added without moving a component. -/
theorem distributeLogger_run (he : env.experimentMap.lookup name = some e)
    (hkeyed : e.plan.Keyed) (hplan : e.plan.Distributable) (logger : NodeManager.Logger) :
    ∃ env' e', distributeLogger name logger env = some (.ok (), env') ∧
      env'.experimentMap.lookup name = some e' ∧ e.plan.Grows e'.plan := by
  have hskip : ∃ env' e', (pure () : Program Unit) env = some (.ok (), env') ∧
      env'.experimentMap.lookup name = some e' ∧ e.plan.Grows e'.plan :=
    ⟨env, e, rfl, he, .refl _⟩
  unfold distributeLogger
  cases htype : logger.type with
  | client =>
    obtain ⟨env', hrun⟩ := exists_addLoggingClientToNodes he hplan.implicit_mem htype
    obtain ⟨plan', henv', hgrows, -⟩ :=
      addLoggingClientToNodes_returns logger (planOf_eq_some.mpr ⟨e, he, rfl⟩) hrun
    obtain ⟨e', he', rfl⟩ := planOf_eq_some.mp henv'
    exact ⟨env', e', hrun, he', hgrows⟩
  | server =>
    obtain ⟨n₀, hn₀⟩ := hplan.exists_node
    obtain ⟨n, hleast⟩ := exists_least hn₀ true
    obtain ⟨k, hk⟩ := Option.ne_none_iff_exists'.mp
      (mt AList.lookup_eq_none.mp (not_not.mpr (hplan.implicit_mem n
        (getLeastDeployedToNode_mem hleast))))
    obtain ⟨env', hrun⟩ := exists_addLoggingServer he hleast hk htype
    obtain ⟨plan', henv', hgrows⟩ :=
      addLoggingServer_returns (fun _ => hkeyed.lookup_least) logger he hrun
    obtain ⟨e', he', rfl⟩ := planOf_eq_some.mp henv'
    exact ⟨env', e', hrun, he', hgrows⟩
  | _ => exact hskip

theorem distributeLoggers_run (he : env.experimentMap.lookup name = some e)
    (hkeyed : e.plan.Keyed) (hplan : e.plan.Distributable) (loggers : List NodeManager.Logger) :
    ∃ env' e', loggers.forM (distributeLogger name) env = some (.ok (), env') ∧
      env'.experimentMap.lookup name = some e' ∧ e.plan.Grows e'.plan := by
  induction loggers generalizing env e with
  | nil => exact ⟨env, e, rfl, he, .refl _⟩
  | cons logger loggers ih =>
    obtain ⟨env₁, e₁, hrun₁, he₁, hgrows₁⟩ := distributeLogger_run he hkeyed hplan logger
    obtain ⟨env', e', hrun, he', hgrows⟩ := ih he₁ (hkeyed.grows hgrows₁) (hplan.grows hgrows₁)
    exact ⟨env', e', (Throwing.bind_ok hrun₁).trans hrun, he', hgrows₁.trans hgrows⟩

end Loops

/-! ## The distribution -/

/-- The implicit container of the node has the component. -/
def Experiment.Deploys (e : Experiment) (ip id : Text) : Prop :=
  ∃ n c, e.nodes.lookup ip = some n ∧ n.containers.lookup n.implicitContainerId = some c ∧
    id ∈ c.components

/-- The components were distributed, evenly. -/
structure Distributed (components : List NodeManager.Component) (e e' : Experiment) : Prop where
  nodes : ∀ ip, ip ∈ e'.nodes ↔ ip ∈ e.nodes
  once : ∀ msg ∈ components, ∃! ip, e'.Deploys ip msg.id
  stays : ∀ ip id, e.Deploys ip id → e'.Deploys ip id
  comes : ∀ ip id, e'.Deploys ip id → e.Deploys ip id ∨ ∃ msg ∈ components, msg.id = id
  balanced : ∀ msg ∈ components, ∀ ip n, e'.Deploys ip msg.id → e'.nodes.lookup ip = some n →
    ∀ m ∈ e'.nodes.values, n.getDeployedComponentCount ≤ m.getDeployedComponentCount + 1

section Distribution

variable {e e' : Experiment} {placed : List (Text × Text)}

/-- A node deploys a component exactly if its plan has it in the implicit container. -/
theorem Experiment.deploys_iff {ip id : Text} : e.Deploys ip id ↔
    ∃ n c, e.plan ip = some n ∧ n.containers n.implicitContainerId = some c ∧
      id ∈ c.components := by
  constructor
  · rintro ⟨n, c, hn, hc, hid⟩
    refine ⟨n.plan, c.plan, ?_, ?_, Container.mem_plan_components.mpr hid⟩
    · rw [Experiment.plan, hn, Option.map_some]
    · show (n.containers.lookup n.implicitContainerId).map Container.plan = _
      rw [hc, Option.map_some]
  · rintro ⟨_, _, hn, hc, hid⟩
    obtain ⟨n, hnode, rfl⟩ := Option.map_eq_some_iff.mp hn
    obtain ⟨c, hcontainer, rfl⟩ := Option.map_eq_some_iff.mp hc
    exact ⟨n, c, hnode, hcontainer, Container.mem_plan_components.mp hid⟩

/-- An implicit container has what it had and what came to it. -/
theorem Plan.Extends.deploys_iff (h : e.plan.Extends placed e'.plan) {ip id : Text}
    (hplaced : (ip, id) ∈ placed → e.plan ip ≠ none) :
    e'.Deploys ip id ↔ e.Deploys ip id ∨ (ip, id) ∈ placed := by
  rw [Experiment.deploys_iff, Experiment.deploys_iff, ← mem_itemsAt]
  rw [← mem_itemsAt] at hplaced
  constructor
  · rintro ⟨n', c', hn', hc', hid⟩
    obtain ⟨n, hn, hext⟩ := exists_before_of_rel (h ip) hn'
    rw [hext.implicitContainerId] at hc'
    obtain ⟨c, hc, hmem⟩ := exists_before_of_rel (hext.containers _) hc'
    obtain ⟨-, hitem⟩ | hold := (hmem id).mp hid
    · exact .inr hitem
    · exact .inl ⟨n, c, hn, hc, hold⟩
  · intro hcase
    obtain ⟨n, c, hn, hc, hid⟩ : ∃ n c, e.plan ip = some n ∧
        n.containers n.implicitContainerId = some c ∧
          (id ∈ itemsAt placed ip ∨ id ∈ c.components) := by
      obtain ⟨n, c, hn, hc, hid⟩ | hitem := hcase
      · exact ⟨n, c, hn, hc, .inr hid⟩
      · obtain ⟨n, hn⟩ := Option.ne_none_iff_exists'.mp (hplaced hitem)
        obtain ⟨n', hn', hext⟩ := exists_after_of_rel (h ip) hn
        obtain ⟨c, hc⟩ := Option.ne_none_iff_exists'.mp hext.implicit
        exact ⟨n, c, hn, hc, .inl hitem⟩
    obtain ⟨n', hn', hext⟩ := exists_after_of_rel (h ip) hn
    obtain ⟨c', hc', hmem⟩ := exists_after_of_rel (hext.containers _) hc
    rw [← hext.implicitContainerId] at hc'
    exact ⟨n', c', hn', hc', (hmem id).mpr (hid.imp_left fun h => ⟨rfl, h⟩)⟩

theorem plan_ne_none_iff {ip : Text} : e.plan ip ≠ none ↔ ip ∈ e.nodes := by
  rw [Experiment.plan, Ne, Option.map_eq_none_iff, AList.lookup_eq_none, not_not]

/-- What the run has kept is the property at the end. -/
theorem Distributing.distributed {name : Text} {env : Environment} {e₁ : Experiment}
    {components : List NodeManager.Component}
    (h : Distributing name e.plan (components.map NodeManager.Component.id) [] placed e₁ env)
    (hnodup : (components.map NodeManager.Component.id).Nodup)
    (hfresh : Fresh e.plan (components.map NodeManager.Component.id))
    (hext : e.plan.Extends placed e'.plan) : Distributed components e e' := by
  have hids := h.ids
  rw [List.map_nil, List.append_nil] at hids
  have hdeploys : ∀ ip id, e'.Deploys ip id ↔ e.Deploys ip id ∨ (ip, id) ∈ placed :=
    fun ip id => hext.deploys_iff h.greedy.places
  have hnot : ∀ msg ∈ components, ∀ ip, ¬ e.Deploys ip msg.id := by
    intro msg hmsg ip hdeployed
    obtain ⟨n, c, hn, hc, hid⟩ := Experiment.deploys_iff.mp hdeployed
    exact hfresh ip n c hn hc msg.id (List.mem_map_of_mem hmsg) hid
  have hnew : ∀ msg ∈ components, ∀ ip, e'.Deploys ip msg.id ↔ (ip, msg.id) ∈ placed := by
    intro msg hmsg ip
    rw [hdeploys, or_iff_right (hnot msg hmsg ip)]
  refine ⟨fun ip => ?_, fun msg hmsg => ?_, fun ip id hid => (hdeploys ip id).mpr (.inl hid),
    fun ip id hid => ((hdeploys ip id).mp hid).imp_right fun hplaced => ?_,
    fun msg hmsg ip n hid hn m hm => ?_⟩
  · rw [← plan_ne_none_iff, ← plan_ne_none_iff]
    exact ne_none_iff_of_rel (hext ip)
  · have hplaced : msg.id ∈ placed.map Prod.snd := hids ▸ List.mem_map_of_mem hmsg
    obtain ⟨ip, hip, hunique⟩ := existsUnique_place (hids ▸ hnodup) hplaced
    exact ⟨ip, (hnew msg hmsg ip).mpr hip, fun ip' hip' => hunique ip' ((hnew msg hmsg ip').mp hip')⟩
  · exact List.mem_map.mp (hids ▸ List.mem_map_of_mem (f := Prod.snd) hplaced)
  · obtain ⟨ip', hip'⟩ := Table.mem_values.mp hm
    have hplanN : e'.plan ip = some n.plan := by rw [Experiment.plan, hn, Option.map_some]
    have hplanM : e'.plan ip' = some m.plan := by rw [Experiment.plan, hip', Option.map_some]
    have hload := h.greedy.load_le ((hnew msg hmsg ip).mp hid)
      ((ne_none_iff_of_rel (hext ip')).mp (hplanM ▸ Option.some_ne_none _))
    rw [← hext.load_eq hplanN, ← hext.load_eq hplanM] at hload
    exact hload

/-- From wherever `PopulateExperiment` is, a container is distributed evenly among nodes that have
their implicit containers. -/
theorem distributed_of_reach [HashOrder] {message : NodeManager.Experiment}
    {env env' : Environment} {s : Registration} {container : NodeManager.Container}
    (hregister : registerExperiment message.name env = some (.ok (), env'))
    (hreach : (Registration.system message env').Reach s)
    (he : s.env.experimentMap.lookup message.name = some e) (hnode : e.nodes.values ≠ [])
    (himplicit : ∀ n ∈ e.nodes.values, n.implicitContainerId ∈ n.containers)
    (hnodup : (container.components.map NodeManager.Component.id).Nodup)
    (hfresh : ∀ ip, ∀ msg ∈ container.components, ¬ e.Deploys ip msg.id) :
    ∃ env'' e', distributeContainerToImplicitNodeContainers message.name container s.env =
        some (.ok (), env'') ∧ env''.experimentMap.lookup message.name = some e' ∧
      Distributed container.components e e' := by
  have hbased := (Registration.based_inductive hregister).reach hreach
  obtain ⟨e₀, he₀, hkeyed⟩ := hbased.experiment
  obtain rfl := Option.some.inj (he.symm.trans he₀)
  have hplan : e.plan.Distributable := by
    refine ⟨?_, fun ip n hn => ?_⟩
    · obtain ⟨n, hn⟩ := List.exists_mem_of_ne_nil _ hnode
      obtain ⟨ip, hip⟩ := Table.mem_values.mp hn
      exact ⟨ip, by rw [Experiment.plan, hip, Option.map_some]; exact Option.some_ne_none _⟩
    · obtain ⟨m, hm, rfl⟩ := Option.map_eq_some_iff.mp hn
      exact mem_containers_iff.mp (himplicit m (Table.mem_values.mpr ⟨ip, hm⟩))
  have hfresh' : Fresh e.plan (container.components.map NodeManager.Component.id) := by
    intro ip n c hn hc id hid hmem
    obtain ⟨msg, hmsg, rfl⟩ := List.mem_map.mp hid
    exact hfresh ip msg hmsg (Experiment.deploys_iff.mpr ⟨n, c, hn, hc, hmem⟩)
  have hstart : Distributing message.name e.plan
      (container.components.map NodeManager.Component.id) container.components [] e s.env :=
    ⟨he, hkeyed, rfl, hplan.extends_nil, .nil⟩
  obtain ⟨env₁, placed, e₁, hrun₁, h₁⟩ := hstart.run hnodup hfresh' hplan.node
  obtain ⟨env₂, e₂, hrun₂, he₂, hgrows⟩ := distributeLoggers_run h₁.experiment h₁.keyed
    (hplan.of_extends h₁.extends_) container.loggers
  exact ⟨env₂, e₂, (Throwing.bind_ok hrun₁).trans hrun₂, he₂,
    h₁.distributed hnodup hfresh' (h₁.extends_.grows hgrows)⟩

end Distribution

/-! ## Three distributions -/

section Examples

attribute [local instance] HashOrder.newestFirst

/-- An experiment on two nodes; the container is to be distributed to both. -/
def twoNodes : NodeManager.Experiment where
  name := "E".toList
  clusters :=
    [{ nodes :=
        [⟨"10.0.0.1".toList, [⟨"I".toList, [], [], true, false⟩]⟩,
          ⟨"10.0.0.2".toList, [⟨"J".toList, [], [], true, false⟩]⟩]
       containers := [] }]
  externalPorts := []

/-- A container that stands for its node, with three components. -/
def threeComponents : NodeManager.Container where
  id := "C".toList
  components := [⟨"K".toList, []⟩, ⟨"L".toList, []⟩, ⟨"M".toList, []⟩]
  loggers := []
  implicit := true
  isLateJoiner := false

theorem distributed_twoNodes : ∃ env s e env' e',
    (Registration.system twoNodes env).Reach s ∧
      s.env.experimentMap.lookup "E".toList = some e ∧
      distributeContainerToImplicitNodeContainers "E".toList threeComponents s.env =
        some (.ok (), env') ∧
      env'.experimentMap.lookup "E".toList = some e' ∧
      Distributed threeComponents.components e e' := by
  have hsome : (registerExperiment "E".toList Registration.someEnvironment).bind (fun r =>
      (Lts.run (Registration.step "E".toList) (Registration.start twoNodes r.2)
          [(), (), ()]).bind fun s =>
        (s.env.experimentMap.lookup "E".toList).map fun e =>
          (r.1.isOk, e.nodes.values.map fun n =>
            (decide (n.implicitContainerId ∈ n.containers),
              (n.containers.lookup n.implicitContainerId).map Container.getDeployedComponentCount))) =
        some (true, [(true, some 0), (true, some 0)]) := by
    decide +kernel
  obtain ⟨⟨r, env⟩, hregister, hsome⟩ := Option.bind_eq_some_iff.mp hsome
  obtain ⟨s, hrun, hsome⟩ := Option.bind_eq_some_iff.mp hsome
  obtain ⟨e, he, hfound⟩ := Option.map_eq_some_iff.mp hsome
  simp only [Prod.mk.injEq] at hfound
  obtain ⟨hok, hnodes⟩ := hfound
  have hnode : ∀ n ∈ e.nodes.values, n.implicitContainerId ∈ n.containers ∧
      (n.containers.lookup n.implicitContainerId).map Container.getDeployedComponentCount =
        some 0 := by
    intro n hn
    have hmem := List.mem_map_of_mem (f := fun n : Node =>
      (decide (n.implicitContainerId ∈ n.containers),
        (n.containers.lookup n.implicitContainerId).map Container.getDeployedComponentCount)) hn
    rw [hnodes] at hmem
    simpa using hmem
  have hfresh : ∀ ip, ∀ msg ∈ threeComponents.components, ¬ e.Deploys ip msg.id := by
    rintro ip msg - ⟨n, c, hn, hc, hid⟩
    obtain ⟨-, hcount⟩ := hnode n (Table.mem_values.mpr ⟨ip, hn⟩)
    rw [hc, Option.map_some, Option.some.injEq] at hcount
    rw [AList.mem_keys, List.eq_nil_of_length_eq_zero hcount] at hid
    exact absurd hid List.not_mem_nil
  cases r with
  | error => cases hok
  | ok u =>
    have hreach := Lts.reach_of_run hrun
    have hne : e.nodes.values ≠ [] := by
      rintro hnil
      rw [hnil] at hnodes
      cases hnodes
    obtain ⟨env', e', hrun', he', hdistributed⟩ := distributed_of_reach hregister hreach he hne
      (fun n hn => (hnode n hn).1) (by decide) hfresh
    exact ⟨env, s, e, env', e', hreach, he, hrun', he', hdistributed⟩

/-- An experiment on one node with these containers. -/
def nodeWith (containers : List NodeManager.Container) : NodeManager.Experiment where
  name := "E".toList
  clusters := [⟨[⟨"10.0.0.1".toList, containers⟩], []⟩]
  externalPorts := []

/-- What the node deploys before and after the distribution of a component. -/
def deployedCounts (containers : List NodeManager.Container) (component : NodeManager.Component) :
    Option (Bool × Bool × List ℕ × List ℕ) :=
  (registerExperiment "E".toList Registration.someEnvironment).bind fun r =>
    (Lts.run (Registration.step "E".toList) (Registration.start (nodeWith containers) r.2)
        [(), ()]).bind fun s =>
      (distributeContainerToImplicitNodeContainers "E".toList
          ⟨"C".toList, [component], [], true, false⟩ s.env).bind fun r' =>
        (s.env.experimentMap.lookup "E".toList).bind fun e =>
          (r'.2.experimentMap.lookup "E".toList).map fun e' =>
            (r.1.isOk, r'.1.isOk, e.nodes.values.map Node.getDeployedComponentCount,
              e'.nodes.values.map Node.getDeployedComponentCount)

/-- A component is not added when the node has no implicit container, and not when the container
has one with its id. -/
theorem not_distributed :
    deployedCounts [] ⟨"K".toList, []⟩ = some (true, false, [0], [0]) ∧
      deployedCounts [⟨"I".toList, [⟨"K".toList, []⟩], [], true, false⟩] ⟨"K".toList, []⟩ =
        some (true, true, [1], [1]) := by
  decide +kernel

end Examples

end Sem.EnvironmentManager

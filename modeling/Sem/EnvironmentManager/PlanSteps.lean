import Mathlib.Algebra.Order.BigOperators.Group.List
import Mathlib.Algebra.Order.Group.Nat
import Sem.EnvironmentManager.LoggersAdded
import Sem.EnvironmentManager.Plan

/-!
# What the calls of `PopulateExperiment` do to the plan

Each call leaves the plan as it is, adds loggers to it (`Plan.Grows`), or puts one node or one
container in its place.

* `addNodeToExperiment_returns`, `deployContainer_returns`: a node or a container comes, with its
  loggers.
* `addComponentToImplicitContainer_returns`: a component comes to a node with the fewest.
* `addLoggingClientToNodes_returns`: every node with a component has the logger.
* `addLoggingServer_grows`, `complete_grows`, `publish_keeps`, `addExternalPorts_keeps`: the others.
-/

namespace Sem.EnvironmentManager

open Xml (Text)
open NodeManager (LoggerType)
open Throwing (Keeps Returns read update undefined)

/-! ## Values that may be there -/

section Rel

variable {α β γ δ : Type} {r : α → β → Prop} {a : Option α} {b : Option β}

theorem rel_refl {r : α → α → Prop} (hr : ∀ x, r x x) (a : Option α) : Option.Rel r a a := by
  cases a with
  | none => exact .none
  | some x => exact .some (hr x)

theorem rel_trans {r' : β → γ → Prop} {r'' : α → γ → Prop} {c : Option γ} (h : Option.Rel r a b)
    (h' : Option.Rel r' b c) (hr : ∀ x y z, r x y → r' y z → r'' x z) : Option.Rel r'' a c := by
  cases h with
  | none =>
    cases h'
    exact .none
  | some hxy =>
    cases h' with
    | some hyz => exact .some (hr _ _ _ hxy hyz)

theorem rel_bind {r' : γ → δ → Prop} {f : α → Option γ} {g : β → Option δ}
    (h : Option.Rel r a b) (hr : ∀ x y, r x y → Option.Rel r' (f x) (g y)) :
    Option.Rel r' (a.bind f) (b.bind g) := by
  cases h with
  | none => exact .none
  | some hxy => exact hr _ _ hxy

theorem rel_map {r' : γ → δ → Prop} {f : α → γ} {g : β → δ} (h : Option.Rel r a b)
    (hr : ∀ x y, r x y → r' (f x) (g y)) : Option.Rel r' (a.map f) (b.map g) := by
  cases h with
  | none => exact .none
  | some hxy => exact .some (hr _ _ hxy)

theorem ne_none_iff_of_rel (h : Option.Rel r a b) : b ≠ none ↔ a ≠ none := by
  cases h with
  | none => exact ⟨fun h => absurd rfl h, fun h => absurd rfl h⟩
  | some _ => exact ⟨fun _ => Option.some_ne_none _, fun _ => Option.some_ne_none _⟩

theorem exists_before_of_rel {y : β} (h : Option.Rel r a b) (hb : b = some y) :
    ∃ x, a = some x ∧ r x y := by
  cases h with
  | none => cases hb
  | some hr =>
    cases hb
    exact ⟨_, rfl, hr⟩

theorem exists_after_of_rel {x : α} (h : Option.Rel r a b) (ha : a = some x) :
    ∃ y, b = some y ∧ r x y := by
  cases h with
  | none => cases ha
  | some hr =>
    cases ha
    exact ⟨_, rfl, hr⟩

/-- What is first in a list with one more element. -/
theorem rel_find_concat {l : List α} {p : α → Bool} {x : α}
    {found found' : Option β} (h : Option.Rel r (l.find? p) found)
    (hsame : p x = false ∨ found ≠ none → found' = found)
    (hnew : p x = true → found = none → ∃ y, found' = some y ∧ r x y) :
    Option.Rel r ((l ++ [x]).find? p) found' := by
  rw [List.find?_append]
  cases hl : l.find? p with
  | some y =>
    rw [hl] at h
    cases h with
    | some hr =>
      rw [hsame (.inr (Option.some_ne_none _))]
      exact .some hr
  | none =>
    rw [hl] at h
    cases h
    cases hx : p x with
    | false =>
      rw [hsame (.inl hx), List.find?_cons_of_neg (by simp [hx])]
      exact .none
    | true =>
      obtain ⟨y, rfl, hr⟩ := hnew hx rfl
      rw [List.find?_cons_of_pos hx]
      exact .some hr

end Rel

/-! ## Changes of a plan -/

namespace ContainerPlan

/-- `components_.emplace`. -/
def addComponent (c : ContainerPlan) (id : Text) : ContainerPlan :=
  { c with components := insert id c.components }

/-- `loggers_.emplace`. -/
def addLogger (c : ContainerPlan) (id : Text) : ContainerPlan :=
  { c with loggers := insert id c.loggers }

/-- A container that has components has a model logger and the clients that were declared for it. -/
def LoggedBy (c : ContainerPlan) (msg : NodeManager.Container) : Prop :=
  c.components ≠ ∅ → MODEL_LOGGER_ID ∈ c.loggers ∧
    ∀ l ∈ msg.loggers, l.type = .client → l.id ∈ c.loggers

/-- Loggers were added. -/
structure Grows (c c' : ContainerPlan) : Prop where
  components : c'.components = c.components
  loggers : c.loggers ⊆ c'.loggers

theorem mem_addComponent {c : ContainerPlan} {id id' : Text} :
    id' ∈ (c.addComponent id).components ↔ id' = id ∨ id' ∈ c.components :=
  Finset.mem_insert

theorem mem_addLogger {c : ContainerPlan} {id id' : Text} :
    id' ∈ (c.addLogger id).loggers ↔ id' = id ∨ id' ∈ c.loggers :=
  Finset.mem_insert

theorem addComponent_of_mem {c : ContainerPlan} {id : Text} (h : id ∈ c.components) :
    c.addComponent id = c := by
  rw [addComponent, Finset.insert_eq_of_mem h]

theorem Grows.refl (c : ContainerPlan) : c.Grows c := ⟨rfl, fun _ h => h⟩

theorem Grows.trans {c c' c'' : ContainerPlan} (h : c.Grows c') (h' : c'.Grows c'') :
    c.Grows c'' :=
  ⟨h'.components.trans h.components, fun _ hl => h'.loggers (h.loggers hl)⟩

theorem grows_addLogger (c : ContainerPlan) (id : Text) : c.Grows (c.addLogger id) :=
  ⟨rfl, fun _ h => mem_addLogger.mpr (.inr h)⟩

/-- A container that has grown still has the loggers it had. -/
theorem LoggedBy.grows {c c' : ContainerPlan} {msg : NodeManager.Container}
    (h : c.LoggedBy msg) (hgrows : c.Grows c') : c'.LoggedBy msg := by
  intro hne
  rw [hgrows.components] at hne
  obtain ⟨hmodel, hclients⟩ := h hne
  exact ⟨hgrows.loggers hmodel, fun l hl htype => hgrows.loggers (hclients l hl htype)⟩

end ContainerPlan

namespace NodePlan

/-- Another container in the place of `c`. -/
def putContainer (n : NodePlan) (key : Text) (c c' : ContainerPlan) : NodePlan :=
  { n with
    containers := Function.update n.containers key (some c')
    deployedComponentCount :=
      n.deployedComponentCount + c'.components.card - c.components.card }

/-- A node gets loggers, and keeps all that it has. -/
structure Grows (n n' : NodePlan) : Prop where
  ip : n'.ip = n.ip
  implicitContainerId : n'.implicitContainerId = n.implicitContainerId
  deployedComponentCount : n'.deployedComponentCount = n.deployedComponentCount
  containers : ∀ key, Option.Rel ContainerPlan.Grows (n.containers key) (n'.containers key)

theorem Grows.refl (n : NodePlan) : n.Grows n :=
  ⟨rfl, rfl, rfl, fun _ => rel_refl ContainerPlan.Grows.refl _⟩

theorem Grows.trans {n n' n'' : NodePlan} (h : n.Grows n') (h' : n'.Grows n'') : n.Grows n'' :=
  ⟨h'.ip.trans h.ip, h'.implicitContainerId.trans h.implicitContainerId,
    h'.deployedComponentCount.trans h.deployedComponentCount,
    fun key => rel_trans (h.containers key) (h'.containers key)
      fun _ _ _ => ContainerPlan.Grows.trans⟩

/-- A node grows with one of its containers. -/
theorem grows_putContainer {n : NodePlan} {key : Text} {c c' : ContainerPlan}
    (hc : n.containers key = some c) (hgrows : c.Grows c') :
    n.Grows (n.putContainer key c c') := by
  refine ⟨rfl, rfl, ?_, fun key' => ?_⟩
  · show n.deployedComponentCount + c'.components.card - c.components.card = _
    rw [hgrows.components, Nat.add_sub_cancel]
  · show Option.Rel _ _ (Function.update n.containers key (some c') key')
    by_cases heq : key' = key
    · subst heq
      rw [Function.update_self, hc]
      exact .some hgrows
    · rw [Function.update_of_ne heq]
      exact (Grows.refl n).containers key'

/-- Nothing is counted where nothing came. -/
theorem putContainer_self {n : NodePlan} {key : Text} {c : ContainerPlan}
    (hc : n.containers key = some c) : n.putContainer key c c = n := by
  have hcontainers : Function.update n.containers key (some c) = n.containers := by
    rw [← hc, Function.update_eq_self]
  exact NodePlan.ext rfl rfl hcontainers (Nat.add_sub_cancel _ _)

end NodePlan

namespace Plan

/-- Loggers were added to containers. -/
def Grows (plan plan' : Plan) : Prop := ∀ ip, Option.Rel NodePlan.Grows (plan ip) (plan' ip)

/-- Nodes are kept under their addresses. -/
def Keyed (plan : Plan) : Prop := ∀ ip n, plan ip = some n → n.ip = ip

/-- A container of the node has the logger. -/
def HasLogger (plan : Plan) (ip logger : Text) : Prop :=
  ∃ n, plan ip = some n ∧ ∃ key c, n.containers key = some c ∧ logger ∈ c.loggers

theorem Grows.refl (plan : Plan) : plan.Grows plan :=
  fun _ => rel_refl NodePlan.Grows.refl _

theorem Grows.trans {plan plan' plan'' : Plan} (h : plan.Grows plan') (h' : plan'.Grows plan'') :
    plan.Grows plan'' :=
  fun ip => rel_trans (h ip) (h' ip) fun _ _ _ => NodePlan.Grows.trans

/-- A plan grows with one of its nodes. -/
theorem grows_update {plan : Plan} {ip : Text} {n n' : NodePlan} (hn : plan ip = some n)
    (hgrows : n.Grows n') : plan.Grows (Function.update plan ip (some n')) := by
  intro ip'
  by_cases heq : ip' = ip
  · subst heq
    rw [Function.update_self, hn]
    exact .some hgrows
  · rw [Function.update_of_ne heq]
    exact Grows.refl plan ip'

/-- No node changes its address. -/
theorem Keyed.grows {plan plan' : Plan} (h : plan.Keyed) (hgrows : plan.Grows plan') :
    plan'.Keyed := by
  intro ip n' hn'
  obtain ⟨n, hn, hnode⟩ := exists_before_of_rel (hgrows ip) hn'
  rw [hnode.ip]
  exact h ip n hn

/-- No logger goes. -/
theorem HasLogger.grows {plan plan' : Plan} {ip logger : Text} (h : plan.HasLogger ip logger)
    (hgrows : plan.Grows plan') : plan'.HasLogger ip logger := by
  obtain ⟨n, hn, key, c, hc, hlogger⟩ := h
  obtain ⟨n', hn', hnode⟩ := exists_after_of_rel (hgrows ip) hn
  obtain ⟨c', hc', hcontainer⟩ := exists_after_of_rel (hnode.containers key) hc
  exact ⟨n', hn', key, c', hc', hcontainer.loggers hlogger⟩

end Plan

/-! ## Objects in their place -/

/-- A change of one value changes the sum by as much. -/
theorem Table.sum_adjust {K V : Type} [DecidableEq K] {t : Table K V} {k : K} {v : V}
    (h : t.lookup k = some v) (g : V → ℕ) (f : V → V) :
    ((t.adjust k f).values.map g).sum + g v = (t.values.map g).sum + g (f v) := by
  obtain ⟨l, r, hvalues, hadjust⟩ := Table.exists_values_adjust h
  rw [hvalues, hadjust]
  simp only [List.map_append, List.map_cons, List.sum_append, List.sum_cons]
  omega

/-- The plan of a node follows a change of one of its containers, the count included. -/
theorem Node.plan_adjustContainer {n : Node} {key : Text} {c : Container}
    (hc : n.containers.lookup key = some c) (f : Container → Container) :
    ({ n with containers := n.containers.adjust key f } : Node).plan =
      n.plan.putContainer key c.plan (f c).plan := by
  refine NodePlan.ext rfl rfl ?_ ?_
  · funext key'
    show ((n.containers.adjust key f).lookup key').map Container.plan = Function.update
      (fun key => (n.containers.lookup key).map Container.plan) key (some (f c).plan) key'
    rw [Table.lookup_adjust]
    by_cases heq : key' = key
    · subst heq
      rw [if_pos rfl, Function.update_self, hc]
      rfl
    · rw [if_neg heq, Function.update_of_ne heq]
  · have hsum := Table.sum_adjust hc Container.getDeployedComponentCount f
    show ((n.containers.adjust key f).values.map Container.getDeployedComponentCount).sum =
      (n.containers.values.map Container.getDeployedComponentCount).sum +
        (f c).plan.components.card - c.plan.components.card
    rw [← Container.getDeployedComponentCount_eq, ← Container.getDeployedComponentCount_eq]
    omega

/-- A container's components are components of its node. -/
theorem Node.card_components_le {n : Node} {key : Text} {c : Container}
    (hc : n.containers.lookup key = some c) :
    c.plan.components.card ≤ n.plan.deployedComponentCount := by
  rw [← Container.getDeployedComponentCount_eq]
  exact List.le_sum_of_mem (List.mem_map_of_mem (Table.mem_values.mpr ⟨key, hc⟩))

/-- The plan of an experiment follows a change of one of its nodes. -/
theorem Experiment.plan_adjustNode {e : Experiment} {ip : Text} {n : Node}
    (hn : e.nodes.lookup ip = some n) (f : Node → Node) :
    (e.adjustNode ip f).plan = Function.update e.plan ip (some (f n).plan) := by
  funext ip'
  show ((e.nodes.adjust ip f).lookup ip').map Node.plan = _
  rw [Table.lookup_adjust]
  by_cases heq : ip' = ip
  · subst heq
    rw [if_pos rfl, Function.update_self, hn]
    rfl
  · rw [if_neg heq, Function.update_of_ne heq]
    rfl

/-- What lets every container grow lets the node grow. -/
theorem Node.grows_adjust {f : Container → Container}
    (h : ∀ c : Container, c.plan.Grows (f c).plan) (m : Node) (key : Text) :
    m.plan.Grows ({ m with containers := m.containers.adjust key f } : Node).plan := by
  refine ⟨rfl, rfl, ?_, fun key' => ?_⟩
  · exact congrArg List.sum (Table.map_values_adjust fun c =>
      by rw [Container.getDeployedComponentCount_eq, (h c).components,
        ← Container.getDeployedComponentCount_eq])
  · show Option.Rel _ ((m.containers.lookup key').map Container.plan)
      (((m.containers.adjust key f).lookup key').map Container.plan)
    rw [Table.lookup_adjust]
    split
    · cases m.containers.lookup key' with
      | none => exact .none
      | some c => exact .some (h c)
    · exact rel_refl ContainerPlan.Grows.refl _

theorem Experiment.grows_adjustContainer {f : Container → Container}
    (h : ∀ c : Container, c.plan.Grows (f c).plan) (e : Experiment) (ip key : Text) :
    e.plan.Grows (e.adjustContainer ip key f).plan := by
  intro ip'
  show Option.Rel _ ((e.nodes.lookup ip').map Node.plan)
    (((e.nodes.adjust ip _).lookup ip').map Node.plan)
  rw [Table.lookup_adjust]
  split
  · cases e.nodes.lookup ip' with
    | none => exact .none
    | some m => exact .some (m.grows_adjust h key)
  · exact rel_refl NodePlan.Grows.refl _

section Place

variable [HashOrder]

theorem Container.plan_emplaceLogger (c : Container) (key : Text) (logger : Logger) :
    (c.emplaceLogger key logger).plan = c.plan.addLogger key := by
  unfold Container.emplaceLogger
  split
  · next hkey =>
    rw [ContainerPlan.addLogger, Finset.insert_eq_of_mem (Container.mem_plan_loggers.mpr hkey)]
  · exact congrArg (ContainerPlan.mk _) (Table.toFinset_keys_place ..)

/-- A component under a new id is added; one under an id that is there replaces it. -/
theorem Container.plan_placeComponent (c : Container) (id : Text) (k : Component) :
    ({ c with components := c.components.place id k } : Container).plan =
      c.plan.addComponent id :=
  congrArg (ContainerPlan.mk · c.loggers.keys.toFinset) (Table.toFinset_keys_place ..)

theorem Container.plan_addNewLogger (c : Container) (id : Text) (logger : Logger) :
    (c.addNewLogger id logger).plan = c.plan.addLogger id := by
  rw [← c.plan_emplaceLogger id logger]
  unfold Container.addNewLogger
  split
  · split
    · exact Container.plan_congr rfl (Table.keys_adjust _ _ _)
    · rfl
  · rfl

/-- Whatever kind of logger it is, it is in the plan under its own id. -/
theorem Container.plan_addLogger {c c' : Container} {msg : NodeManager.Logger}
    (h : c.addLogger msg = .ok c') : c'.plan = c.plan.addLogger msg.id := by
  rw [addLogger_eq] at h
  cases hnew : newLogger msg with
  | error ex => rw [hnew] at h; cases h
  | ok logger =>
    rw [hnew] at h
    cases h
    exact c.plan_addNewLogger msg.id logger

/-- A new node is in the plan under its address. -/
theorem Experiment.plan_placeNode (e : Experiment) (ip : Text) (n : Node) :
    ({ e with nodes := e.nodes.place ip n } : Experiment).plan =
      Function.update e.plan ip (some n.plan) := by
  funext ip'
  show ((e.nodes.place ip n).lookup ip').map Node.plan = _
  rw [Table.lookup_place]
  by_cases heq : ip' = ip
  · rw [if_pos heq, heq, Function.update_self]
    rfl
  · rw [if_neg heq, Function.update_of_ne heq]
    rfl

end Place

/-! ## The experiment of a plan -/

section Experiments

variable {name : Text} {env : Environment} {plan : Plan} {ip key : Text} {n : NodePlan}
  {c : ContainerPlan}

theorem planOf_eq_some : planOf name env = some plan ↔
    ∃ e, env.experimentMap.lookup name = some e ∧ e.plan = plan :=
  Option.map_eq_some_iff

/-- A change of the registered experiment. -/
theorem planOf_modify {e : Experiment} (he : env.experimentMap.lookup name = some e)
    (f : Experiment → Experiment) :
    planOf name { env with experimentMap := env.experimentMap.adjust name f } =
      some (f e).plan := by
  simp only [planOf, Table.lookup_adjust, if_pos, he, Option.map_some]

/-- A change of a node whose plan is known. -/
theorem planOf_adjustNode (h : planOf name env = some plan) (hn : plan ip = some n)
    {f : Node → Node} {n' : NodePlan} (hf : ∀ m : Node, m.plan = n → (f m).plan = n') :
    planOf name { env with experimentMap := env.experimentMap.adjust name (·.adjustNode ip f) } =
      some (Function.update plan ip (some n')) := by
  obtain ⟨e, he, rfl⟩ := planOf_eq_some.mp h
  obtain ⟨m, hm, hplan⟩ := Option.map_eq_some_iff.mp hn
  rw [planOf_modify he, Experiment.plan_adjustNode hm, hf m hplan]

/-- A change of a container whose plan is known; the node counts the components. -/
theorem planOf_adjustContainer (h : planOf name env = some plan) (hn : plan ip = some n)
    (hc : n.containers key = some c) {f : Container → Container} {c' : ContainerPlan}
    (hf : ∀ k : Container, k.plan = c → (f k).plan = c') :
    planOf name { env with
      experimentMap := env.experimentMap.adjust name (·.adjustContainer ip key f) } =
        some (Function.update plan ip (some (n.putContainer key c c'))) := by
  refine planOf_adjustNode h hn fun m hm => ?_
  subst hm
  obtain ⟨k, hk, rfl⟩ := Option.map_eq_some_iff.mp hc
  rw [Node.plan_adjustContainer hk, hf k rfl]

/-- A program that leaves the plan as it is, from one state with this plan to another. -/
theorem returns_of_keeps {α : Type} {p : Program α} (h : Keeps (planOf name) p) :
    Returns (fun env => planOf name env = some plan) p fun _ env => planOf name env = some plan :=
  h.returns (· = some plan)

/-- What keeps the plan lets it grow. -/
theorem grows_of_keeps {α : Type} {p : Program α} (h : Keeps (planOf name) p) :
    Returns (fun env => ∃ plan', planOf name env = some plan' ∧ plan.Grows plan') p
      fun _ env => ∃ plan', planOf name env = some plan' ∧ plan.Grows plan' :=
  h.returns fun found => ∃ plan', found = some plan' ∧ plan.Grows plan'

/-- What such a program makes. -/
theorem returns_framed {α : Type} {p : Program α} {Q : α → Prop}
    (h : Returns (fun _ => True) p fun a _ => Q a) (hkeeps : Keeps (planOf name) p) :
    Returns (fun env => planOf name env = some plan) p fun a env =>
      Q a ∧ planOf name env = some plan :=
  fun _ _ _ henv hrun => ⟨h trivial hrun, (hkeeps hrun).trans henv⟩

/-- The experiment that is found is the one registered. -/
theorem getExperimentInternal_returns {e : Experiment} :
    Returns (fun env => env.experimentMap.lookup name = some e) (getExperimentInternal name)
      fun found env => found = e ∧ planOf name env = some e.plan := by
  refine Returns.read fun env he => ?_
  rw [he]
  exact .pure fun env' henv => ⟨rfl, by rw [henv, planOf, he, Option.map_some]⟩

theorem getExperimentInternal_plan :
    Returns (fun env => planOf name env = some plan) (getExperimentInternal name)
      fun e env => e.plan = plan ∧ planOf name env = some plan := by
  refine Returns.read fun env henv => ?_
  obtain ⟨e, he, hplan⟩ := planOf_eq_some.mp henv
  rw [he]
  exact .pure fun env' heq => ⟨hplan, heq ▸ henv⟩

/-! ## Another container or logger -/

/-- A change of the registered experiment, by what it does to the plan. -/
theorem returns_modify {f : Experiment → Experiment} {plan' : Plan}
    (h : ∀ env, planOf name env = some plan →
      planOf name { env with experimentMap := env.experimentMap.adjust name f } = some plan') :
    Returns (fun env => planOf name env = some plan) (modifyExperiment name f)
      fun _ env => planOf name env = some plan' :=
  .update h

/-- A node has the containers of its plan. -/
theorem mem_containers_iff {m : Node} {key : Text} :
    key ∈ m.containers ↔ m.plan.containers key ≠ none := by
  show _ ↔ (m.containers.lookup key).map Container.plan ≠ none
  rw [Ne, Option.map_eq_none_iff, AList.lookup_eq_none, not_not]

/-- `Node::AddContainer`. -/
def NodePlan.noteImplicit (n : NodePlan) (msg : NodeManager.Container) : NodePlan :=
  if msg.implicit then { n with implicitContainerId := msg.id } else n

/-- `containers_.emplace` of a new container. -/
def NodePlan.addContainer (n : NodePlan) (key : Text) (c : ContainerPlan) : NodePlan :=
  { n with
    containers := Function.update n.containers key (some c)
    deployedComponentCount := c.components.card + n.deployedComponentCount }

theorem NodePlan.containers_addContainer (n : NodePlan) (key : Text) (c : ContainerPlan)
    (key' : Text) : (n.addContainer key c).containers key' =
      if key' = key then some c else n.containers key' :=
  Function.update_apply _ _ _ _

/-- The implicit container is noted even if a container of its id was there. -/
theorem Node.plan_noteImplicit (m : Node) (msg : NodeManager.Container) :
    (m.noteImplicit msg).plan = m.plan.noteImplicit msg := by
  unfold Node.noteImplicit NodePlan.noteImplicit
  split <;> rfl

/-- A container came, or was there already. -/
structure NodePlan.Deployed (n : NodePlan) (msg : NodeManager.Container) (n' : NodePlan) :
    Prop where
  ip : n'.ip = n.ip
  deployedComponentCount : n.deployedComponentCount ≤ n'.deployedComponentCount
  stays : ∀ key, key ≠ msg.id ∨ n.containers key ≠ none → n'.containers key = n.containers key
  comes : n.containers msg.id = none → ∃ c, n'.containers msg.id = some c ∧ c.LoggedBy msg

/-- A container that is there already is not deployed again. -/
theorem NodePlan.deployed_same {n' : NodePlan} {msg : NodeManager.Container} (hip : n'.ip = n.ip)
    (hcontainers : n'.containers = n.containers)
    (hcount : n'.deployedComponentCount = n.deployedComponentCount)
    (hsome : n.containers msg.id ≠ none) : n.Deployed msg n' :=
  ⟨hip, hcount.ge, fun _ _ => congrFun hcontainers _, fun hnone => absurd hnone hsome⟩

/-- A new one comes with what its constructor gave it. -/
theorem NodePlan.deployed_addContainer {n' : NodePlan} {msg : NodeManager.Container}
    (hip : n'.ip = n.ip) (hcontainers : n'.containers = n.containers)
    (hcount : n'.deployedComponentCount = n.deployedComponentCount)
    (hnone : n.containers msg.id = none) (hlogged : c.LoggedBy msg) :
    n.Deployed msg (n'.addContainer msg.id c) := by
  refine ⟨hip, hcount.ge.trans (Nat.le_add_left _ _), fun key hkey => ?_, fun _ => ?_⟩
  · have hne : key ≠ msg.id := by
      rintro rfl
      exact hkey.elim (fun h => h rfl) fun h => h hnone
    rw [NodePlan.containers_addContainer, if_neg hne, hcontainers]
  · rw [NodePlan.containers_addContainer, if_pos rfl]
    exact ⟨c, rfl, hlogged⟩

/-- The plan with the logger in the container. -/
theorem hasLogger_update (hn : plan ip = some n) (hc : n.containers key = some c) (id : Text) :
    plan.Grows (Function.update plan ip (some (n.putContainer key c (c.addLogger id)))) ∧
      Plan.HasLogger (Function.update plan ip (some (n.putContainer key c (c.addLogger id))))
        ip id := by
  refine ⟨Plan.grows_update hn (NodePlan.grows_putContainer hc (c.grows_addLogger id)), ?_⟩
  exact ⟨_, Function.update_self .., key, _, Function.update_self ..,
    ContainerPlan.mem_addLogger.mpr (.inl rfl)⟩

/-! ## Constructors -/

variable [HashOrder]

/-- The loggers of a message come on top of the model logger. -/
theorem addLoggers_returns (ip : Text) (k : Container) (msgs : List NodeManager.Logger)
    (hmodel : k.plan.components ≠ ∅ → MODEL_LOGGER_ID ∈ k.plan.loggers) :
    Returns (fun _ => True) (addLoggers name ip k msgs) fun k' _ =>
      k'.plan.components ≠ ∅ → MODEL_LOGGER_ID ∈ k'.plan.loggers ∧
        ∀ l ∈ msgs, l.type = .client → l.id ∈ k'.plan.loggers := by
  refine (Returns.foldlM (fun done (k' : Container) _ => k.plan.Grows k'.plan ∧
    (k.plan.components ≠ ∅ → ∀ l ∈ done, l.type = .client → l.id ∈ k'.plan.loggers))
    (fun done msg rest _ k' => ?_) k).conseq
    (fun _ _ => ⟨.refl _, fun _ l hl => absurd hl List.not_mem_nil⟩) fun k' _ h hne => ?_
  · refine .ite (fun hadd => ?_) fun hskip => .pure fun _ ⟨hgrows, hdone⟩ => ⟨hgrows, ?_⟩
    · cases hlogger : k'.addLogger msg with
      | error ex =>
        exact Returns.bind .any fun _ => Returns.bind .any fun _ => .throw
      | ok added =>
        refine .pure fun _ ⟨hgrows, hdone⟩ => ?_
        have hplan := Container.plan_addLogger hlogger
        have hstep : k'.plan.Grows added.plan := hplan ▸ ContainerPlan.grows_addLogger _ _
        refine ⟨hgrows.trans hstep, fun hne l hl htype => ?_⟩
        obtain hl | hl := List.mem_append.mp hl
        · exact hstep.loggers (hdone hne l hl htype)
        · obtain rfl := List.mem_singleton.mp hl
          rw [hplan]
          exact ContainerPlan.mem_addLogger.mpr (.inl rfl)
    · -- only a container without components skips a client
      intro hne l hl htype
      obtain hl | hl := List.mem_append.mp hl
      · exact hdone hne l hl htype
      · refine absurd ?_ hskip
        rw [Container.getDeployedComponentCount_eq, hgrows.components]
        exact .inr (Finset.card_pos.mpr (Finset.nonempty_iff_ne_empty.mpr hne))
  · obtain ⟨hgrows, hdone⟩ := h
    rw [hgrows.components] at hne
    exact ⟨hgrows.loggers (hmodel hne), hdone hne⟩

/-- A constructor adds loggers only if the container has components by then. -/
theorem constructContainer_returns (ip : Text) (msg : NodeManager.Container) :
    Returns (fun _ => True) (constructContainer name ip msg) fun k _ => k.plan.LoggedBy msg := by
  unfold constructContainer
  refine Returns.bind .any fun k => ?_
  refine addLoggers_returns ip _ msg.loggers fun hne => ?_
  split
  · next hcount =>
    rw [Container.addModelLogger, Container.plan_emplaceLogger]
    exact ContainerPlan.mem_addLogger.mpr (.inl rfl)
  · next hcount =>
    rw [if_neg hcount] at hne
    rw [Container.getDeployedComponentCount_eq, gt_iff_lt, Finset.card_pos,
      Finset.nonempty_iff_ne_empty] at hcount
    exact absurd hne hcount

/-- The containers of a node that is being built: of the messages with one id the first. -/
structure Node.BuiltFrom (msgs : List NodeManager.Container) (ip : Text) (n : Node) : Prop where
  ip : n.ip = ip
  containers : ∀ key, Option.Rel (fun msg (k : Container) => k.plan.LoggedBy msg)
    (msgs.find? (·.id = key)) (n.containers.lookup key)

/-- A node is built container by container. -/
theorem addContainer_returns {msgs : List NodeManager.Container} {ip : Text} {n : Node}
    (msg : NodeManager.Container) :
    Returns (fun _ => n.BuiltFrom msgs ip) (Node.addContainer name n msg) fun n' _ =>
      n'.BuiltFrom (msgs ++ [msg]) ip := by
  refine .given fun hbuilt => ?_
  obtain ⟨hip, hcontainers⟩ : (n.noteImplicit msg).ip = n.ip ∧
      (n.noteImplicit msg).containers = n.containers := by
    unfold Node.noteImplicit
    split <;> exact ⟨rfl, rfl⟩
  refine Returns.bind (.rethrow (constructContainer_returns n.ip msg) fun ex => ?_) fun k =>
    .ite (fun hmem => ?_) fun hnew => .pure fun _ hlogged => ⟨hip.trans hbuilt.ip, fun key => ?_⟩
  · exact Returns.bind .any fun _ => Returns.bind .any fun _ => .throw
  · -- a container whose id is taken is destroyed
    refine Returns.bind .any fun _ => Returns.bind .any fun _ => .pure fun _ _ =>
      ⟨hip.trans hbuilt.ip, fun key => ?_⟩
    rw [hcontainers]
    refine rel_find_concat (hbuilt.containers key) (fun _ => rfl) fun hid hnone => ?_
    rw [← of_decide_eq_true hid] at hnone
    exact absurd hmem (AList.lookup_eq_none.mp hnone)
  · rw [Node.emplaceContainer, hcontainers]
    show Option.Rel _ _ ((n.containers.place msg.id k).lookup key)
    rw [Table.lookup_place]
    refine rel_find_concat (hbuilt.containers key) (fun hold => if_neg ?_) fun hid _ =>
      ⟨k, if_pos (of_decide_eq_true hid).symm, hlogged⟩
    rintro rfl
    obtain hid | hsome := hold
    · exact absurd rfl (of_decide_eq_false hid)
    · exact hsome (AList.lookup_eq_none.mpr hnew)

/-- A node has the containers of its message, and no others. -/
theorem constructNode_returns (msg : NodeManager.Node) :
    Returns (fun _ => True) (constructNode name msg) fun n _ =>
      n.BuiltFrom msg.containers msg.ipAddress := by
  unfold constructNode
  refine .ite (fun _ => .throw) fun _ => ?_
  exact (Returns.foldlM (fun done (n : Node) _ => n.BuiltFrom done msg.ipAddress)
    (fun done container rest _ n => addContainer_returns container) _).conseq
    (fun _ _ => ⟨rfl, fun _ => .none⟩) fun _ _ h => h

/-! ## The calls -/

theorem addExternalPorts_keeps (ports : List NodeManager.ExternalPort) :
    Keeps (planOf name) (addExternalPorts name ports) := by
  refine .forM fun port => .ite (.pure _) (getExperimentInternal_keeps.bind fun e => ?_)
  exact .ite (.throw _) (modifyExperiment_keeps fun _ => rfl)

/-- A node comes under an address that had none. -/
theorem addNodeToExperiment_returns (msg : NodeManager.Node) :
    Returns (fun env => planOf name env = some plan) (addNodeToExperiment name msg)
      fun _ env => ∃ n : Node, plan msg.ipAddress = none ∧
        n.BuiltFrom msg.containers msg.ipAddress ∧
        planOf name env = some (Function.update plan msg.ipAddress (some n.plan)) := by
  have hnode : Keeps (planOf name) (addNodeToEnvironment msg.ipAddress) := by
    refine .update fun env => ?_
    split <;> rfl
  refine (returns_of_keeps hnode).bind fun _ => getExperimentInternal_plan.bind fun e =>
    .ite (fun _ => .throw) fun hnew => ?_
  refine .assuming fun hplan => (returns_framed (constructNode_returns msg)
    (constructNode_keeps msg)).bind fun n => .update fun env ⟨hn, henv⟩ => ⟨n, ?_, hn, ?_⟩
  · rw [← hplan, Experiment.plan, AList.lookup_eq_none.mpr hnew, Option.map_none]
  · obtain ⟨e, he, rfl⟩ := planOf_eq_some.mp henv
    rw [planOf_modify he, Experiment.plan_placeNode]

theorem Node.plan_emplaceContainer {m : Node} {key : Text} (h : key ∉ m.containers)
    (k : Container) : (m.emplaceContainer key k).plan = m.plan.addContainer key k.plan := by
  refine NodePlan.ext rfl rfl ?_ ?_
  · funext key'
    show ((m.containers.place key k).lookup key').map Container.plan =
      Function.update m.plan.containers key (some k.plan) key'
    rw [Table.lookup_place]
    by_cases heq : key' = key
    · rw [if_pos heq, heq, Function.update_self]
      rfl
    · rw [if_neg heq, Function.update_of_ne heq]
      rfl
  · show ((m.containers.place key k).values.map Container.getDeployedComponentCount).sum = _
    rw [((Table.values_place_perm h k).map _).sum_eq, List.map_cons, List.sum_cons,
      Container.getDeployedComponentCount_eq]
    rfl

/-- A container of a cluster goes to the node with the fewest components, if its id is new there. -/
theorem deployContainer_returns {e : Experiment}
    (hkeyed : ∀ n, e.getLeastDeployedToNode false = some n → e.nodes.lookup n.ip = some n)
    (msg : NodeManager.Container) :
    Returns (fun env => env.experimentMap.lookup name = some e) (deployContainer name msg)
      fun _ env => ∃ n n', e.getLeastDeployedToNode false = some n ∧ n.plan.Deployed msg n' ∧
        planOf name env = some (Function.update e.plan n.ip (some n')) := by
  refine getExperimentInternal_returns.bind fun found => .assuming ?_
  rintro rfl
  cases hleast : found.getLeastDeployedToNode false with
  | none => exact .undefined
  | some n =>
    have hn : found.plan n.ip = some n.plan := by
      rw [Experiment.plan, hkeyed n hleast, Option.map_some]
    obtain ⟨hip, hcontainers, hcount⟩ : (n.plan.noteImplicit msg).ip = n.plan.ip ∧
        (n.plan.noteImplicit msg).containers = n.plan.containers ∧
        (n.plan.noteImplicit msg).deployedComponentCount = n.plan.deployedComponentCount := by
      unfold NodePlan.noteImplicit
      split <;> exact ⟨rfl, rfl, rfl⟩
    refine Returns.bind (returns_modify fun env henv => planOf_adjustNode henv hn
      fun m hm => (m.plan_noteImplicit msg).trans (by rw [hm])) fun _ => ?_
    refine (returns_framed (constructContainer_returns n.ip msg)
      (constructContainer_keeps n.ip msg)).bind fun k => .assuming fun hlogged =>
        .ite (fun hmem => ?_) fun hnew => ?_
    · -- the container that was built is destroyed
      have hdeployed := NodePlan.deployed_same hip hcontainers hcount (mem_containers_iff.mp hmem)
      refine (returns_of_keeps ?_).conseq (fun _ h => h) fun _ env henv =>
        ⟨n, _, rfl, hdeployed, henv⟩
      exact liveExternalPorts_keeps.bind fun _ => k.destroy_keeps n.ip
    · have hnone : n.plan.containers msg.id = none := not_not.mp (mt mem_containers_iff.mpr hnew)
      refine .update fun env henv => ⟨n, _, rfl,
        NodePlan.deployed_addContainer hip hcontainers hcount hnone hlogged, ?_⟩
      refine (planOf_adjustNode henv (Function.update_self ..) fun m hm => ?_).trans
        (by rw [Function.update_idem])
      have hnew' : msg.id ∉ m.containers := by
        rw [mem_containers_iff, hm, hcontainers, hnone]
        exact fun h => h rfl
      rw [Node.plan_emplaceContainer hnew', hm]

/-- A component comes to the implicit container of the least deployed to node. -/
theorem addComponentToImplicitContainer_returns {e : Experiment}
    (hkeyed : ∀ n, e.getLeastDeployedToNode false = some n → e.nodes.lookup n.ip = some n)
    (msg : NodeManager.Component) :
    Returns (fun env => env.experimentMap.lookup name = some e)
      (addComponentToImplicitContainer name msg)
      fun _ env => ∃ n k, e.getLeastDeployedToNode false = some n ∧
        n.containers.lookup n.implicitContainerId = some k ∧
        planOf name env = some (Function.update e.plan n.ip (some (n.plan.putContainer
          n.implicitContainerId k.plan (k.plan.addComponent msg.id)))) := by
  refine getExperimentInternal_returns.bind fun found => .assuming ?_
  rintro rfl
  cases hleast : found.getLeastDeployedToNode false with
  | none => exact .undefined
  | some n =>
    dsimp only
    cases hk : n.containers.lookup n.implicitContainerId with
    | none => exact .throw
    | some k =>
      have hn : found.plan n.ip = some n.plan := by
        rw [Experiment.plan, hkeyed n hleast, Option.map_some]
      have hc : n.plan.containers n.implicitContainerId = some k.plan := by
        show (n.containers.lookup n.implicitContainerId).map Container.plan = _
        rw [hk, Option.map_some]
      refine (returns_of_keeps (constructComponent_keeps n.ip k.orbPort msg)).bind fun built => ?_
      have horb : Keeps (planOf name) (modifyExperiment name (·.adjustContainer n.ip
          n.implicitContainerId fun c => { c with orbPort := built.2 })) :=
        modifyExperiment_keeps fun e => by
          apply e.plan_adjustContainer_same
          exact fun _ => rfl
      refine (returns_of_keeps horb).bind fun _ => .ite (fun hmem => ?_) fun hnew => ?_
      · -- the component that was built is destroyed
        have hsame := ContainerPlan.addComponent_of_mem (Container.mem_plan_components.mpr hmem)
        refine (returns_of_keeps ?_).conseq (fun _ h => h) fun _ env henv =>
          ⟨n, k, rfl, hk, ?_⟩
        · exact liveExternalPorts_keeps.bind fun _ => built.1.destroy_keeps
        · rw [hsame, NodePlan.putContainer_self hc, ← hn, Function.update_eq_self, henv]
      · refine .update fun env henv => ⟨n, k, rfl, hk, planOf_adjustContainer henv hn hc ?_⟩
        exact fun k' hk' => (k'.plan_placeComponent msg.id built.1).trans (by rw [hk'])

/-! ## Loggers -/

/-- A logger is added to a container whose plan is known. -/
theorem addLoggerTo_returns (hn : plan ip = some n) {k : Container}
    (hc : n.containers key = some k.plan) (msg : NodeManager.Logger) :
    Returns (fun env => planOf name env = some plan) (addLoggerTo name ip key k msg)
      fun _ env => planOf name env = some (Function.update plan ip
        (some (n.putContainer key k.plan (k.plan.addLogger msg.id)))) := by
  unfold addLoggerTo
  cases hadd : k.addLogger msg with
  | error ex => exact .throw
  | ok added =>
    refine returns_modify fun env henv => planOf_adjustContainer henv hn hc fun k' hk' => ?_
    have hadded := Container.plan_addLogger hadd
    have hcomponents : k'.plan.components = (k.plan.addLogger msg.id).components := by
      rw [hk']
      rfl
    show (⟨k'.plan.components, added.plan.loggers⟩ : ContainerPlan) = _
    rw [hcomponents, hadded]

/-- A logging server goes to the least deployed node that has components. -/
theorem addLoggingServer_returns {e : Experiment}
    (hkeyed : ∀ n, e.getLeastDeployedToNode true = some n → e.nodes.lookup n.ip = some n)
    (msg : NodeManager.Logger) :
    Returns (fun env => env.experimentMap.lookup name = some e)
      (addLoggingServerToImplicitContainer name msg)
      fun _ env => ∃ plan', planOf name env = some plan' ∧ e.plan.Grows plan' := by
  refine getExperimentInternal_returns.bind fun found => .assuming ?_
  rintro rfl
  cases hleast : found.getLeastDeployedToNode true with
  | none => exact .undefined
  | some n =>
    dsimp only
    cases hk : n.containers.lookup n.implicitContainerId with
    | none => exact .throw
    | some k =>
      have hn : found.plan n.ip = some n.plan := by
        rw [Experiment.plan, hkeyed n hleast, Option.map_some]
      have hc : n.plan.containers n.implicitContainerId = some k.plan := by
        show (n.containers.lookup n.implicitContainerId).map Container.plan = _
        rw [hk, Option.map_some]
      exact (addLoggerTo_returns hn hc msg).conseq (fun _ h => h) fun _ env henv =>
        ⟨_, henv, (hasLogger_update hn hc msg.id).1⟩

/-- A logging client goes to the implicit container of one node. -/
theorem addLoggingClient_returns {m : Node} (hn : plan ip = some m.plan)
    (msg : NodeManager.Logger) :
    Returns (fun env => planOf name env = some plan) (addLoggingClient name ip m msg)
      fun _ env => ∃ plan', planOf name env = some plan' ∧ plan.Grows plan' ∧
        (∀ ip', ip' ≠ ip → plan' ip' = plan ip') ∧
        (m.getDeployedComponentCount ≠ 0 → plan'.HasLogger ip msg.id) := by
  have hadd : ∀ key k, m.containers.lookup key = some k →
      Returns (fun env => planOf name env = some plan) (addLoggerTo name ip key k msg)
        fun _ env => ∃ plan', planOf name env = some plan' ∧ plan.Grows plan' ∧
          (∀ ip', ip' ≠ ip → plan' ip' = plan ip') ∧
          (m.getDeployedComponentCount ≠ 0 → plan'.HasLogger ip msg.id) := by
    intro key k hk
    have hc : m.plan.containers key = some k.plan := by
      show (m.containers.lookup key).map Container.plan = _
      rw [hk, Option.map_some]
    obtain ⟨hgrows, hlogger⟩ := hasLogger_update hn hc msg.id
    exact (addLoggerTo_returns hn hc msg).conseq (fun _ h => h) fun _ env henv =>
      ⟨_, henv, hgrows, fun ip' hne => Function.update_of_ne hne .., fun _ => hlogger⟩
  unfold addLoggingClient
  cases hk : m.containers.lookup m.implicitContainerId with
  | none => exact .throw
  | some k =>
    refine .ite (fun _ => hadd _ k hk) fun _ => ?_
    cases hfind : m.containers.entries.find? fun c => c.2.getDeployedComponentCount ≠ 0 with
    | some found =>
      exact hadd _ _ (AList.mem_lookup_iff.mpr (List.mem_of_find?_eq_some hfind))
    | none =>
      -- no container of the node has a component
      refine .pure fun env henv => ⟨plan, henv, .refl plan, fun _ _ => rfl, fun hcount => ?_⟩
      refine absurd (List.sum_eq_zero_iff_forall_eq_nat.mpr fun x hx => ?_) hcount
      obtain ⟨c, hc, rfl⟩ := List.mem_map.mp hx
      obtain ⟨entry, hentry, rfl⟩ := List.mem_map.mp hc
      simpa using List.find?_eq_none.mp hfind entry hentry

/-- Every node that has a component gets the logger. -/
theorem addLoggingClientToNodes_returns (msg : NodeManager.Logger) :
    Returns (fun env => planOf name env = some plan) (addLoggingClientToNodes name msg)
      fun _ env => ∃ plan', planOf name env = some plan' ∧ plan.Grows plan' ∧
        ∀ ip n, plan ip = some n → n.deployedComponentCount ≠ 0 → plan'.HasLogger ip msg.id := by
  refine getExperimentInternal_plan.bind fun e => .assuming ?_
  rintro rfl
  refine (Returns.forM (fun done env => ∃ plan', planOf name env = some plan' ∧
      e.plan.Grows plan' ∧ (∀ ip, ip ∉ done.keys → plan' ip = e.plan ip) ∧
      ∀ entry ∈ done, entry.2.getDeployedComponentCount ≠ 0 →
        plan'.HasLogger entry.1 msg.id) fun done entry rest hentries => ?_).conseq
    (fun env henv => ⟨e.plan, henv, .refl _, fun _ _ => rfl, fun _ h => absurd h List.not_mem_nil⟩)
    fun _ env ⟨plan', henv, hgrows, _, hall⟩ => ⟨plan', henv, hgrows, fun ip n hn hcount => ?_⟩
  · rintro env u env' ⟨plan', henv, hgrows, hrest, hall⟩ hrun
    have hnodup : (done ++ entry :: rest).keys.Nodup := hentries ▸ e.nodes.nodupKeys
    have hnew : entry.1 ∉ done.keys := by
      intro hmem
      rw [List.keys, List.map_append, List.nodup_append] at hnodup
      exact hnodup.2.2 _ hmem _ (List.mem_map.mpr ⟨entry, List.mem_cons_self, rfl⟩) rfl
    have hlookup : e.nodes.lookup entry.1 = some entry.2 :=
      AList.mem_lookup_iff.mpr (hentries ▸ List.mem_append_right _ List.mem_cons_self)
    have hn : plan' entry.1 = some entry.2.plan := by
      rw [hrest _ hnew, Experiment.plan, hlookup, Option.map_some]
    obtain ⟨plan'', henv', hgrows', hothers, hlogger⟩ := addLoggingClient_returns hn msg henv hrun
    refine ⟨plan'', henv', hgrows.trans hgrows', fun ip hip => ?_, fun x hx hcount => ?_⟩
    · simp only [List.keys, List.map_append, List.map_cons, List.map_nil, List.mem_append,
        List.mem_singleton, not_or] at hip
      rw [hothers ip hip.2, hrest ip hip.1]
    · obtain hx | hx := List.mem_append.mp hx
      · exact (hall x hx hcount).grows hgrows'
      · obtain rfl := List.mem_singleton.mp hx
        exact hlogger hcount
  · obtain ⟨m, hm, rfl⟩ := Option.map_eq_some_iff.mp hn
    exact hall ⟨ip, m⟩ (AList.mem_lookup_iff.mp hm) hcount

/-! ## The end of `PopulateExperiment` -/

/-- The master takes a container that is there. -/
theorem configureMaster_returns :
    Returns (fun env => planOf name env = some plan) (configureMaster name)
      fun _ env => ∃ plan', planOf name env = some plan' ∧ plan.Grows plan' := by
  refine getExperimentInternal_plan.bind fun e => .assuming fun _ => ?_
  cases e.nodes.entries.find? fun n => n.2.hasMasterEligibleContainer with
  | none => exact .pure fun env henv => ⟨plan, henv, .refl plan⟩
  | some m =>
    dsimp only
    cases m.2.getMasterEligibleContainer with
    | none => exact .throw
    | some container =>
      refine Returns.bind (R := fun _ env => ∃ plan', planOf name env = some plan' ∧
        plan.Grows plan') (.update fun env henv => ?_) fun _ => ?_
      · obtain ⟨e', he', rfl⟩ := planOf_eq_some.mp henv
        refine ⟨_, planOf_modify he' _, e'.grows_adjustContainer (fun c => ?_) m.1 container⟩
        unfold Container.setNodeManagerMaster
        rw [Container.plan_emplaceLogger]
        exact ContainerPlan.grows_addLogger _ _
      · exact grows_of_keeps (getMasterPublisherAddress_keeps.bind fun _ =>
          getMasterRegistrationAddress_keeps)

/-- The end of `PopulateExperiment` takes nothing away. -/
theorem complete_returns :
    Returns (fun env => planOf name env = some plan) (complete name)
      fun _ env => ∃ plan', planOf name env = some plan' ∧ plan.Grows plan' := by
  refine configureMaster_returns.bind fun _ => grows_of_keeps ?_
  refine getExperimentInternal_keeps.bind fun e => ?_
  cases e.checkValidity with
  | error ex => exact .throw _
  | ok _ => exact .ite (modifyExperiment_keeps fun _ => rfl) (.throw _)

/-- Reading the experiment for the reply does not change it. -/
theorem publish_keeps : Keeps (planOf name) (runJob name .publish) :=
  .tryCatch ((getProto_keeps true).bind fun _ => .pure _) fun _ => .pure _

end Experiments

/-! ## The least deployed to node -/

section Least

variable {e : Experiment} {n : Node}

/-- The least node is one of those compared. -/
theorem foldl_least_mem (nonEmpty : Bool) (ns : List Node) (n : Node) :
    ns.foldl (fun least m => if Experiment.deploysFewer nonEmpty m least then m else least) n ∈
      n :: ns := by
  induction ns generalizing n with
  | nil => exact List.mem_singleton_self n
  | cons m ns ih =>
    rw [List.foldl_cons]
    split
    · exact List.mem_cons_of_mem _ (ih m)
    · obtain h | h := List.mem_cons.mp (ih n)
      · rw [h]
        exact List.mem_cons_self
      · exact List.mem_cons_of_mem _ (List.mem_cons_of_mem _ h)

/-- By induction over the nodes; the least so far never rises. -/
theorem foldl_least_le (ns : List Node) (n m : Node) (hm : m ∈ n :: ns) :
    (ns.foldl (fun least m => if Experiment.deploysFewer false m least then m else least)
      n).getDeployedComponentCount ≤ m.getDeployedComponentCount := by
  induction ns generalizing n m with
  | nil => rw [List.mem_singleton.mp hm, List.foldl_nil]
  | cons m' ns ih =>
    have hfewer : Experiment.deploysFewer false m' n =
        decide (m'.getDeployedComponentCount < n.getDeployedComponentCount) := by
      simp [Experiment.deploysFewer]
    rw [List.foldl_cons, hfewer]
    split
    · next hlt =>
      have hlt := of_decide_eq_true hlt
      obtain heq | hm := List.mem_cons.mp hm
      · rw [heq]
        exact (ih m' m' List.mem_cons_self).trans hlt.le
      · exact ih m' m hm
    · next hle =>
      have hle : n.getDeployedComponentCount ≤ m'.getDeployedComponentCount := by
        simpa using hle
      obtain heq | hm := List.mem_cons.mp hm
      · rw [heq]
        exact ih n n List.mem_cons_self
      · obtain heq | hm := List.mem_cons.mp hm
        · rw [heq]
          exact (ih n n List.mem_cons_self).trans hle
        · exact ih n m (List.mem_cons_of_mem _ hm)

theorem getLeastDeployedToNode_mem {nonEmpty : Bool}
    (h : e.getLeastDeployedToNode nonEmpty = some n) : n ∈ e.nodes.values := by
  unfold Experiment.getLeastDeployedToNode at h
  cases hvalues : e.nodes.values with
  | nil => rw [hvalues] at h; cases h
  | cons m ms =>
    rw [hvalues] at h
    obtain rfl := Option.some.inj h
    exact foldl_least_mem nonEmpty ms m

theorem getLeastDeployedToNode_le (h : e.getLeastDeployedToNode false = some n) {m : Node}
    (hm : m ∈ e.nodes.values) : n.getDeployedComponentCount ≤ m.getDeployedComponentCount := by
  unfold Experiment.getLeastDeployedToNode at h
  cases hvalues : e.nodes.values with
  | nil => rw [hvalues] at h; cases h
  | cons m' ms =>
    rw [hvalues] at h hm
    obtain rfl := Option.some.inj h
    exact foldl_least_le ms m' m hm

/-- Where nodes are kept under their addresses, it is found under its own. -/
theorem Plan.Keyed.lookup_least (hkeyed : e.plan.Keyed) {nonEmpty : Bool}
    (h : e.getLeastDeployedToNode nonEmpty = some n) : e.nodes.lookup n.ip = some n := by
  obtain ⟨ip, hip⟩ := Table.mem_values.mp (getLeastDeployedToNode_mem h)
  have hn : n.plan.ip = ip := hkeyed ip n.plan (by rw [Experiment.plan, hip, Option.map_some])
  have hn : n.ip = ip := hn
  rw [hn, hip]

end Least

/-! ## One call -/

/-- The calls that put a node, a container or a component in its place. -/
def Job.Places : Job → Prop
  | .addNodeToExperiment _ | .deployContainer _ | .addComponentToImplicitContainer _ => True
  | _ => False

/-- What a call does to the plan of an experiment. -/
inductive PlanStep (e : Experiment) : Job → Plan → Prop
  | addNode {msg : NodeManager.Node} (n : Node) : e.plan msg.ipAddress = none →
      n.BuiltFrom msg.containers msg.ipAddress →
      PlanStep e (.addNodeToExperiment msg)
        (Function.update e.plan msg.ipAddress (some n.plan))
  | deploy {msg : NodeManager.Container} (n : Node) (n' : NodePlan) :
      e.getLeastDeployedToNode false = some n → n.plan.Deployed msg n' →
      PlanStep e (.deployContainer msg) (Function.update e.plan n.ip (some n'))
  | addComponent {msg : NodeManager.Component} (n : Node) (k : Container) :
      e.getLeastDeployedToNode false = some n →
      n.containers.lookup n.implicitContainerId = some k →
      PlanStep e (.addComponentToImplicitContainer msg) (Function.update e.plan n.ip
        (some (n.plan.putContainer n.implicitContainerId k.plan (k.plan.addComponent msg.id))))
  | addLoggers {job : Job} {plan : Plan} : e.plan.Grows plan →
      (∀ l, job = .addLoggingClientToNodes l → ∀ ip n, e.plan ip = some n →
        n.deployedComponentCount ≠ 0 → plan.HasLogger ip l.id) →
      ¬ job.Places → PlanStep e job plan

/-- Each call of `PopulateExperiment` that returns is the step of the plan that it should be. -/
theorem planStep_of_runJob [HashOrder] {name : Text} {env env' : Environment} {e : Experiment} {job : Job}
    {u : Unit} (he : env.experimentMap.lookup name = some e) (hkeyed : e.plan.Keyed)
    (hjob : job ≠ .removeExperiment) (hrun : runJob name job env = some (.ok u, env')) :
    ∃ plan, planOf name env' = some plan ∧ PlanStep e job plan := by
  have hplan : planOf name env = some e.plan := planOf_eq_some.mpr ⟨e, he, rfl⟩
  cases job with
  | addExternalPorts ports =>
    exact ⟨e.plan, (addExternalPorts_keeps ports hrun).trans hplan,
      .addLoggers (.refl _) (fun _ h => nomatch h) id⟩
  | addNodeToExperiment msg =>
    obtain ⟨n, hnone, hbuilt, henv⟩ := addNodeToExperiment_returns msg hplan hrun
    exact ⟨_, henv, .addNode n hnone hbuilt⟩
  | deployContainer msg =>
    obtain ⟨n, n', hleast, hdeployed, henv⟩ :=
      deployContainer_returns (fun _ => hkeyed.lookup_least) msg he hrun
    exact ⟨_, henv, .deploy n n' hleast hdeployed⟩
  | addComponentToImplicitContainer msg =>
    obtain ⟨n, k, hleast, hk, henv⟩ :=
      addComponentToImplicitContainer_returns (fun _ => hkeyed.lookup_least) msg he hrun
    exact ⟨_, henv, .addComponent n k hleast hk⟩
  | addLoggingClientToNodes l =>
    obtain ⟨plan, henv, hgrows, hall⟩ := addLoggingClientToNodes_returns l hplan hrun
    refine ⟨plan, henv, .addLoggers hgrows ?_ id⟩
    rintro _ ⟨⟩
    exact hall
  | addLoggingServerToImplicitContainer l =>
    obtain ⟨plan, henv, hgrows⟩ :=
      addLoggingServer_returns (fun _ => hkeyed.lookup_least) l he hrun
    exact ⟨plan, henv, .addLoggers hgrows (fun _ h => nomatch h) id⟩
  | complete =>
    obtain ⟨plan, henv, hgrows⟩ := complete_returns hplan hrun
    exact ⟨plan, henv, .addLoggers hgrows (fun _ h => nomatch h) id⟩
  | publish =>
    exact ⟨e.plan, (publish_keeps hrun).trans hplan,
      .addLoggers (.refl _) (fun _ h => nomatch h) id⟩
  | removeExperiment => exact absurd rfl hjob

/-- No call changes the address of a node. -/
theorem PlanStep.keyed {e : Experiment} {job : Job} {plan : Plan} (h : PlanStep e job plan)
    (hkeyed : e.plan.Keyed) : plan.Keyed := by
  have hupdate : ∀ ip (n' : NodePlan), n'.ip = ip →
      Plan.Keyed (Function.update e.plan ip (some n')) := by
    intro ip n' hip ip' n hn
    by_cases heq : ip' = ip
    · subst heq
      rw [Function.update_self] at hn
      obtain rfl := Option.some.inj hn
      exact hip
    · rw [Function.update_of_ne heq] at hn
      exact hkeyed ip' n hn
  cases h with
  | addNode n _ hbuilt => exact hupdate _ _ hbuilt.ip
  | deploy n n' _ hdeployed => exact hupdate _ _ hdeployed.ip
  | addComponent n k _ _ => exact hupdate _ _ rfl
  | addLoggers hgrows _ _ => exact hkeyed.grows hgrows

end Sem.EnvironmentManager

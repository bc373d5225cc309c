import Sem.EnvironmentManager.PlanSteps

/-!
# Loggers of containers

`Container::Container` adds a model logger "if we have deployed components", and the loggers of
its message only then. A component that is distributed into an implicit container afterwards does
not make up for it: a container that was built without components stays without its loggers.

* `Registration.Logged`: what a registered experiment should satisfy.
* `Registration.logged_of_reachBy`: it does while no such container gets a component.
* `Registration.not_logged`: else the component runs without a model logger.
-/

namespace Sem.EnvironmentManager

open Xml (Text)
open NodeManager (LoggerType)
open Throwing (Returns)

/-- The registration of an experiment, with the history that the property speaks of. -/
structure Registration where
  env : Environment
  /-- The calls that are left. -/
  todo : List Job
  /-- The containers that messages declare for a node, with the node's address. -/
  declared : List (Text × NodeManager.Container)
  /-- The nodes that got a component of a cluster's implicit container. -/
  received : List Text
  /-- The client loggers of these containers, each with a node that got a component. -/
  owed : List (Text × Text)

namespace Registration

/-- `GetLeastDeployedToNode` of the registered experiment. -/
def leastDeployedToNode (name : Text) (env : Environment) : Option Node :=
  (env.experimentMap.lookup name).bind (·.getLeastDeployedToNode false)

/-- The containers that a call declares. -/
def declares (name : Text) (env : Environment) : Job → List (Text × NodeManager.Container)
  | .addNodeToExperiment node => node.containers.map fun c => (node.ipAddress, c)
  | .deployContainer container =>
    (leastDeployedToNode name env).toList.map fun n => (n.ip, container)
  | _ => []

/-- The node that a call gives a component to. -/
def receives (name : Text) (env : Environment) : Job → List Text
  | .addComponentToImplicitContainer _ => (leastDeployedToNode name env).toList.map Node.ip
  | _ => []

/-- The nodes that a call should give a client logger to. -/
def owes (received : List Text) : Job → List (Text × Text)
  | .addLoggingClientToNodes logger => received.map fun ip => (ip, logger.id)
  | _ => []

/-- One call of `PopulateExperiment` that returns. -/
def step [HashOrder] (name : Text) (s : Registration) (_ : Unit) : Option Registration :=
  match s.todo with
  | [] => none
  | job :: todo =>
    match runJob name job s.env with
    | some (.ok _, env) => some
        { env := env
          todo := todo
          declared := s.declared ++ declares name s.env job
          received := s.received ++ receives name s.env job
          owed := s.owed ++ owes s.received job }
    | _ => none

/-- All components are to be placed, and nothing is owed yet. -/
def start (message : NodeManager.Experiment) (env : Environment) : Registration where
  env := env
  todo := message.jobs
  declared := []
  received := []
  owed := []

/-- The calls of `PopulateExperiment` for an experiment that was registered. -/
def system [HashOrder] (message : NodeManager.Experiment) (env : Environment) : Lts Registration Unit :=
  Lts.ofFun (start message env) (step message.name)

/-- The container declared for a node under an id: of several messages the first counts. -/
def declaredAt (s : Registration) (ip key : Text) : Option (Text × NodeManager.Container) :=
  s.declared.find? fun d => d.1 = ip ∧ d.2.id = key

/-- No component of the experiment runs unlogged. -/
structure Logged (name : Text) (s : Registration) : Prop where
  containers : ∀ e ip n key c, s.env.experimentMap.lookup name = some e →
    e.nodes.lookup ip = some n → n.containers.lookup key = some c →
    c.getDeployedComponentCount ≠ 0 → MODEL_LOGGER_ID ∈ c.loggers ∧
      ∃ msg, s.declaredAt ip key = some (ip, msg) ∧
        ∀ l ∈ msg.loggers, l.type = .client → l.id ∈ c.loggers
  nodes : ∀ d ∈ s.owed, ∃ e n key c, s.env.experimentMap.lookup name = some e ∧
    e.nodes.lookup d.1 = some n ∧ n.containers.lookup key = some c ∧ d.2 ∈ c.loggers

/-- The next call gives no component to a container that has none. -/
def Filled (name : Text) (s : Registration) (_ : Unit) : Prop :=
  match s.todo with
  | .addComponentToImplicitContainer _ :: _ =>
    ∀ n ∈ leastDeployedToNode name s.env, ∀ c ∈ n.containers.lookup n.implicitContainerId,
      c.getDeployedComponentCount ≠ 0
  | _ => True

instance (name : Text) (s : Registration) (a : Unit) : Decidable (Filled name s a) := by
  unfold Filled
  split <;> infer_instance

/-! ## The invariant -/

/-- The containers of a plan are the declared ones, with their loggers. -/
def Declared (declared : List (Text × NodeManager.Container)) (plan : Plan) : Prop :=
  ∀ ip key, Option.Rel (fun d (c : ContainerPlan) => c.LoggedBy d.2)
    (declared.find? fun d => d.1 = ip ∧ d.2.id = key) ((plan ip).bind (·.containers key))

/-- The nodes have a component. -/
def Deployed (received : List Text) (plan : Plan) : Prop :=
  ∀ ip ∈ received, ∃ n, plan ip = some n ∧ n.deployedComponentCount ≠ 0

/-- The experiment is registered, and no call that is left removes it. -/
structure Based (name : Text) (s : Registration) : Prop where
  removeExperiment : .removeExperiment ∉ s.todo
  experiment : ∃ e, s.env.experimentMap.lookup name = some e ∧ e.plan.Keyed

/-- Between two steps, the plan has the loggers that have been declared, received and owed. -/
structure Lawful (name : Text) (s : Registration) : Prop extends Based name s where
  history : ∀ e, s.env.experimentMap.lookup name = some e → Declared s.declared e.plan ∧
    Deployed s.received e.plan ∧ ∀ d ∈ s.owed, e.plan.HasLogger d.1 d.2

section Plans

variable {declared : List (Text × NodeManager.Container)} {received : List Text} {plan plan' : Plan}
  {ip key : Text} {n n' : NodePlan} {c c' : ContainerPlan}

theorem Declared.grows (h : Declared declared plan) (hgrows : plan.Grows plan') :
    Declared declared plan' := by
  intro ip key
  have hcontainer : Option.Rel ContainerPlan.Grows ((plan ip).bind (·.containers key))
      ((plan' ip).bind (·.containers key)) :=
    rel_bind (hgrows ip) fun _ _ hnode => hnode.containers key
  exact rel_trans (h ip key) hcontainer fun _ _ _ => ContainerPlan.LoggedBy.grows

theorem Deployed.grows (h : Deployed received plan) (hgrows : plan.Grows plan') :
    Deployed received plan' := by
  intro ip hip
  obtain ⟨n, hn, hcount⟩ := h ip hip
  obtain ⟨n', hn', hnode⟩ := exists_after_of_rel (hgrows ip) hn
  exact ⟨n', hn', hnode.deployedComponentCount ▸ hcount⟩

/-- A node's place was free, or holds no less than before. -/
theorem Deployed.update (h : Deployed received plan)
    (hn : ∀ n, plan ip = some n → n.deployedComponentCount ≤ n'.deployedComponentCount) :
    Deployed received (Function.update plan ip (some n')) := by
  intro ip' hip'
  obtain ⟨n, hplan, hcount⟩ := h ip' hip'
  by_cases heq : ip' = ip
  · subst heq
    have hle := hn n hplan
    exact ⟨n', Function.update_self .., by omega⟩
  · exact ⟨n, by rw [Function.update_of_ne heq, hplan], hcount⟩

/-- Another node, whose containers have all loggers that they had. -/
theorem hasLogger_update_of_loggers {l : Text} (h : plan.HasLogger ip l) {ip' : Text}
    (hn : ∀ n key c, plan ip' = some n → n.containers key = some c →
      ∃ c', n'.containers key = some c' ∧ c.loggers ⊆ c'.loggers) :
    Plan.HasLogger (Function.update plan ip' (some n')) ip l := by
  obtain ⟨n, hplan, key, c, hc, hl⟩ := h
  by_cases heq : ip = ip'
  · subst heq
    obtain ⟨c', hc', hsub⟩ := hn n key c hplan hc
    exact ⟨n', Function.update_self .., key, c', hc', hsub hl⟩
  · exact ⟨n, by rw [Function.update_of_ne heq, hplan], key, c, hc, hl⟩

theorem Declared.addNode {m : Node} {msgs : List NodeManager.Container}
    (h : Declared declared plan) (hnone : plan ip = none) (hbuilt : m.BuiltFrom msgs ip) :
    Declared (declared ++ msgs.map fun c => (ip, c)) (Function.update plan ip (some m.plan)) := by
  intro ip' key
  rw [List.find?_append]
  by_cases heq : ip' = ip
  · subst heq
    have hold := h ip' key
    rw [hnone, Option.bind_none] at hold
    rw [Function.update_self, Option.bind_some]
    cases hfind : declared.find? fun d => d.1 = ip' ∧ d.2.id = key with
    | some d =>
      rw [hfind] at hold
      cases hold
    | none =>
      have hmap : (msgs.map fun c => (ip', c)).find? (fun d => d.1 = ip' ∧ d.2.id = key) =
          (msgs.find? (·.id = key)).map fun c => (ip', c) := by
        rw [List.find?_map]
        simp [Function.comp_def]
      rw [Option.none_or, hmap]
      exact rel_map (hbuilt.containers key) fun _ _ => id
  · have hmap : (msgs.map fun c => (ip, c)).find? (fun d => d.1 = ip' ∧ d.2.id = key) = none := by
      refine List.find?_eq_none.mpr fun d hd => ?_
      obtain ⟨c, -, rfl⟩ := List.mem_map.mp hd
      simp [Ne.symm heq]
    rw [hmap, Option.or_none, Function.update_of_ne heq]
    exact h ip' key

theorem Declared.deploy {msg : NodeManager.Container} (h : Declared declared plan)
    (hn : plan ip = some n) (hdeployed : n.Deployed msg n') :
    Declared (declared ++ [(ip, msg)]) (Function.update plan ip (some n')) := by
  intro ip' key
  refine rel_find_concat (h ip' key) (fun hold => ?_) fun hnew hnone => ?_
  · by_cases heq : ip' = ip
    · subst heq
      rw [hn, Option.bind_some] at hold
      rw [Function.update_self, hn, Option.bind_some, Option.bind_some]
      refine hdeployed.stays key (hold.imp (fun hid heq => ?_) id)
      simp [heq] at hid
    · rw [Function.update_of_ne heq]
  · obtain ⟨rfl, rfl⟩ := of_decide_eq_true hnew
    rw [hn, Option.bind_some] at hnone
    rw [Function.update_self, Option.bind_some]
    exact hdeployed.comes hnone

/-- A component for a container that has some already. -/
theorem Declared.addComponent (h : Declared declared plan) (hn : plan ip = some n)
    (hc : n.containers key = some c) (hfilled : c.components ≠ ∅) (id : Text) :
    Declared declared
      (Function.update plan ip (some (n.putContainer key c (c.addComponent id)))) := by
  intro ip' key'
  by_cases heq : ip' = ip
  · subst heq
    have hold := h ip' key'
    rw [hn, Option.bind_some] at hold
    rw [Function.update_self, Option.bind_some]
    show Option.Rel _ _ (Function.update n.containers key (some (c.addComponent id)) key')
    by_cases hkey : key' = key
    · subst hkey
      rw [hc] at hold
      obtain ⟨d, hd, hlogged⟩ := exists_before_of_rel hold rfl
      rw [Function.update_self, hd]
      exact .some fun _ => hlogged hfilled
    · rw [Function.update_of_ne hkey]
      exact hold
  · rw [Function.update_of_ne heq]
    exact h ip' key'

end Plans

/-! ## One call -/

section Steps

variable {name : Text} {s s' : Registration} {e : Experiment} {job : Job} {plan : Plan}

theorem Deployed.append {received received' : List Text} (h : Deployed received plan)
    (h' : Deployed received' plan) : Deployed (received ++ received') plan :=
  fun ip hip => (List.mem_append.mp hip).elim (h ip) (h' ip)

theorem history_of_not_places {job : Job} (h : ¬ job.Places) (name : Text) (env : Environment) :
    declares name env job = [] ∧ receives name env job = [] := by
  cases job with
  | addNodeToExperiment | deployContainer | addComponentToImplicitContainer => exact absurd trivial h
  | _ => exact ⟨rfl, rfl⟩

theorem leastDeployedToNode_eq {n : Node} {env : Environment}
    (he : env.experimentMap.lookup name = some e) (hleast : e.getLeastDeployedToNode false = some n) :
    leastDeployedToNode name env = some n := by
  rw [leastDeployedToNode, he, Option.bind_some, hleast]

/-- What a call does to the plan goes with what it adds to the history. -/
theorem history_of_planStep (hstep : PlanStep e job plan)
    (he : s.env.experimentMap.lookup name = some e) (hkeyed : e.plan.Keyed)
    (hfilled : ∀ msg, job = .addComponentToImplicitContainer msg →
      ∀ n ∈ leastDeployedToNode name s.env, ∀ c ∈ n.containers.lookup n.implicitContainerId,
        c.getDeployedComponentCount ≠ 0)
    (hdeclared : Declared s.declared e.plan) (hreceived : Deployed s.received e.plan)
    (howed : ∀ d ∈ s.owed, e.plan.HasLogger d.1 d.2) :
    Declared (s.declared ++ declares name s.env job) plan ∧
      Deployed (s.received ++ receives name s.env job) plan ∧
      ∀ d ∈ s.owed ++ owes s.received job, plan.HasLogger d.1 d.2 := by
  cases hstep with
  | addNode n hnone hbuilt =>
    simp only [receives, owes, List.append_nil]
    have hfree : ∀ n, e.plan _ ≠ some n := fun n h => nomatch hnone.symm.trans h
    exact ⟨hdeclared.addNode hnone hbuilt, hreceived.update fun n h => absurd h (hfree n),
      fun d hd => hasLogger_update_of_loggers (howed d hd) fun n _ _ h => absurd h (hfree n)⟩
  | @deploy msg n n' hleast hdeployed =>
    have hn : e.plan n.ip = some n.plan := by
      rw [Experiment.plan, hkeyed.lookup_least hleast, Option.map_some]
    simp only [declares, receives, owes, List.append_nil, leastDeployedToNode_eq he hleast,
      Option.toList_some, List.map_cons, List.map_nil]
    refine ⟨hdeclared.deploy hn hdeployed, hreceived.update fun m hm => ?_, fun d hd =>
      hasLogger_update_of_loggers (howed d hd) fun m key c hm hc => ?_⟩
    · obtain rfl := Option.some.inj (hn.symm.trans hm)
      exact hdeployed.deployedComponentCount
    · obtain rfl := Option.some.inj (hn.symm.trans hm)
      refine ⟨c, ?_, fun _ h => h⟩
      rw [hdeployed.stays key (.inr (hc ▸ Option.some_ne_none c)), hc]
  | @addComponent msg n k hleast hk =>
    have hn : e.plan n.ip = some n.plan := by
      rw [Experiment.plan, hkeyed.lookup_least hleast, Option.map_some]
    have hc : n.plan.containers n.implicitContainerId = some k.plan := by
      show (n.containers.lookup n.implicitContainerId).map Container.plan = _
      rw [hk, Option.map_some]
    have hcount : k.plan.components.card ≠ 0 :=
      k.getDeployedComponentCount_eq ▸ hfilled msg rfl n (leastDeployedToNode_eq he hleast) k hk
    have hle := Node.card_components_le hk
    have hmore : k.plan.components.card ≤ (k.plan.addComponent msg.id).components.card :=
      Finset.card_le_card (Finset.subset_insert _ _)
    simp only [declares, receives, owes, List.append_nil, leastDeployedToNode_eq he hleast,
      Option.toList_some, List.map_cons, List.map_nil]
    refine ⟨hdeclared.addComponent hn hc (mt Finset.card_eq_zero.mpr hcount) msg.id,
      (hreceived.update fun m hm => ?_).append fun ip hip => ?_, fun d hd =>
        hasLogger_update_of_loggers (howed d hd) fun m key c hm hc' => ?_⟩
    · obtain rfl := Option.some.inj (hn.symm.trans hm)
      show n.plan.deployedComponentCount ≤ n.plan.deployedComponentCount + _ - _
      omega
    · obtain rfl := List.mem_singleton.mp hip
      refine ⟨_, Function.update_self .., ?_⟩
      show n.plan.deployedComponentCount + _ - _ ≠ 0
      omega
    · obtain rfl := Option.some.inj (hn.symm.trans hm)
      by_cases heq : key = n.implicitContainerId
      · subst heq
        obtain rfl := Option.some.inj (hc.symm.trans hc')
        refine ⟨_, Function.update_self .., ?_⟩
        exact fun _ h => h
      · exact ⟨c, (Function.update_of_ne heq ..).trans hc', fun _ h => h⟩
  | addLoggers hgrows hclients hplaces =>
    obtain ⟨hnone, hnone'⟩ := history_of_not_places hplaces name s.env
    rw [hnone, hnone', List.append_nil, List.append_nil]
    refine ⟨hdeclared.grows hgrows, hreceived.grows hgrows, fun d hd => ?_⟩
    obtain hd | hd := List.mem_append.mp hd
    · exact (howed d hd).grows hgrows
    · cases job with
      | addLoggingClientToNodes l =>
        obtain ⟨ip, hip, rfl⟩ := List.mem_map.mp hd
        obtain ⟨n, hn, hcount⟩ := hreceived ip hip
        exact hclients l rfl ip n hn hcount
      | _ => exact absurd hd List.not_mem_nil

/-- What one call does. -/
theorem Based.cases [HashOrder] (h : s.Based name) (hstep : Registration.step name s () = some s') :
    ∃ job todo e e', s.todo = job :: todo ∧ s.env.experimentMap.lookup name = some e ∧
      e.plan.Keyed ∧ PlanStep e job e'.plan ∧ s'.env.experimentMap.lookup name = some e' ∧
      s' =
        { env := s'.env
          todo := todo
          declared := s.declared ++ declares name s.env job
          received := s.received ++ receives name s.env job
          owed := s.owed ++ owes s.received job } := by
  obtain ⟨e, he, hkeyed⟩ := h.experiment
  have hremove := h.removeExperiment
  unfold Registration.step at hstep
  cases htodo : s.todo with
  | nil =>
    rw [htodo] at hstep
    cases hstep
  | cons job todo =>
    simp only [htodo] at hstep
    rw [htodo] at hremove
    split at hstep
    · next u env hrun =>
      obtain rfl := Option.some.inj hstep
      have hjob : job ≠ .removeExperiment := fun heq => hremove (heq ▸ List.mem_cons_self)
      obtain ⟨plan, henv, hplanStep⟩ := planStep_of_runJob he hkeyed hjob hrun
      obtain ⟨e', he', rfl⟩ := planOf_eq_some.mp henv
      exact ⟨job, todo, e, e', rfl, he, hkeyed, hplanStep, he', rfl⟩
    · cases hstep

theorem Based.step [HashOrder] (h : s.Based name) (hstep : Registration.step name s () = some s') :
    s'.Based name := by
  obtain ⟨job, todo, e, e', htodo, -, hkeyed, hplanStep, he', hs'⟩ := h.cases hstep
  refine ⟨?_, e', he', hplanStep.keyed hkeyed⟩
  have hremove := h.removeExperiment
  rw [htodo] at hremove
  rw [hs']
  exact mt (List.mem_cons_of_mem _) hremove

theorem Lawful.step [HashOrder] (h : s.Lawful name) (hfilled : Filled name s ())
    (hstep : Registration.step name s () = some s') : s'.Lawful name := by
  obtain ⟨job, todo, e, e', htodo, he, hkeyed, hplanStep, he', hs'⟩ := h.toBased.cases hstep
  refine ⟨h.toBased.step hstep, fun e'' he'' => ?_⟩
  obtain rfl := Option.some.inj (he'.symm.trans he'')
  obtain ⟨hdeclared, hreceived, howed⟩ := h.history e he
  unfold Filled at hfilled
  rw [htodo] at hfilled
  rw [hs']
  refine history_of_planStep hplanStep he hkeyed ?_ hdeclared hreceived howed
  rintro msg rfl
  exact hfilled

end Steps

theorem removeExperiment_notMem_jobs (message : NodeManager.Experiment) :
    .removeExperiment ∉ message.jobs := by
  simp [NodeManager.Experiment.jobs, NodeManager.Cluster.jobs,
    NodeManager.Container.distributeJobs]
  grind

section Runs

variable {message : NodeManager.Experiment} {env env' : Environment}

theorem lawful_start (h : registerExperiment message.name env = some (.ok (), env')) :
    (start message env').Lawful message.name := by
  have hreturns : Returns (fun _ => True) (registerExperiment message.name) fun _ env =>
      planOf message.name env = some fun _ => none :=
    Returns.bind .any fun port => .update fun env _ => by
      simp only [planOf, Table.lookup_insert, if_pos, Option.map_some]
      rfl
  obtain ⟨e, he, hplan⟩ := planOf_eq_some.mp (hreturns trivial h)
  have hbased : (start message env').Based message.name :=
    ⟨removeExperiment_notMem_jobs message, e, he, hplan ▸ (fun _ _ h => by cases h)⟩
  refine ⟨hbased, fun e' he' => ?_⟩
  obtain rfl := Option.some.inj (he.symm.trans he')
  rw [hplan]
  exact ⟨fun _ _ => .none, fun _ h => absurd h List.not_mem_nil,
    fun _ h => absurd h List.not_mem_nil⟩

theorem based_inductive [HashOrder]
    (h : registerExperiment message.name env = some (.ok (), env')) :
    (system message env').InductiveBy (fun _ _ => True) (Based message.name) where
  init := by
    rintro _ rfl
    exact (lawful_start h).toBased
  step h _ hstep := h.step hstep

theorem lawful_inductive [HashOrder]
    (h : registerExperiment message.name env = some (.ok (), env')) :
    (system message env').InductiveBy (Filled message.name) (Lawful message.name) where
  init := by
    rintro _ rfl
    exact lawful_start h
  step := Lawful.step

theorem Lawful.logged {name : Text} {s : Registration} (h : s.Lawful name) : s.Logged name := by
  refine ⟨fun e ip n key c he hn hc hcount => ?_, fun d hd => ?_⟩
  · obtain ⟨hdeclared, -, -⟩ := h.history e he
    have hcontainer : (e.plan ip).bind (·.containers key) = some c.plan := by
      rw [Experiment.plan, hn]
      show (n.containers.lookup key).map Container.plan = _
      rw [hc, Option.map_some]
    obtain ⟨⟨ip', msg⟩, hmsg, hlogged⟩ := exists_before_of_rel (hdeclared ip key) hcontainer
    have hfirst := List.find?_some hmsg
    obtain rfl : ip' = ip := (of_decide_eq_true hfirst).1
    obtain ⟨hmodel, hclients⟩ := hlogged fun hnil => hcount <| by
      rw [Container.getDeployedComponentCount_eq, hnil, Finset.card_empty]
    exact ⟨Container.mem_plan_loggers.mp hmodel, msg, hmsg, fun l hl htype =>
      Container.mem_plan_loggers.mp (hclients l hl htype)⟩
  · obtain ⟨e, he, -⟩ := h.experiment
    obtain ⟨-, -, howed⟩ := h.history e he
    obtain ⟨m, hm, key, k, hk, hl⟩ := howed d hd
    obtain ⟨n, hn, rfl⟩ := Option.map_eq_some_iff.mp hm
    obtain ⟨c, hc, rfl⟩ := Option.map_eq_some_iff.mp hk
    exact ⟨e, n, key, c, he, hn, hc, Container.mem_plan_loggers.mp hl⟩

/-- While no container without components gets one, no component is unlogged. -/
theorem logged_of_reachBy [HashOrder] {s : Registration}
    (hregister : registerExperiment message.name env = some (.ok (), env'))
    (h : (system message env').ReachBy (Filled message.name) s) : s.Logged message.name :=
  ((lawful_inductive hregister).reach h).logged

end Runs

/-! ## Two experiments -/

attribute [local instance] HashOrder.newestFirst

/-- One node, whose implicit container holds `components`, and one component for all nodes. -/
def oneNode (components : List NodeManager.Component) : NodeManager.Experiment where
  name := "E".toList
  clusters :=
    [{ nodes := [⟨"10.0.0.1".toList,
          [⟨"I".toList, components, [⟨.client, "A".toList, .live, []⟩], true, false⟩]⟩]
       containers :=
        [⟨"C".toList, [⟨"K".toList, []⟩], [⟨.client, "B".toList, .live, []⟩], true, false⟩] }]
  externalPorts := []

/-- An environment manager with ten ports and no experiments. -/
def someEnvironment : Environment := .init [] [] 30000 30009

/-- A node that has a component of its own gets another one. -/
theorem logged_oneNode : ∃ env s,
    registerExperiment "E".toList someEnvironment = some (.ok (), env) ∧
      (system (oneNode [⟨"D".toList, []⟩]) env).ReachBy (Filled "E".toList) s ∧ s.todo = [] ∧
      s.owed = [("10.0.0.1".toList, "B".toList)] ∧ s.Logged "E".toList := by
  have hsome : (registerExperiment "E".toList someEnvironment).bind (fun r =>
      (Lts.runBy (step "E".toList) (Filled "E".toList)
        (start (oneNode [⟨"D".toList, []⟩]) r.2) (List.replicate 6 ())).map fun s =>
          (r.1.isOk, s.todo, s.owed)) =
        some (true, [], [("10.0.0.1".toList, "B".toList)]) := by
    decide +kernel
  obtain ⟨⟨r, env⟩, hregister, hrun⟩ := Option.bind_eq_some_iff.mp hsome
  obtain ⟨s, hrun, hs⟩ := Option.map_eq_some_iff.mp hrun
  simp only [Prod.mk.injEq] at hs
  obtain ⟨hok, htodo, howed⟩ := hs
  cases r with
  | error => cases hok
  | ok u =>
    have hreach := Lts.reachBy_of_runBy hrun
    exact ⟨env, s, hregister, hreach, htodo, howed,
      logged_of_reachBy hregister hreach⟩

/-- The only component of a node runs in a container that was built without components. -/
theorem not_logged : ∃ env s, registerExperiment "E".toList someEnvironment = some (.ok (), env) ∧
    (system (oneNode []) env).Reach s ∧ s.todo = [] ∧ ¬ s.Logged "E".toList := by
  have hsome : (registerExperiment "E".toList someEnvironment).bind (fun r =>
      (Lts.run (step "E".toList) (start (oneNode []) r.2) (List.replicate 6 ())).bind fun s =>
        (s.env.experimentMap.lookup "E".toList).bind fun e =>
          (e.nodes.lookup "10.0.0.1".toList).bind fun n =>
            (n.containers.lookup "I".toList).map fun c =>
              (r.1.isOk, s.todo, c.getDeployedComponentCount, decide (MODEL_LOGGER_ID ∈ c.loggers))) =
        some (true, [], 1, false) := by
    decide +kernel
  obtain ⟨⟨r, env⟩, hregister, hsome⟩ := Option.bind_eq_some_iff.mp hsome
  obtain ⟨s, hrun, hsome⟩ := Option.bind_eq_some_iff.mp hsome
  obtain ⟨e, he, hsome⟩ := Option.bind_eq_some_iff.mp hsome
  obtain ⟨n, hn, hsome⟩ := Option.bind_eq_some_iff.mp hsome
  obtain ⟨c, hc, hfound⟩ := Option.map_eq_some_iff.mp hsome
  simp only [Prod.mk.injEq, decide_eq_false_iff_not] at hfound
  obtain ⟨hok, htodo, hcount, hmodel⟩ := hfound
  cases r with
  | error => cases hok
  | ok u =>
    refine ⟨env, s, hregister, Lts.reach_of_run hrun, htodo, fun hlogged => hmodel ?_⟩
    exact (hlogged.containers e _ n _ c he hn hc (by omega)).1

end Registration

end Sem.EnvironmentManager

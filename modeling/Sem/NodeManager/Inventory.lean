import Mathlib.Data.Set.Insert
import Mathlib.Order.Basic
import Sem.NodeManager.DeploymentContainer

/-!
# What a container has

Whether a step of a configuration throws depends only on which entities, attributes, logging
clients and logger the container has (`Inventory`), and so does what it adds.

* `Step.run_cases`: a step throws and changes nothing, or it adds what `Step.apply` says.
* `forM_cases`: the same of a list of steps, the first of which to throw ends it.
-/

namespace Sem.NodeManager

open Xml (Text)

/-- The message gets or constructs the logging client with this id. -/
def LoggerPb.IsClient (loggerPb : LoggerPb) (id : Text) : Prop :=
  loggerPb.type = .client ∧ loggerPb.mode ≠ .off ∧ loggerPb.id = id

/-- After the message there is a logger. -/
def LoggerPb.Binds (loggerPb : LoggerPb) : Prop := loggerPb.type = .model ∧ loggerPb.mode ≠ .off

namespace DeploymentContainer

open Throwing (bind_ok bind_error)

/-- What a container has, by the names of the message. -/
@[ext] structure Inventory where
  attributes : Entity → Option Attributes
  clients : Set Text
  logger : Prop
  owned : ∀ e, (attributes e).isSome → (attributes (.component e.owner)).isSome

/-- The inventory of a container. -/
def inventory (c : DeploymentContainer) : Inventory where
  attributes := fun e => (c.find e).map (·.2)
  clients := { id | id ∈ c.loganClients }
  logger := c.loganLogger.isSome
  owned := by
    intro e he
    have hlookup : c.components.lookup e.owner ≠ none := by
      intro h
      rw [find, h] at he
      cases he
    obtain ⟨k, hk⟩ := Option.ne_none_iff_exists'.mp hlookup
    show (Option.map _ (Option.bind (c.components.lookup e.owner) _)).isSome
    rw [hk]
    rfl

/-- The attributes of an entity of a new component. -/
def Parts.find (parts : Parts) : Entity → Option Attributes
  | .component _ => some parts.attributes
  | .port _ _ => none
  | .worker _ name => parts.workers.lookup name

namespace Inventory

/-- With a component that was not there. -/
def addComponent (v : Inventory) (id : Text) (parts : Parts) : Inventory where
  attributes := fun e => if e.owner = id then parts.find e else v.attributes e
  clients := v.clients
  logger := v.logger
  owned := by
    intro e he
    show (if e.owner = id then _ else _ : Option Attributes).isSome
    by_cases howner : e.owner = id
    · rw [if_pos howner]
      rfl
    · rw [if_neg howner] at he
      rw [if_neg howner]
      exact v.owned e he

/-- With a port of a component that is there. -/
def addPort (v : Inventory) {id : Text} (name : Text) (attributes : Attributes)
    (h : (v.attributes (.component id)).isSome) : Inventory where
  attributes := fun e => if e = .port id name then some attributes else v.attributes e
  clients := v.clients
  logger := v.logger
  owned := by
    intro e he
    refine (congrArg Option.isSome (if_neg nofun)).trans ?_
    by_cases heq : e = .port id name
    · rw [heq]
      exact h
    · rw [if_neg heq] at he
      exact v.owned e he

/-- With other attributes of an entity. -/
def adjust (v : Inventory) (entity : Entity) (f : Attributes → Attributes) : Inventory where
  attributes := fun e => if e = entity then (v.attributes e).map f else v.attributes e
  clients := v.clients
  logger := v.logger
  owned := by
    have hsome : ∀ e, (if e = entity then (v.attributes e).map f else v.attributes e).isSome =
        (v.attributes e).isSome := by
      intro e
      by_cases he : e = entity
      · rw [if_pos he, Option.isSome_map]
      · rw [if_neg he]
    intro e he
    rw [hsome] at he ⊢
    exact v.owned e he

end Inventory

/-- `ConstructAttribute` -/
def constructAttribute (attributes : Attributes) (attributePb : AttributePb) : Attributes :=
  if attributePb.info.name ∈ attributes then attributes
  else attributes.insert attributePb.info.name attributePb.kind.type

/-- The constructor of the port's kind returns a port. -/
def Constructs (env : Environment) (id : Text) (portPb : PortPb) : Prop :=
  match portPb.kind with
  | .periodic => env.periodicPort id portPb = .ok ⟨⟩
  | .publisher | .subscriber | .requester | .replier => env.port id portPb = .ok true
  | .noKind | .unknown _ => False

/-- The exception of a port's constructor gets out; that of a periodic port is caught and made a
`std::runtime_error`. -/
def PortThrowsOther (env : Environment) (id : Text) (portPb : PortPb) : Prop :=
  match portPb.kind with
  | .publisher | .subscriber | .requester | .replier =>
    ∃ what, env.port id portPb = .error (.other what)
  | .periodic | .noKind | .unknown _ => False

namespace Step

/-- What makes a step throw. -/
def Fails (env : Environment) (v : Inventory) : Step → Prop
  | .logger loggerPb =>
    (loggerPb.IsClient loggerPb.id ∧ loggerPb.id ∉ v.clients ∧
        ∃ e, env.loganClient loggerPb.id = .error e) ∨
      (loggerPb.type = .model ∧ ¬ v.logger ∧ ∃ e, newLoganLogger env loggerPb = .error e)
  | .component componentPb =>
    v.attributes (.component componentPb.info.id) = none ∧ env.component componentPb ≠ .ok true
  | .attribute entity attributePb =>
    ∃ attributes type, v.attributes entity = some attributes ∧
      attributes.lookup attributePb.info.name = some type ∧ type ≠ attributePb.kind.type
  | .port id portPb =>
    (v.attributes (.component id)).isSome ∧ v.attributes (.port id portPb.info.name) = none ∧
      ¬ Constructs env id portPb
  | .reconfigure _ _ => False
  | .worker id workerPb =>
    (v.attributes (.component id)).isSome ∧ v.attributes (.worker id workerPb.info.name) = none

/-- What the container has after a step that succeeds. -/
def apply (library : Library) (v : Inventory) : Step → Inventory
  | .logger loggerPb =>
    { v with
      clients := { id | id ∈ v.clients ∨ loggerPb.IsClient id }
      logger  := v.logger ∨ loggerPb.Binds }
  | .component componentPb =>
    if (v.attributes (.component componentPb.info.id)).isSome then v
    else v.addComponent componentPb.info.id (library.component componentPb)
  | .attribute entity attributePb => v.adjust entity (constructAttribute · attributePb)
  | .port id portPb =>
    if h : (v.attributes (.component id)).isSome ∧
        v.attributes (.port id portPb.info.name) = none then
      v.addPort portPb.info.name (library.port portPb) h.1
    else v
  | .reconfigure _ _ | .worker _ _ => v

/-- What the step throws, if it does, is no `std::runtime_error`. -/
def ThrowsOther (env : Environment) : Step → Prop
  | .logger loggerPb =>
    loggerPb.type = .client ∧ ∃ what, env.loganClient loggerPb.id = .error (.other what)
  | .component componentPb => ∃ what, env.component componentPb = .error (.other what)
  | .port id portPb => PortThrowsOther env id portPb
  | .attribute _ _ | .reconfigure _ _ | .worker _ _ => False

/-- A step throws and changes nothing, or it adds what `apply` says. -/
def Runs (env : Environment) (s : Step) (c : DeploymentContainer) : Prop :=
  (s.Fails env c.inventory ∧
      ∃ e, s.run env c = some (.error e, c) ∧ (s.ThrowsOther env ↔ ∃ what, e = .other what)) ∨
    (¬ s.Fails env c.inventory ∧
      ∃ c', s.run env c = some (.ok ⟨⟩, c') ∧ c'.inventory = s.apply env.library c.inventory)

end Step

/-! ## Entities -/

variable {env : Environment} {c c' : DeploymentContainer} {id : Text}

theorem find_eq_none (h : id ∉ c.components) {e : Entity} (he : e.owner = id) : c.find e = none := by
  rw [find, he, AList.lookup_eq_none.mpr h]
  rfl

theorem attributes_component_isSome :
    (c.inventory.attributes (.component id)).isSome ↔ id ∈ c.components := by
  rw [← AList.lookup_isSome]
  show ((Option.bind (c.components.lookup id) _).map _).isSome ↔ _
  cases c.components.lookup id <;> exact Iff.rfl

theorem attributes_component_eq_none :
    c.inventory.attributes (.component id) = none ↔ id ∉ c.components := by
  rw [← attributes_component_isSome, Bool.not_eq_true, Option.isSome_eq_false_iff,
    Option.isNone_iff_eq_none]

theorem attributes_port {k : Component} (h : c.components.lookup id = some k) (name : Text) :
    c.inventory.attributes (.port id name) = (k.ports.lookup name).map (·.attributes) := by
  show ((Option.bind (c.components.lookup id) _).map _) = _
  rw [h]
  show Option.map _ (Option.map _ _) = _
  rw [Option.map_map]
  rfl

theorem attributes_worker {k : Component} (h : c.components.lookup id = some k) (name : Text) :
    c.inventory.attributes (.worker id name) = k.workers.lookup name := by
  show ((Option.bind (c.components.lookup id) _).map _) = _
  rw [h]
  show Option.map _ (Option.map _ _) = _
  rw [Option.map_map]
  exact Option.map_id'

/-- A change of one component. -/
theorem find_adjust (c : DeploymentContainer) (id : Text) (f : Component → Component) (e : Entity) :
    find { c with components := c.components.adjust id f } e =
      if e.owner = id then (c.components.lookup id).bind fun k => (f k).find e else c.find e := by
  unfold find
  show Option.bind ((c.components.adjust id f).lookup e.owner) _ = _
  rw [Table.lookup_adjust]
  by_cases he : e.owner = id
  · rw [if_pos he, if_pos he, he, Option.bind_map]
    rfl
  · rw [if_neg he, if_neg he]

/-- A change that no entity of the component shows. -/
theorem inventory_adjust {f : Component → Component} (hf : ∀ e k, c.components.lookup id = some k →
    e.owner = id → (f k).find e = k.find e) :
    inventory { c with components := c.components.adjust id f } = c.inventory := by
  have h : ∀ e, find { c with components := c.components.adjust id f } e = c.find e := by
    intro e
    rw [find_adjust]
    by_cases he : e.owner = id
    · rw [if_pos he, find, he]
      cases hk : c.components.lookup id with
      | none => rfl
      | some k => exact hf e k hk he
    · exact if_neg he
  unfold inventory
  simp only [h]

/-- An attribute is added to its own entity. -/
theorem find_addAttribute (c : DeploymentContainer) (entity : Entity) (name : Text)
    (type : AttributeType) (e : Entity) :
    (c.addAttribute entity name type).find e =
      if e = entity then (c.find e).map fun x => (x.1, x.2.insert name type) else c.find e := by
  have hother : e.owner ≠ entity.owner → e ≠ entity := fun h he => h (congrArg Entity.owner he)
  cases entity with
  | component id =>
    refine (find_adjust c id _ e).trans ?_
    by_cases he : e.owner = id
    · rw [if_pos he, find, he]
      cases c.components.lookup id with
      | none => exact (ite_self none).symm
      | some k =>
        cases e with
        | component id' => exact (if_pos (congrArg _ he)).symm
        | port | worker => exact (if_neg nofun).symm
    · rw [if_neg he, if_neg (hother he)]
  | port id portName =>
    refine (find_adjust c id _ e).trans ?_
    by_cases he : e.owner = id
    · rw [if_pos he, find, he]
      cases c.components.lookup id with
      | none => exact (ite_self none).symm
      | some k =>
        cases e with
        | component | worker => exact (if_neg nofun).symm
        | port id' name =>
          show Option.map _ ((k.ports.adjust portName _).lookup name) = _
          rw [Table.lookup_adjust]
          by_cases hname : name = portName
          · rw [if_pos hname, if_pos (by rw [hname, ← he]; rfl), hname, Option.map_map]
            show _ = Option.map _ (Option.map _ (k.ports.lookup portName))
            rw [Option.map_map]
            rfl
          · rw [if_neg hname, if_neg fun h => hname (Entity.port.inj h).2]
            rfl
    · rw [if_neg he, if_neg (hother he)]
  | worker id workerName =>
    refine (find_adjust c id _ e).trans ?_
    by_cases he : e.owner = id
    · rw [if_pos he, find, he]
      cases c.components.lookup id with
      | none => exact (ite_self none).symm
      | some k =>
        cases e with
        | component | port => exact (if_neg nofun).symm
        | worker id' name =>
          show Option.map _ ((k.workers.adjust workerName _).lookup name) = _
          rw [Table.lookup_adjust]
          by_cases hname : name = workerName
          · rw [if_pos hname, if_pos (by rw [hname, ← he]; rfl), hname, Option.map_map]
            show _ = Option.map _ (Option.map _ (k.workers.lookup workerName))
            rw [Option.map_map]
            rfl
          · rw [if_neg hname, if_neg fun h => hname (Entity.worker.inj h).2]
            rfl
    · rw [if_neg he, if_neg (hother he)]

/-! ## One step -/

namespace Step

theorem isSome_of_newLoganLogger {loggerPb : LoggerPb} {logger : Option Text}
    (h : newLoganLogger env loggerPb = .ok logger) : logger.isSome ↔ loggerPb.mode ≠ .off := by
  cases hmode : loggerPb.mode with
  | off =>
    rw [newLoganLogger, hmode] at h
    cases h
    exact iff_of_false nofun fun h => h rfl
  | live | cached =>
    rw [newLoganLogger, hmode] at h
    by_cases hbind : env.bindPublisherSocket
        ("tcp://".toList ++ loggerPb.publisherAddress ++ ':' :: loggerPb.publisherPort)
    · rw [if_pos hbind] at h
      cases h
      exact iff_of_true rfl nofun
    · rw [if_neg hbind] at h
      cases h
  | unknown number =>
    rw [newLoganLogger, hmode] at h
    cases h

theorem runtimeError_of_newLoganLogger {loggerPb : LoggerPb} {e : Exception}
    (h : newLoganLogger env loggerPb = .error e) : ∃ what, e = .runtimeError what := by
  cases hmode : loggerPb.mode with
  | off =>
    rw [newLoganLogger, hmode] at h
    cases h
  | live | cached =>
    rw [newLoganLogger, hmode] at h
    by_cases hbind : env.bindPublisherSocket
        ("tcp://".toList ++ loggerPb.publisherAddress ++ ':' :: loggerPb.publisherPort)
    · rw [if_pos hbind] at h
      cases h
    · rw [if_neg hbind] at h
      cases h
      exact ⟨_, rfl⟩
  | unknown number =>
    rw [newLoganLogger, hmode] at h
    cases h
    exact ⟨_, rfl⟩

/-- Only the constructor of a port that is not periodic lets other exceptions out. -/
theorem portThrowsOther_iff {component : Component} {portPb : PortPb} {e : Exception}
    (h : constructPort env component id portPb = .error e) :
    PortThrowsOther env id portPb ↔ ∃ what, e = .other what := by
  unfold constructPort at h
  unfold PortThrowsOther
  cases hkind : portPb.kind with
  | periodic =>
    rw [hkind] at h
    cases hnew : env.periodicPort id portPb with
    | error e' =>
      simp only [hnew] at h
      cases h
      exact iff_of_false (fun h => h) nofun
    | ok u =>
      simp only [hnew] at h
      cases h
  | publisher | subscriber | requester | replier =>
    simp only [hkind] at h ⊢
    rw [h]
    simp
  | noKind | unknown =>
    rw [hkind] at h
    cases h

theorem not_portThrowsOther {component : Component} {portPb : PortPb} {made : Bool}
    (h : constructPort env component id portPb = .ok made) :
    ¬ PortThrowsOther env id portPb := by
  unfold constructPort at h
  unfold PortThrowsOther
  cases hkind : portPb.kind with
  | periodic | noKind | unknown => exact fun h => h
  | publisher | subscriber | requester | replier =>
    simp only [hkind] at h ⊢
    rw [h]
    rintro ⟨what, h⟩
    cases h

/-- A port is made exactly if the constructor of its kind makes one. -/
theorem constructPort_eq_true_iff {component : Component} {portPb : PortPb} :
    constructPort env component id portPb = .ok true ↔ Constructs env id portPb := by
  unfold constructPort Constructs
  cases portPb.kind with
  | periodic =>
    cases env.periodicPort id portPb with
    | error e => exact iff_of_false nofun nofun
    | ok u => exact iff_of_true rfl rfl
  | publisher | subscriber | requester | replier => exact Iff.rfl
  | noKind | unknown => exact iff_of_false nofun fun h => h

/-- A step of a logger that changes neither. -/
theorem apply_logger_of_not {v : Inventory} {loggerPb : LoggerPb} (library : Library)
    (hclient : ∀ id, loggerPb.IsClient id → id ∈ v.clients) (hbinds : loggerPb.Binds → v.logger) :
    apply library v (.logger loggerPb) = v :=
  Inventory.ext rfl (Set.ext fun id => or_iff_left_of_imp (hclient id))
    (propext (or_iff_left_of_imp hbinds))

theorem runs_client (env : Environment) {loggerPb : LoggerPb} (htype : loggerPb.type = .client)
    (c : DeploymentContainer) : Runs env (.logger loggerPb) c := by
  have hrun : run env (.logger loggerPb) = getConfiguredLoganClient env loggerPb := by
    show configureLogger env loggerPb = _
    rw [configureLogger, htype]
  have hmodel : loggerPb.type ≠ .model := by
    rw [htype]
    nofun
  unfold Runs
  rw [hrun]
  unfold getConfiguredLoganClient
  by_cases hmode : loggerPb.mode = .off
  · rw [if_neg fun h => h.2 hmode]
    refine .inr ⟨?_, c, rfl, (apply_logger_of_not _ (fun id h => ?_) fun h => ?_).symm⟩
    · rintro (⟨h, -⟩ | ⟨h, -⟩)
      · exact h.2.1 hmode
      · exact hmodel h
    · exact absurd hmode h.2.1
    · exact absurd hmode h.2
  · rw [if_pos ⟨htype, hmode⟩]
    -- what is set in the client does not change which ones there are
    have hset : ∀ clients : Table Text LoganClient,
        (∀ id, id ∈ clients ↔ id = loggerPb.id ∨ id ∈ c.loganClients) →
        inventory { c with loganClients := clients.adjust loggerPb.id (·.update loggerPb) } =
          apply env.library c.inventory (.logger loggerPb) := by
      intro clients hclients
      refine Inventory.ext rfl (Set.ext fun id => ?_)
        (propext (or_iff_left fun h => hmodel h.1).symm)
      refine Table.mem_adjust.trans ((hclients id).trans ?_)
      show _ ↔ id ∈ c.loganClients ∨ (_ ∧ _ ∧ loggerPb.id = id)
      rw [or_comm, and_iff_right htype, and_iff_right hmode, eq_comm]
    cases hlookup : c.loganClients.lookup loggerPb.id with
    | some client =>
      have hmem := Table.mem_of_lookup hlookup
      refine .inr ⟨?_, _, ?_, hset c.loganClients fun id => ?_⟩
      · rintro (⟨-, hnone, -⟩ | ⟨h, -⟩)
        · exact hnone hmem
        · exact hmodel h
      · rw [bind_ok (p := Throwing.read) rfl, hlookup]
        rfl
      · exact (or_iff_right_of_imp fun h => h ▸ hmem).symm
    | none =>
      have hnone := AList.lookup_eq_none.mp hlookup
      cases hnew : env.loganClient loggerPb.id with
      | error e =>
        refine .inl ⟨.inl ⟨⟨htype, hmode, rfl⟩, hnone, e, hnew⟩, e, ?_, ?_⟩
        · rw [bind_ok (p := Throwing.read) rfl, hlookup]
          rfl
        · show (_ ∧ ∃ what, env.loganClient loggerPb.id = _) ↔ _
          rw [hnew, and_iff_right htype]
          simp
      | ok =>
        refine .inr ⟨?_, _, ?_,
          hset (c.loganClients.insert loggerPb.id .start) fun id => AList.mem_insert _⟩
        · rintro (⟨-, -, e, he⟩ | ⟨h, -⟩)
          · rw [hnew] at he
            cases he
          · exact hmodel h
        · rw [bind_ok (p := Throwing.read) rfl, hlookup]
          rfl

theorem runs_model (env : Environment) {loggerPb : LoggerPb} (htype : loggerPb.type = .model)
    (c : DeploymentContainer) : Runs env (.logger loggerPb) c := by
  have hrun : run env (.logger loggerPb) c = configureLogger env loggerPb c := rfl
  have hclient : ∀ id, ¬ loggerPb.IsClient id := by
    intro id h
    cases htype.symm.trans h.1
  unfold Runs
  rw [hrun]
  unfold configureLogger
  rw [htype]
  show (_ ∧ ∃ e, (Throwing.read >>= _) c = _ ∧ _) ∨ _ ∧ ∃ c', (Throwing.read >>= _) c = _ ∧ _
  simp only [bind_ok (p := Throwing.read) rfl]
  cases hlogger : c.loganLogger with
  | some endpoint =>
    have hsome : c.inventory.logger := by
      rw [inventory, hlogger]
      rfl
    refine .inr ⟨?_, c, rfl, (apply_logger_of_not _ (fun id h => absurd h (hclient id))
      fun _ => hsome).symm⟩
    rintro (⟨h, -⟩ | ⟨-, hnone, -⟩)
    · exact hclient _ h
    · exact hnone hsome
  | none =>
    have hnone : ¬ c.inventory.logger := by
      rw [inventory, hlogger]
      nofun
    cases hnew : newLoganLogger env loggerPb with
    | error e =>
      obtain ⟨what, rfl⟩ := runtimeError_of_newLoganLogger hnew
      refine .inl ⟨.inr ⟨htype, hnone, _, hnew⟩, _, rfl, iff_of_false ?_ nofun⟩
      exact fun h => nomatch htype.symm.trans h.1
    | ok logger =>
      refine .inr ⟨?_, { c with loganLogger := logger }, rfl, Inventory.ext rfl
        (Set.ext fun id => (or_iff_left (hclient id)).symm) (propext ?_)⟩
      · rintro (⟨h, -⟩ | ⟨-, -, e, he⟩)
        · exact hclient _ h
        · rw [hnew] at he
          cases he
      · show logger.isSome ↔ c.inventory.logger ∨ (_ ∧ loggerPb.mode ≠ .off)
        rw [isSome_of_newLoganLogger hnew, or_iff_right hnone, and_iff_right htype]

/-- Each kind of logger is set up in its own way. -/
theorem runs_logger (env : Environment) (loggerPb : LoggerPb) (c : DeploymentContainer) :
    Runs env (.logger loggerPb) c := by
  by_cases hclient : loggerPb.type = .client
  · exact runs_client env hclient c
  by_cases hmodel : loggerPb.type = .model
  · exact runs_model env hmodel c
  refine .inr ⟨?_, c, ?_, (apply_logger_of_not _ (fun id h => absurd h.1 hclient)
    fun h => absurd h.1 hmodel).symm⟩
  · rintro (⟨h, -⟩ | ⟨h, -⟩)
    · exact hclient h.1
    · exact hmodel h
  · show configureLogger env loggerPb c = _
    unfold configureLogger
    cases htype : loggerPb.type with
    | client => exact absurd htype hclient
    | model => exact absurd htype hmodel
    | none | server | experiment | unknown => rfl

/-- A component that is there is used again. -/
theorem runs_component (env : Environment) (componentPb : ComponentPb) (c : DeploymentContainer) :
    Runs env (.component componentPb) c := by
  have hrun : run env (.component componentPb) c = getComponent env componentPb c := rfl
  unfold Runs
  rw [hrun, getComponent, bind_ok (p := Throwing.read) rfl]
  cases hlookup : c.components.lookup componentPb.info.id with
  | some k =>
    have hmem := attributes_component_isSome.mpr (Table.mem_of_lookup hlookup)
    have happly : apply env.library c.inventory (.component componentPb) = c.inventory :=
      if_pos hmem
    refine .inr ⟨fun h => ?_, c, rfl, happly.symm⟩
    rw [h.1] at hmem
    cases hmem
  | none =>
    have hnone := AList.lookup_eq_none.mp hlookup
    have hattributes := attributes_component_eq_none.mpr hnone
    unfold constructComponent
    cases hnew : env.component componentPb with
    | error e =>
      refine .inl ⟨⟨hattributes, by rw [hnew]; nofun⟩, e, rfl, ?_⟩
      show (∃ what, env.component componentPb = _) ↔ _
      rw [hnew]
      simp
    | ok found =>
      cases found with
      | false =>
        refine .inl ⟨⟨hattributes, by rw [hnew]; nofun⟩, _, rfl, iff_of_false ?_ nofun⟩
        rintro ⟨what, h⟩
        cases hnew.symm.trans h
      | true =>
        refine .inr ⟨fun h => h.2 hnew, _, rfl, ?_⟩
        rw [apply, if_neg (by rw [hattributes]; nofun)]
        refine Inventory.ext (funext fun e => ?_) rfl rfl
        show Option.map _ (Option.bind (AList.lookup e.owner (AList.insert componentPb.info.id
          (_ : Component) c.components)) _) = if _ then _ else _
        rw [Table.lookup_insert]
        by_cases he : e.owner = componentPb.info.id
        · rw [if_pos he, if_pos he]
          cases e with
          | component id => rfl
          | port id name => rfl
          | worker id name => exact (Option.map_map _ _ _).trans Option.map_id'
        · rw [if_neg he, if_neg he]
          rfl

/-- An attribute keeps its type, and a value of another one is refused. -/
theorem runs_attribute (env : Environment) (entity : Entity) (attributePb : AttributePb)
    (c : DeploymentContainer) : Runs env (.attribute entity attributePb) c := by
  have hrun : run env (.attribute entity attributePb) c = setAttributeFromPb entity attributePb c :=
    rfl
  -- the attributes of the entity, whatever they become
  have happly : ∀ c' : DeploymentContainer, (∀ e, c'.find e =
        if e = entity then (c.find e).map fun x => (x.1, constructAttribute x.2 attributePb)
        else c.find e) → c'.loganClients = c.loganClients → c'.loganLogger = c.loganLogger →
      c'.inventory = apply env.library c.inventory (.attribute entity attributePb) := by
    intro c' hfind hclients hlogger
    refine Inventory.ext (funext fun e => ?_) ?_ ?_
    · show (c'.find e).map _ = if e = entity then Option.map _ ((c.find e).map _)
        else (c.find e).map _
      rw [hfind]
      by_cases he : e = entity
      · rw [if_pos he, if_pos he, Option.map_map, Option.map_map]
        rfl
      · rw [if_neg he, if_neg he]
    · show { id | id ∈ c'.loganClients } = { id | id ∈ c.loganClients }
      rw [hclients]
    · show (c'.loganLogger.isSome : Prop) = c.loganLogger.isSome
      rw [hlogger]
  have hattributes : c.inventory.attributes entity = (c.find entity).map (·.2) := rfl
  unfold Runs
  rw [hrun, setAttributeFromPb, bind_ok (p := Throwing.read) rfl]
  cases hentity : c.find entity with
  | none =>
    refine .inr ⟨?_, c, rfl, happly c (fun e => ?_) rfl rfl⟩
    · rintro ⟨attributes, type, h, -⟩
      rw [hattributes, hentity] at h
      cases h
    · by_cases he : e = entity
      · rw [if_pos he, he, hentity]
        rfl
      · exact (if_neg he).symm
  | some found =>
    obtain ⟨name, attributes⟩ := found
    dsimp only
    cases hlookup : attributes.lookup attributePb.info.name with
    | none =>
      have hnew := AList.lookup_eq_none.mp hlookup
      refine .inr ⟨?_, _, rfl, happly _ (fun e => ?_) ?_ ?_⟩
      · rintro ⟨attributes', type, h, hsome, -⟩
        rw [hattributes, hentity] at h
        cases h
        rw [hlookup] at hsome
        cases hsome
      · rw [find_addAttribute]
        by_cases he : e = entity
        · rw [if_pos he, if_pos he, he, hentity]
          show some (name, _) = some (name, constructAttribute attributes attributePb)
          rw [constructAttribute, if_neg hnew]
        · rw [if_neg he, if_neg he]
      · cases entity <;> rfl
      · cases entity <;> rfl
    | some type =>
      have hold : attributePb.info.name ∈ attributes := Table.mem_of_lookup hlookup
      by_cases htype : type = attributePb.kind.type
      · simp only [if_pos htype]
        refine .inr ⟨?_, c, rfl, happly c (fun e => ?_) rfl rfl⟩
        · rintro ⟨attributes', type', h, hsome, hne⟩
          rw [hattributes, hentity] at h
          cases h
          rw [hlookup] at hsome
          exact hne ((Option.some.inj hsome).symm.trans htype)
        · by_cases he : e = entity
          · rw [if_pos he, he, hentity]
            show some (name, _) = some (name, constructAttribute attributes attributePb)
            rw [constructAttribute, if_pos hold]
          · exact (if_neg he).symm
      · simp only [if_neg htype]
        exact .inl ⟨⟨attributes, type, by rw [hattributes, hentity]; rfl, hlookup, htype⟩, _, rfl,
          iff_of_false (fun h => h) nofun⟩

/-- A port that cannot be made is left out or ends the configuration. -/
theorem runs_port (env : Environment) (id : Text) (portPb : PortPb) (c : DeploymentContainer) :
    Runs env (.port id portPb) c := by
  have hrun : run env (.port id portPb) c = getPort env id portPb c := rfl
  unfold Runs
  rw [hrun, getPort, bind_ok (p := Throwing.read) rfl]
  cases hlookup : c.components.lookup id with
  | none =>
    have hnone := attributes_component_eq_none.mpr (AList.lookup_eq_none.mp hlookup)
    refine .inr ⟨?_, c, rfl, ?_⟩
    · rintro ⟨h, -⟩
      rw [hnone] at h
      cases h
    · rw [apply, dif_neg (by simp [hnone])]
  | some k =>
    have hcomponent := attributes_component_isSome.mpr (Table.mem_of_lookup hlookup)
    have hport := attributes_port hlookup portPb.info.name
    cases hports : k.ports.lookup portPb.info.name with
    | some port =>
      rw [hports] at hport
      simp only [hports]
      refine .inr ⟨?_, c, rfl, ?_⟩
      · rintro ⟨-, h, -⟩
        rw [hport] at h
        cases h
      · rw [apply, dif_neg (by simp [hport])]
    | none =>
      rw [hports] at hport
      simp only [hports]
      by_cases hmade : Constructs env id portPb
      · rw [constructPort_eq_true_iff.mpr hmade]
        refine .inr ⟨fun h => h.2.2 hmade, _, rfl, ?_⟩
        rw [apply, dif_pos ⟨hcomponent, hport⟩]
        refine Inventory.ext (funext fun e => ?_) rfl rfl
        show _ = if _ then _ else Option.map _ (c.find e)
        refine (congrArg (Option.map _) (find_adjust c id _ e)).trans ?_
        by_cases he : e.owner = id
        · rw [if_pos he, find, he, hlookup]
          cases e with
          | component | worker => exact (if_neg nofun).symm
          | port id' name =>
            show Option.map _ (Option.map _ (AList.lookup name (AList.insert portPb.info.name
              (_ : Port) k.ports))) = _
            rw [Table.lookup_insert]
            by_cases hname : name = portPb.info.name
            · rw [if_pos hname, if_pos (by rw [hname, ← he]; rfl)]
              rfl
            · rw [if_neg hname, if_neg fun h => hname (Entity.port.inj h).2]
              rfl
        · rw [if_neg he, if_neg (by rintro rfl; exact he rfl)]
      · have hnot : constructPort env k id portPb ≠ .ok true :=
          fun h => hmade (constructPort_eq_true_iff.mp h)
        refine .inl ⟨⟨hcomponent, hport, hmade⟩, ?_⟩
        cases hconstruct : constructPort env k id portPb with
        | error e => exact ⟨e, rfl, portThrowsOther_iff hconstruct⟩
        | ok made =>
          cases made with
          | true => exact absurd hconstruct hnot
          | false => exact ⟨_, rfl, iff_of_false (not_portThrowsOther hconstruct) nofun⟩

theorem runs_reconfigure (env : Environment) (id name : Text) (c : DeploymentContainer) :
    Runs env (.reconfigure id name) c := by
  refine .inr ⟨fun h => h, _, rfl, inventory_adjust fun e k _ _ => ?_⟩
  cases e with
  | component | worker => rfl
  | port id' portName =>
    show Option.map _ ((k.ports.adjust name _).lookup portName) = Option.map _ _
    rw [Table.lookup_adjust]
    by_cases hname : portName = name
    · rw [if_pos hname, hname, Option.map_map]
      simp only [Function.comp_def, Port.reconfigure_attributes]
    · rw [if_neg hname]

theorem runs_worker (env : Environment) (id : Text) (workerPb : WorkerPb)
    (c : DeploymentContainer) : Runs env (.worker id workerPb) c := by
  have hrun : run env (.worker id workerPb) c = getWorker id workerPb c := rfl
  unfold Runs
  rw [hrun, getWorker, bind_ok (p := Throwing.read) rfl]
  cases hlookup : c.components.lookup id with
  | none =>
    have hnone := attributes_component_eq_none.mpr (AList.lookup_eq_none.mp hlookup)
    refine .inr ⟨?_, c, rfl, rfl⟩
    rintro ⟨h, -⟩
    rw [hnone] at h
    cases h
  | some k =>
    have hcomponent := attributes_component_isSome.mpr (Table.mem_of_lookup hlookup)
    have hworker := attributes_worker hlookup workerPb.info.name
    by_cases hmem : workerPb.info.name ∈ k.workers
    · simp only [if_pos hmem]
      refine .inr ⟨?_, c, rfl, rfl⟩
      rintro ⟨-, h⟩
      exact AList.lookup_eq_none.mp (hworker.symm.trans h) hmem
    · simp only [if_neg hmem]
      exact .inl ⟨⟨hcomponent, hworker.trans (AList.lookup_eq_none.mpr hmem)⟩, _, rfl,
        iff_of_false (fun h => h) nofun⟩

/-- The outcome of every step, as the inventory tells it. -/
theorem run_cases (env : Environment) (s : Step) (c : DeploymentContainer) : Runs env s c := by
  cases s with
  | logger loggerPb => exact runs_logger env loggerPb c
  | component componentPb => exact runs_component env componentPb c
  | «attribute» entity attributePb => exact runs_attribute env entity attributePb c
  | port id portPb => exact runs_port env id portPb c
  | reconfigure id name => exact runs_reconfigure env id name c
  | worker id workerPb => exact runs_worker env id workerPb c

end Step

/-! ## Lists of steps -/

/-- No step of the list throws. -/
def Passes (env : Environment) (v : Inventory) : List Step → Prop
  | [] => True
  | s :: l => ¬ s.Fails env v ∧ Passes env (s.apply env.library v) l

/-- What some steps add to an inventory. -/
def applyAll (library : Library) (v : Inventory) (l : List Step) : Inventory :=
  l.foldl (fun v s => s.apply library v) v

/-- The list succeeds, or one of its steps throws and ends it. -/
theorem forM_cases (env : Environment) (l : List Step) (c : DeploymentContainer) :
    (Passes env c.inventory l ∧ ∃ c', l.forM (Step.run env) c = some (.ok ⟨⟩, c') ∧
        c'.inventory = applyAll env.library c.inventory l) ∨
      ¬ Passes env c.inventory l ∧ ∃ passed s rest e c', l = passed ++ s :: rest ∧
        Passes env c.inventory passed ∧ c'.inventory = applyAll env.library c.inventory passed ∧
        s.Fails env c'.inventory ∧ (s.ThrowsOther env ↔ ∃ what, e = .other what) ∧
        l.forM (Step.run env) c = some (.error e, c') := by
  induction l generalizing c with
  | nil => exact .inl ⟨trivial, c, rfl, rfl⟩
  | cons s l ih =>
    obtain ⟨hfails, e, he, hother⟩ | ⟨hfails, c₁, hc₁, happly⟩ := s.run_cases env c
    · exact .inr ⟨fun h => h.1 hfails, [], s, l, e, c, rfl, trivial, rfl, hfails, hother,
        Throwing.forM_cons_error he⟩
    · have hih := ih c₁
      rw [happly] at hih
      obtain ⟨hpasses, c', hc', hc'apply⟩ |
        ⟨hpasses, passed, s', rest, e, c', rfl, hpassed, hc'apply, hs', hother, hl⟩ := hih
      · exact .inl ⟨⟨hfails, hpasses⟩, c', (bind_ok hc₁).trans hc', hc'apply⟩
      · exact .inr ⟨fun h => hpasses h.2, s :: passed, s', rest, e, c', rfl, ⟨hfails, hpassed⟩,
          hc'apply, hs', hother, (bind_ok hc₁).trans hl⟩

/-- Where the list fails is decided by the inventory. -/
theorem fails_unique {v : Inventory} {passed passed' rest rest' : List Step} {s s' : Step}
    (h : passed ++ s :: rest = passed' ++ s' :: rest')
    (hpassed : Passes env v passed) (hs : s.Fails env (applyAll env.library v passed))
    (hpassed' : Passes env v passed') (hs' : s'.Fails env (applyAll env.library v passed')) :
    passed = passed' ∧ s = s' := by
  induction passed generalizing v passed' with
  | nil =>
    cases passed' with
    | nil => exact ⟨rfl, (List.cons.inj h).1⟩
    | cons a passed' =>
      obtain rfl := (List.cons.inj h).1
      exact absurd hs hpassed'.1
  | cons a passed ih =>
    cases passed' with
    | nil =>
      obtain rfl := (List.cons.inj h).1
      exact absurd hs' hpassed.1
    | cons a' passed' =>
      obtain ⟨rfl, htail⟩ := List.cons.inj h
      obtain ⟨rfl, rfl⟩ := ih htail hpassed.2 hs hpassed'.2 hs'
      exact ⟨rfl, rfl⟩

/-- A list passes where its parts do. -/
theorem passes_append {v : Inventory} {l l' : List Step} : Passes env v (l ++ l') ↔
    Passes env v l ∧ Passes env (applyAll env.library v l) l' := by
  induction l generalizing v with
  | nil => exact (true_and _).symm.to_iff
  | cons s l ih =>
    show (_ ∧ Passes env (s.apply env.library v) (l ++ l')) ↔ (_ ∧ Passes env _ l) ∧ _
    rw [ih, and_assoc]
    rfl

end DeploymentContainer

end Sem.NodeManager

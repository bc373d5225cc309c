import Sem.EnvironmentManager.PlanSteps
import Sem.EnvironmentManager.Rules

/-!
# Updates reach the master

A change that the master of an experiment is to be told marks the port, all that is above it and
the experiment. The next heartbeat of the master is answered from the marks and clears them. A full
read clears them as well, so it must not come in between.

* `Owing`: what the marks say about the updates that are owed.
* `Experiment.holds_toProto`: a marked port is in the message.
* `owing_rules`: the marks in every run.
* `told_of_reach`: a heartbeat reply tells everything that is owed.
-/

namespace Sem.EnvironmentManager

open Xml (Text)
open Throwing (Ends Keeps Preserves read update undefined)

/-! ## Marked ports -/

/-- The port is marked, and so is the component. -/
def Component.PortDirty (k : Component) (port : Text) : Prop :=
  k.dirty ∧ k.ports.At port fun p => p.dirty

/-- The container has a component with a port that is to be sent. -/
def Container.PortDirty (c : Container) (component port : Text) : Prop :=
  c.dirty ∧ c.components.At component (·.PortDirty port)

/-- The node has a container with such a port. -/
def Node.PortDirty (n : Node) (container component port : Text) : Prop :=
  n.dirty ∧ n.containers.At container (·.PortDirty component port)

/-- The port at the path is to be sent, with everything around it. -/
def Experiment.PortDirty (e : Experiment) (path : PortPath) : Prop :=
  e.dirty ∧ e.nodes.At path.node (·.PortDirty path.container path.component path.port)

namespace Experiment

/-- Where `GetPort` finds a port, there is one. -/
theorem at_of_findPort {e : Experiment} {path : PortPath}
    (h : e.findPort path.port = some (path.node, path.container, path.component)) :
    e.nodes.At path.node fun n => n.containers.At path.container fun c =>
      c.components.At path.component fun k => path.port ∈ k.ports := by
  obtain ⟨n, hn, h⟩ := List.exists_of_findSome?_eq_some h
  obtain ⟨c, hc, h⟩ := List.exists_of_findSome?_eq_some h
  obtain ⟨k, hk, h⟩ := List.exists_of_findSome?_eq_some h
  split at h
  · next hport =>
    simp only [Option.some.injEq, Prod.mk.injEq] at h
    obtain ⟨h₁, h₂, h₃⟩ := h
    refine ⟨n.2, h₁ ▸ AList.mem_lookup_iff.mpr hn, c.2, h₂ ▸ AList.mem_lookup_iff.mpr hc, k.2,
      h₃ ▸ AList.mem_lookup_iff.mpr hk, hport⟩
  · cases h

/-- `Port::SetDirty` marks the port and all that is above it. -/
theorem portDirty_setDirty {e : Experiment} {path : PortPath}
    (h : e.findPort path.port = some (path.node, path.container, path.component)) :
    (e.setDirty path).PortDirty path := by
  obtain ⟨n, hn, c, hc, k, hk, hport⟩ := at_of_findPort h
  obtain ⟨p, hp⟩ := Table.mem_iff_lookup.mp hport
  refine ⟨rfl, n.setDirty path.container path.component path.port, ?_, rfl,
    c.setDirty path.component path.port, ?_, rfl, k.setDirty path.port, ?_, rfl,
    { p with dirty := true }, ?_, rfl⟩
  · rw [setDirty, Table.lookup_adjust, if_pos rfl, hn, Option.map_some]
  · rw [Node.setDirty, Table.lookup_adjust, if_pos rfl, hc, Option.map_some]
  · rw [Container.setDirty, Table.lookup_adjust, if_pos rfl, hk, Option.map_some]
  · rw [Component.setDirty, Table.lookup_adjust, if_pos rfl, hp, Option.map_some]

/-- Marking another port clears no mark. -/
theorem PortDirty.setDirty {e : Experiment} {path : PortPath} (h : e.PortDirty path)
    (path' : PortPath) : (e.setDirty path').PortDirty path := by
  have hcomponent : ∀ (k : Component) port port', k.PortDirty port →
      (k.setDirty port').PortDirty port := fun k port port' hk =>
    ⟨rfl, hk.2.adjust port' (fun _ => id) fun _ _ => rfl⟩
  have hcontainer : ∀ (c : Container) component port component' port',
      c.PortDirty component port → (c.setDirty component' port').PortDirty component port :=
    fun c component port component' port' hc =>
      ⟨rfl, hc.2.adjust component' (fun _ => id) fun k => hcomponent k port port'⟩
  have hnode : ∀ (n : Node) container component port container' component' port',
      n.PortDirty container component port →
        (n.setDirty container' component' port').PortDirty container component port :=
    fun n container component port container' component' port' hn =>
      ⟨rfl, hn.2.adjust container' (fun _ => id) fun c => hcontainer c _ _ _ _⟩
  exact ⟨rfl, h.2.adjust path'.node (fun _ => id) fun n => hnode n _ _ _ _ _ _⟩

end Experiment

/-! ## Messages -/

/-- The port at the place is in the message. -/
def ComponentProto.Holds (k : ComponentProto) (component port : Text) : Prop :=
  k.id = component ∧ port ∈ k.ports

/-- The update of a container has the port. -/
def ContainerProto.Holds (c : ContainerProto) (container component port : Text) : Prop :=
  c.id = container ∧ ∃ k ∈ c.components, k.Holds component port

/-- The update of a node has the port. -/
def NodeProto.Holds (n : NodeProto) (path : PortPath) : Prop :=
  n.ipAddress = path.node ∧ ∃ c ∈ n.containers, c.Holds path.container path.component path.port

/-- A component with a dirty port is in the update, with that port. -/
theorem Component.holds_toProto {k : Component} {id port : Text} (h : k.PortDirty port) :
    ∃ proto, k.toProto false id = some proto ∧ proto.Holds id port := by
  obtain ⟨hdirty, p, hp, hport⟩ := h
  refine ⟨_, if_pos (.inl hdirty), rfl, List.mem_filterMap.mpr ⟨⟨port, p⟩, ?_, ?_⟩⟩
  · exact AList.mem_lookup_iff.mp hp
  · exact if_pos (.inl hport)

/-- So is the container of such a component. -/
theorem Container.holds_toProto {c : Container} {id component port : Text}
    (h : c.PortDirty component port) :
    ∃ proto, c.toProto false id = some proto ∧ proto.Holds id component port := by
  obtain ⟨hdirty, k, hk, hport⟩ := h
  obtain ⟨proto, hproto, hholds⟩ := k.holds_toProto hport
  exact ⟨_, if_pos (.inl hdirty), rfl, proto,
    List.mem_filterMap.mpr ⟨⟨component, k⟩, AList.mem_lookup_iff.mp hk, hproto⟩, hholds⟩

theorem Container.PortDirty.getDeployedComponentCount {c : Container} {component port : Text}
    (h : c.PortDirty component port) : c.getDeployedComponentCount ≠ 0 := by
  obtain ⟨-, k, hk, -⟩ := h
  intro hzero
  have hmem := AList.mem_keys.mp (Table.mem_of_lookup hk)
  rw [List.eq_nil_of_length_eq_zero hzero] at hmem
  cases hmem

/-- And its node. -/
theorem Node.holds_toProto {n : Node} {path : PortPath}
    (h : n.PortDirty path.container path.component path.port) :
    ∃ proto, n.toProto false path.node = some proto ∧ proto.Holds path := by
  obtain ⟨hdirty, c, hc, hport⟩ := h
  obtain ⟨proto, hproto, hholds⟩ := @Container.holds_toProto c path.container _ _ hport
  have hmem : (⟨path.container, c⟩ : Sigma fun _ : Text => Container) ∈ n.containers.entries :=
    AList.mem_lookup_iff.mp hc
  refine ⟨_, if_pos ⟨List.ne_nil_of_mem hmem, .inl hdirty⟩, rfl, proto,
    List.mem_filterMap.mpr ⟨⟨path.container, c⟩, hmem, ?_⟩, hholds⟩
  rw [if_pos hport.getDeployedComponentCount, hproto]

theorem Node.PortDirty.getDeployedComponentCount {n : Node} {container component port : Text}
    (h : n.PortDirty container component port) : n.getDeployedComponentCount ≠ 0 := by
  obtain ⟨-, c, hc, hport⟩ := h
  have hcount := hport.getDeployedComponentCount
  have hle : c.getDeployedComponentCount ≤ n.getDeployedComponentCount :=
    c.getDeployedComponentCount_eq ▸ Node.card_components_le hc
  omega

/-- And so is the whole path in the update of the experiment. -/
theorem Experiment.holds_toProto {e : Experiment} {path : PortPath} (h : e.PortDirty path) :
    ∃ n ∈ e.toProto false, n.Holds path := by
  obtain ⟨-, n, hn, hport⟩ := h
  obtain ⟨proto, hproto, hholds⟩ := Node.holds_toProto hport
  refine ⟨proto, List.mem_filterMap.mpr ⟨⟨path.node, n⟩, AList.mem_lookup_iff.mp hn, ?_⟩, hholds⟩
  rw [if_pos hport.getDeployedComponentCount, hproto]

/-- The message says so. A shutdown message has no ports. -/
def EnvironmentMessage.Tells : EnvironmentMessage → Update → Prop
  | .shutdownExperiment _, .shutdown => True
  | .configureExperiment _ nodes, .port path => ∃ n ∈ nodes, n.Holds path
  | .shutdownExperiment _, .port _ | .configureExperiment _ _, .shutdown | .heartbeatAck, _ => False

/-- The experiment of the master is being shut down. -/
def Environment.ShutsDown (env : Environment) (name : Text) : Prop :=
  ∃ e, env.experimentMap.lookup name = some e ∧ e.shutdown = true

/-! ## What is owed -/

/-- The update can be seen in the experiment. -/
def Experiment.Shows (e : Experiment) : Update → Prop
  | .port path => e.PortDirty path
  | .shutdown => e.dirty ∧ e.shutdown

/-- Every update that is owed to one of these masters can be seen. -/
def Owing (masters : Text → Prop) (env : Environment) : Prop :=
  ∀ m u, (m, u) ∈ env.owed → masters m →
    ∃ e, env.experimentMap.lookup m = some e ∧ e.state ≠ .registered ∧ e.Shows u

/-- Nothing is owed to the master. -/
def Settled (name : Text) (env : Environment) : Prop := ∀ u, (name, u) ∉ env.owed

/-- The experiment is not completed yet. -/
def Registering (name : Text) (env : Environment) : Prop :=
  ∀ e, env.experimentMap.lookup name = some e → e.state = .registered

variable {masters : Text → Prop} {name : Text}

/-- An experiment that is registered owes its master nothing of before. -/
theorem Registering.settled {env : Environment} (h : Registering name env)
    (howing : Owing (fun _ => True) env) : Settled name env := by
  intro u hmem
  obtain ⟨e, he, hstate, -⟩ := howing name u hmem trivial
  exact hstate (h e he)

/-- A change of an experiment in which the updates can still be seen. -/
theorem Owing.modify {env : Environment} {m : Text} {f : Experiment → Experiment}
    (h : Owing masters env) (hf : ∀ e u, (m, u) ∈ env.owed → masters m →
      e.state ≠ .registered → e.Shows u → (f e).state ≠ .registered ∧ (f e).Shows u) :
    Owing masters { env with experimentMap := env.experimentMap.adjust m f } := by
  intro m' u hmem hm
  obtain ⟨e, he, hstate, hshows⟩ := h m' u hmem hm
  by_cases heq : m' = m
  · subst heq
    refine ⟨f e, ?_, hf e u hmem hm hstate hshows⟩
    rw [Table.lookup_adjust, if_pos rfl, he, Option.map_some]
  · refine ⟨e, ?_, hstate, hshows⟩
    rw [Table.lookup_adjust, if_neg heq, he]

/-- A mark of a port is owed from then on. -/
theorem Owing.setDirty {env : Environment} {m : Text} {e : Experiment} {path : PortPath}
    (h : Owing masters env) (he : env.experimentMap.lookup m = some e)
    (hstate : e.state ≠ .registered)
    (hfound : e.findPort path.port = some (path.node, path.container, path.component)) :
    Owing masters { env with
      experimentMap := env.experimentMap.adjust m (·.setDirty path)
      owed := (m, .port path) :: env.owed } := by
  have hold : Owing masters
      { env with experimentMap := env.experimentMap.adjust m (·.setDirty path) } := by
    refine h.modify fun e u _ _ hstate hshows => ⟨hstate, ?_⟩
    cases u with
    | port path' => exact Experiment.PortDirty.setDirty hshows path
    | shutdown => exact ⟨rfl, hshows.2⟩
  intro m' u hmem hm
  obtain heq | hmem := List.mem_cons.mp hmem
  · cases heq
    refine ⟨e.setDirty path, ?_, hstate, Experiment.portDirty_setDirty hfound⟩
    rw [Table.lookup_adjust, if_pos rfl, he, Option.map_some]
  · exact hold m' u hmem hm

/-- Other experiments may be marked meanwhile. -/
theorem stable_owing : Stable name (Owing masters) where
  labels _ _ := id
  ids _ _ _ _ h := h.modify fun e u _ _ hstate hshows => by
    refine ⟨hstate, ?_⟩
    cases u with
    | port path => exact hshows
    | shutdown => exact hshows
  mark _ _ _ _ he hstate hfound h := h.setDirty he hstate hfound
  nodeMap _ _ _ := id

theorem Registering.modify {env : Environment} {m : Text} {f : Experiment → Experiment}
    (h : Registering name env) (hf : ∀ e, (f e).state = e.state) :
    Registering name { env with experimentMap := env.experimentMap.adjust m f } := by
  intro e he
  rw [Table.lookup_adjust] at he
  split at he
  · obtain ⟨e', he', rfl⟩ := Option.map_eq_some_iff.mp he
    exact (hf e').trans (h e' he')
  · exact h e he

/-- While an experiment is built, nothing is owed to its master. -/
theorem buildStable_owing :
    BuildStable name fun env => Registering name env ∧ Owing (fun _ => True) env where
  labels _ _ := id
  ids env r internalId f h := ⟨h.1.modify fun _ => rfl, stable_owing.ids env r internalId f h.2⟩
  mark env m e path he hstate hfound h :=
    ⟨h.1.modify fun _ => rfl, h.2.setDirty he hstate hfound⟩
  nodeMap _ _ _ := id
  modify env f hf h := by
    have hstate e : (f e).bare.state = e.bare.state := by rw [hf]
    exact ⟨h.1.modify hstate, h.2.modify fun e u hmem _ _ _ => absurd hmem (h.1.settled h.2 u)⟩
  addNode _ _ := id

/-! ## Reading -/

/-- Nothing is out of sight afterwards. -/
def Experiment.SeenIn (e e' : Experiment) : Prop :=
  e'.state = e.state ∧ ∀ u, e.Shows u → e'.Shows u

/-- A change that keeps marks leaves every update as it was. -/
theorem Experiment.seenIn_adjustContainer (e : Experiment) (ip container : Text)
    {f : Container → Container} (hf : ∀ c component port, c.PortDirty component port →
      (f c).PortDirty component port) : e.SeenIn (e.adjustContainer ip container f) := by
  refine ⟨rfl, fun u hshows => ?_⟩
  cases u with
  | port path =>
    refine ⟨hshows.1, hshows.2.adjust ip (fun _ => id) fun n hn => ⟨hn.1, ?_⟩⟩
    exact hn.2.adjust container (fun _ => id) fun c => hf c _ _
  | shutdown => exact hshows

/-- What the programs that assign ports on the way of a read keep. -/
structure ReadStable (name : Text) (I : Environment → Prop) : Prop where
  nodeMap : ∀ env ip f, I env → I { env with nodeMap := env.nodeMap.adjust ip f }
  modify : ∀ env f, (∀ e, Experiment.SeenIn e (f e)) → I env →
    I { env with experimentMap := env.experimentMap.adjust name f }

namespace ReadStable

variable {I : Environment → Prop} (h : ReadStable name I)

include h

theorem assignPort (ip : Text) {f : Option ℕ → Experiment → Experiment}
    (hf : ∀ port e, Experiment.SeenIn e (f port e)) :
    Preserves I (getPort ip >>= fun port => modifyExperiment name (f port)) :=
  (getPort_preserves h.nodeMap ip).bind fun port => .update fun env => h.modify env _ (hf port)

theorem getMasterPublisherAddress : Preserves I (getMasterPublisherAddress name) :=
  getExperimentInternal_preserves fun e =>
    .ite (h.assignPort _ fun _ e => ⟨rfl, fun u hu => by cases u <;> exact hu⟩) (.pure _)

theorem getMasterRegistrationAddress : Preserves I (getMasterRegistrationAddress name) :=
  getExperimentInternal_preserves fun e =>
    .ite (h.assignPort _ fun _ e => ⟨rfl, fun u hu => by cases u <;> exact hu⟩) (.pure _)

theorem getPublisherPort (ip container logger : Text) :
    Preserves I (getPublisherPort name ip container logger) := by
  refine getExperimentInternal_preserves fun e => ?_
  cases e.getLogger ip container logger with
  | none => exact .throw _
  | some found =>
    refine .ite (.ite (.throw _) (.ite (.throw _) (.ite (.throw _) ?_))) (.pure _)
    exact h.assignPort ip fun port e =>
      e.seenIn_adjustContainer ip container fun _ _ _ => id

theorem readLogger (ip container logger : Text) :
    Preserves I (readLogger name ip container logger) := by
  have hread : ∀ ip container logger,
      Preserves I (catchRuntimeError (EnvironmentManager.getPublisherPort name ip container logger))
    := fun _ _ _ => .tryCatch (h.getPublisherPort _ _ _) fun _ => .ite (.pure _) (.throw _)
  refine getExperimentInternal_preserves fun e => ?_
  cases e.getLogger ip container logger with
  | none => exact .pure _
  | some found =>
    obtain ⟨c, l⟩ := found
    dsimp only
    cases l.type with
    | server => exact .forM fun _ => .forM fun _ => hread _ _ _
    | client => exact hread _ _ _
    | model => exact hread _ _ _
    | experiment => exact hread _ _ _
    | none => exact .pure _

theorem readLoggers (full : Bool) : Preserves I (readLoggers name full) :=
  getExperimentInternal_preserves fun _ => .ite (.forM fun _ => h.readLogger _ _ _) (.pure _)

/-- A read, which clears the marks in the end. -/
theorem getProto {full : Bool} {J : Environment → Prop} (hJ : ∀ env, I env →
    J { env with experimentMap := env.experimentMap.adjust name (·.clearDirty full) })
    (hsame : ∀ env e, env.experimentMap.lookup name = some e → ¬(e.dirty ∨ full) → I env → J env) :
    Ends I (getProto name full) (fun _ => J) I := by
  refine getExperimentInternal_ends (fun env e hI he => ?_) fun _ hI _ => hI
  refine .ite (fun _ => ?_) fun hclean => .pure fun _ heq => heq ▸ hsame env e he hclean hI
  have hclear : ∀ message, Ends I
      (modifyExperiment name (·.clearDirty full) >>= fun _ => pure message)
      (fun _ : Option EnvironmentMessage => J) I := fun _ =>
    Ends.bind (R := fun _ => J) (.update hJ) fun _ => .pure fun _ => id
  have hI : ∀ t, t = env → I t := fun _ heq => heq ▸ hI
  refine .ite (fun _ => (hclear _).pre hI) fun _ => ?_
  refine Ends.pre (Ends.bind (h.readLoggers full) fun _ => Ends.bind h.getMasterPublisherAddress
    fun _ => Ends.bind h.getMasterRegistrationAddress fun _ => hclear _) hI

end ReadStable

/-! ## The programs -/

theorem Owing.mono {masters' : Text → Prop} {env : Environment} (h : Owing masters env)
    (hle : ∀ m, masters' m → masters m) : Owing masters' env :=
  fun m u hmem hm => h m u hmem (hle m hm)

/-- Reading other experiments takes nothing away. -/
theorem readStable_owing : ReadStable name (Owing masters) where
  nodeMap _ _ _ := id
  modify _ _ hf h := h.modify fun e u _ _ hstate hshows =>
    ⟨(hf e).1 ▸ hstate, (hf e).2 u hshows⟩

/-- Where nothing is owed, every change will do. -/
theorem modifyExperiment_settled (f : Experiment → Experiment) :
    Preserves (fun env => Settled name env ∧ Owing masters env) (modifyExperiment name f) :=
  .update fun _ h => ⟨h.1, h.2.modify fun _ u hmem _ _ _ => absurd hmem (h.1 u)⟩

/-- Nor does reading an experiment that is settled itself. -/
theorem readStable_settled :
    ReadStable name fun env => Settled name env ∧ Owing masters env where
  nodeMap _ _ _ := id
  modify _ _ _ h := ⟨h.1, h.2.modify fun _ u hmem _ _ _ => absurd hmem (h.1 u)⟩

theorem getEnvironmentProto_settled (full : Bool) :
    Preserves (fun env => Settled name env ∧ Owing masters env)
      (getEnvironmentProto name full) := by
  refine Ends.bind (readStable_settled.getProto (fun env h => ?_) fun _ _ _ _ h => h)
    fun proto => ?_
  · exact (modifyExperiment_settled (·.clearDirty full)).run h rfl
  · cases proto with
    | none => exact .undefined
    | some message => exact .pure fun _ => id

/-- A new experiment owes nothing. -/
theorem registerExperiment_owing :
    Ends (fun env => name ∉ env.experimentMap ∧ Owing (fun _ => True) env) (registerExperiment name)
      (fun _ env => Registering name env ∧ Owing (fun _ => True) env) (Owing fun _ => True) := by
  refine Ends.bind (R := fun _ env => name ∉ env.experimentMap ∧ Owing (fun _ => True) env)
    (Ends.read fun env h => ?_) fun p => .update fun env h =>
      ⟨fun e he => ?_, fun m u hmem hm => ?_⟩
  · cases env.availableNodeManagerPorts with
    | nil => exact .throw fun _ heq => heq ▸ h.2
    | cons p ps =>
      exact Ends.bind (.update fun _ heq => heq ▸ h) fun _ => .pure fun _ => id
  · rw [Table.lookup_insert, if_pos rfl] at he
    cases he
    rfl
  · obtain ⟨e, he, hstate, hshows⟩ := h.2 m u hmem hm
    have hne : m ≠ name := fun heq => h.1 (heq ▸ Table.mem_of_lookup he)
    exact ⟨e, by rw [Table.lookup_insert, if_neg hne, he], hstate, hshows⟩

/-- The completion reads nothing that is still to be told. -/
theorem complete_settled [HashOrder] :
    Preserves (fun env => Settled name env ∧ Owing masters env) (complete name) := by
  have hmaster : Preserves (fun env => Settled name env ∧ Owing masters env)
      (configureMaster name) := by
    refine getExperimentInternal_preserves fun e => ?_
    cases e.nodes.entries.find? fun n => n.2.hasMasterEligibleContainer with
    | none => exact .pure _
    | some n =>
      dsimp only
      cases n.2.getMasterEligibleContainer with
      | none => exact .throw _
      | some container =>
        exact (modifyExperiment_settled _).bind fun _ =>
          readStable_settled.getMasterPublisherAddress.bind fun _ =>
            readStable_settled.getMasterRegistrationAddress
  refine hmaster.bind fun _ => getExperimentInternal_preserves fun e => ?_
  cases e.checkValidity with
  | error ex => exact .throw _
  | ok u => exact .ite (modifyExperiment_settled _) (.throw _)

/-- The updates that are owed to a removed experiment go with it. -/
theorem removeExperimentInternal_owing :
    Preserves (Owing fun _ => True) (removeExperimentInternal name) := by
  refine Preserves.read.bind fun env => ?_
  cases env.experimentMap.lookup name with
  | none => exact .pure _
  | some e =>
    refine Preserves.bind (.update fun env h m u hmem hm => ?_) fun _ => ?_
    · obtain ⟨hmem, hne⟩ := List.mem_filter.mp hmem
      obtain ⟨e, he, hstate, hshows⟩ := h m u hmem hm
      refine ⟨e, ?_, hstate, hshows⟩
      rw [Table.lookup_erase, if_neg (of_decide_eq_true hne), he]
    · have hstable : Stable e.modelName (Owing fun _ => True) := stable_owing
      have hnodes : ∀ T, Preserves (Owing fun _ => True)
          (e.nodes.values.forM fun n => n.destroy T e.modelName) :=
        fun _ => .forM hstable.destroyNode
      have hmanager : Preserves (Owing fun _ => True) (freeManagerPort e.managerPort) := by
        cases e.managerPort with
        | none => exact .pure _
        | some p => exact .update fun _ => id
      exact .tryCatch ((hstable.toLabelStable.unregister e).bind fun _ => (hnodes _).bind fun _ =>
        hmanager.bind fun _ => .ite ((hstable.freePort _ _).bind fun _ => hstable.freePort _ _)
          (.pure _)) fun _ => hnodes _

/-- A shutdown is owed from the request on. -/
theorem shutdownExperiment_owing :
    Ends (fun env => (∀ e ∈ env.experimentMap.lookup name, e.shutdown = false) ∧
        Owing (fun _ => True) env) (shutdownExperiment name)
      (fun _ => Owing fun _ => True) (Owing fun _ => True) := by
  refine getExperimentInternal_ends (fun env e h he => ?_) fun _ h _ => h.2
  refine .ite (fun hactive => .update fun t heq => ?_) fun _ =>
    removeExperimentInternal_owing.pre fun _ heq => heq ▸ h.2
  subst heq
  have hnew := h.1 e he
  intro m u hmem hm
  obtain heq | hmem := List.mem_cons.mp hmem
  · cases heq
    refine ⟨{ e with shutdown := true, dirty := true }, ?_, ?_, rfl, rfl⟩
    · rw [Table.lookup_adjust, if_pos rfl, he, Option.map_some, hnew]
      rfl
    · show e.state ≠ .registered
      rw [hactive]
      decide
  · refine Owing.modify h.2 (fun e u _ _ hstate hshows => ?_) m u hmem hm
    split
    · exact ⟨hstate, hshows⟩
    · refine ⟨hstate, ?_⟩
      cases u with
      | port path => exact ⟨rfl, hshows.2⟩
      | shutdown => exact ⟨rfl, rfl⟩

/-- After the reply nothing is owed to the master. -/
theorem handleHeartbeat_owing :
    Preserves (Owing fun _ => True) (handleHeartbeat name) := by
  have hreply : Ends (Owing fun _ => True) (heartbeatReply name) (fun _ => Owing (· ≠ name))
      (Owing fun _ => True) := by
    have hothers : ∀ env, Owing (fun _ => True) env → Owing (· ≠ name) env :=
      fun _ h => h.mono fun _ _ => trivial
    refine Ends.read fun env h => ?_
    cases env.experimentMap.lookup name with
    | none => exact .pure fun _ heq => heq ▸ hothers env h
    | some e =>
      refine .ite (fun _ => ?_) fun _ => .pure fun _ heq => heq ▸ hothers env h
      refine Ends.bind ((readStable_owing.getProto (fun t h => ?_) fun t _ _ _ => hothers t).pre
        fun _ heq => heq ▸ h) fun proto => ?_
      · exact (hothers t h).modify fun _ _ _ hne => absurd rfl hne
      · cases proto with
        | none => exact .undefined
        | some message => exact .pure fun _ => id
  refine hreply.bind fun reply => Ends.bind (R := fun _ => Owing fun _ => True)
    (.update fun env h m u hmem _ => ?_) fun _ => .pure fun _ => id
  obtain ⟨hmem, hne⟩ := List.mem_filter.mp hmem
  exact h m u hmem (of_decide_eq_true hne)

/-! ## Runs -/

/-- Full reads come when nothing is owed, and an experiment is shut down once. -/
def keepsUpdates : Action → Environment → Prop
  | .handleInspectExperiment name, env | .handleGetExperimentInfo name, env => Settled name env
  | .shutdownExperiment name, env =>
    ∀ e ∈ env.experimentMap.lookup name, e.shutdown = false
  | _, _ => True

instance (name : Text) (env : Environment) : Decidable (Settled name env) :=
  decidable_of_iff (∀ o ∈ env.owed, o.1 ≠ name)
    ⟨fun h _ hmem => h _ hmem rfl, fun h o hmem heq => h o.2 (heq ▸ hmem)⟩

instance (a : Action) (env : Environment) : Decidable (keepsUpdates a env) :=
  match a with
  | .handleInspectExperiment name => inferInstanceAs (Decidable (Settled name env))
  | .handleGetExperimentInfo name => inferInstanceAs (Decidable (Settled name env))
  | .shutdownExperiment name =>
    inferInstanceAs (Decidable (∀ e ∈ env.experimentMap.lookup name, e.shutdown = false))
  | .populateExperiment _ | .advance | .removeExperiment _ | .handleHeartbeat _
  | .handleNodeManagerRegistration _ _ _ | .handleLoganRegistration _ _ =>
    inferInstanceAs (Decidable True)

instance (s : Server) (a : Action) : Decidable (Server.TakenWhere keepsUpdates s a) :=
  inferInstanceAs (Decidable (keepsUpdates a s.env))

/-- Every request keeps what is owed, by the rule for its kind. -/
theorem owing_rules [HashOrder] :
    Server.Rules keepsUpdates Registering Settled (Owing fun _ => True) where
  register _ := registerExperiment_owing
  build _ _ hjob := buildStable_owing.runJob hjob
  complete _ := complete_settled.conseq (fun _ h => ⟨h.1.settled h.2, h.2⟩) (fun _ _ => id)
    fun _ h => h.2
  publish name := by
    have hread : Preserves (fun env => Settled name env ∧ Owing (fun _ => True) env)
        (runJob name .publish) := by
      refine .tryCatch (Preserves.bind ?_ fun _ => .pure _) fun _ => .pure _
      refine readStable_settled.getProto (fun env h => ?_) fun _ _ _ _ h => h
      exact (modifyExperiment_settled (·.clearDirty true)).run h rfl
    exact hread.conseq (fun _ => id) (fun _ _ h => h.2) fun _ h => h.2
  remove _ := removeExperimentInternal_owing
  shutdown _ := shutdownExperiment_owing
  heartbeat _ := handleHeartbeat_owing
  inspect _ := (getEnvironmentProto_settled true).conseq (fun _ => id) (fun _ _ h => h.2)
    fun _ h => h.2
  info name := by
    have hread : Preserves (fun env => Settled name env ∧ Owing (fun _ => True) env)
        (handleGetExperimentInfo name) := by
      refine getExperimentInternal_preserves fun e => .ite ?_ (.throw _)
      exact (getEnvironmentProto_settled true).bind fun _ =>
        (modifyExperiment_settled _).bind fun _ => .pure _
    exact hread.conseq (fun _ => id) (fun _ _ h => h.2) fun _ h => h.2
  nodeManager name ip container := by
    have hstable : ReadStable name (Owing fun _ => True) := readStable_owing
    have hmaster := hstable.getMasterPublisherAddress.bind fun _ =>
      hstable.getMasterRegistrationAddress
    refine getExperimentInternal_preserves fun e => ?_
    cases (e.nodes.lookup ip).bind fun n => n.containers.lookup container with
    | none => exact .throw _
    | some c =>
      refine .ite (.ite (.ite ?_ ?_) hmaster) (.pure _)
      · exact (hstable.getPublisherPort _ _ _).bind fun _ => hmaster
      · exact Preserves.bind (.throw _) fun _ => hmaster
  logan name ip := by
    have hstable : ReadStable name (Owing fun _ => True) := readStable_owing
    have hport : Preserves (Owing fun _ => True) getManagerPort := by
      refine Preserves.read.bind fun env => ?_
      cases env.availableNodeManagerPorts with
      | nil => exact .throw _
      | cons p ps => exact Preserves.bind (.update fun _ => id) fun _ => .pure _
    refine getExperimentInternal_preserves fun e => ?_
    cases e.nodes.lookup ip with
    | none => exact .throw _
    | some n =>
      exact Preserves.bind (.forM fun _ => hstable.readLogger _ _ _) fun _ =>
        .ite (hport.bind fun _ => .pure _) (.pure _)

/-- A reply that is made from the marks. -/
theorem heartbeatReply_tells {env : Environment} (h : Owing (fun _ => True) env) :
    Ends (fun t => t = env) (heartbeatReply name)
      (fun reply _ => ∀ u, (name, u) ∈ env.owed →
        reply.Tells u ∨ env.ShutsDown name ∧ reply.Tells .shutdown) fun _ => True := by
  refine Ends.read fun t heq => ?_
  subst heq
  cases he : t.experimentMap.lookup name with
  | none =>
    refine .pure fun _ _ u hmem => ?_
    obtain ⟨e, he', -⟩ := h name u hmem trivial
    rw [he] at he'
    cases he'
  | some e =>
    have hshows : ∀ u, (name, u) ∈ t.owed → e.Shows u := by
      intro u hmem
      obtain ⟨e', he', -, hshows⟩ := h name u hmem trivial
      obtain rfl := Option.some.inj (he.symm.trans he')
      exact hshows
    refine .ite (fun _ => ?_) fun hclean => .pure fun _ _ u hmem => ?_
    · refine Ends.bind (R := fun proto _ => ∀ message, proto = some message →
        ∀ u, (name, u) ∈ t.owed →
          message.Tells u ∨ t.ShutsDown name ∧ message.Tells .shutdown) ?_ fun proto => ?_
      · refine getExperimentInternal_ends (fun t' e' heq he' => ?_) fun _ _ _ => trivial
        subst heq
        obtain rfl := Option.some.inj (he.symm.trans he')
        refine .ite (fun _ => .ite (fun hshutdown => ?_) fun hactive => ?_) fun hclean => ?_
        · refine Ends.any.bind fun _ => .pure fun _ _ => ?_
          rintro _ ⟨⟩ u _
          exact Or.inr ⟨⟨e, he, hshutdown⟩, trivial⟩
        · refine Ends.any.bind fun _ => Ends.any.bind fun _ => Ends.any.bind fun _ =>
            Ends.any.bind fun _ => .pure fun _ _ => ?_
          rintro _ ⟨⟩ u hmem
          have hu := hshows u hmem
          cases u with
          | port path => exact Or.inl (Experiment.holds_toProto hu)
          | shutdown => exact absurd hu.2 hactive
        · exact .pure fun _ _ _ hnone => by cases hnone
      · cases proto with
        | none => exact .undefined
        | some message => exact .pure fun _ htells => htells message rfl
    · have hu := hshows u hmem
      cases u with
      | port path => exact absurd hu.1 hclean
      | shutdown => exact absurd hu.1 hclean

/-- In a run in which full reads come only when nothing is owed to the master, every port that was
marked and every shutdown since the master's last heartbeat is in the reply to the next. Only while
the experiment is being shut down, the reply has the shutdown and no ports. -/
theorem told_of_reach [HashOrder] {qpid tao : Text} {portRangeMin portRangeMax : ℕ} {s : Server}
    (hs : (Server.system (Environment.init qpid tao portRangeMin portRangeMax)).ReachBy
      (Server.TakenWhere keepsUpdates) s) {reply : EnvironmentMessage} {env' : Environment}
    (hrun : handleHeartbeat name s.env = some (.ok reply, env')) (u : Update)
    (hu : (name, u) ∈ s.env.owed) :
    reply.Tells u ∨ s.env.ShutsDown name ∧ reply.Tells .shutdown := by
  have hinit : Owing (fun _ => True) (Environment.init qpid tao portRangeMin portRangeMax) :=
    fun _ _ hmem => by cases hmem
  have howing := (owing_rules.reach hinit hs).env
  have hends : Ends (fun t => t = s.env) (handleHeartbeat name)
      (fun reply _ => ∀ u, (name, u) ∈ s.env.owed →
        reply.Tells u ∨ s.env.ShutsDown name ∧ reply.Tells .shutdown) fun _ => True := by
    refine (heartbeatReply_tells howing).bind fun reply => Ends.given fun htells => ?_
    exact Ends.any.bind fun _ => .pure fun _ _ => htells
  exact hends rfl hrun u hu

/-- An experiment with a port that is connected to an external label. -/
def connected (name ip : Text) (kind : NodeManager.PortKind) : NodeManager.Experiment where
  name := name
  clusters :=
    [⟨[⟨ip, [⟨"C".toList, [⟨"K".toList, [⟨"P".toList, kind, .zmq, [], ["X".toList]⟩]⟩], [], false,
      false⟩]⟩], []⟩]
  externalPorts := [⟨"X".toList, "L".toList, false⟩]

/-- A subscriber is active when the publisher of its label comes. -/
def publisherComes : List Action :=
  [.populateExperiment (connected "A".toList "10.0.0.1".toList .subscriber), .advance, .advance,
    .advance, .advance, .handleGetExperimentInfo "A".toList,
    .populateExperiment (connected "B".toList "10.0.0.2".toList .publisher), .advance, .advance]

section Example

attribute [local instance] HashOrder.newestFirst

theorem told_publisherComes : ∃ s reply env',
    (Server.system (Environment.init [] [] 1 9)).ReachBy (Server.TakenWhere keepsUpdates) s ∧
      handleHeartbeat "A".toList s.env = some (.ok reply, env') ∧
      ("A".toList, Update.port ⟨"10.0.0.1".toList, "C".toList, "K".toList, "P".toList⟩) ∈
        s.env.owed ∧
      reply.Tells (.port ⟨"10.0.0.1".toList, "C".toList, "K".toList, "P".toList⟩) := by
  have hsome : (Lts.runBy Server.step (Server.TakenWhere keepsUpdates)
      ⟨Environment.init [] [] 1 9, none⟩ publisherComes).bind (fun s =>
        (handleHeartbeat "A".toList s.env).map fun result => (result.1.isOk, s.env.owed,
          (s.env.experimentMap.lookup "A".toList).map (·.shutdown))) =
      some (true, [("A".toList,
        .port ⟨"10.0.0.1".toList, "C".toList, "K".toList, "P".toList⟩)], some false) := by
    decide +kernel
  obtain ⟨s, hrun, hsome⟩ := Option.bind_eq_some_iff.mp hsome
  obtain ⟨⟨r, env'⟩, hreply, hsome⟩ := Option.map_eq_some_iff.mp hsome
  obtain ⟨hok, hrest⟩ := Prod.mk.inj hsome
  obtain ⟨howed, hrunning⟩ := Prod.mk.inj hrest
  cases r with
  | error ex => cases hok
  | ok reply =>
    have hreach := Lts.reachBy_of_runBy hrun
    have hmem := howed ▸ List.mem_cons_self
    refine ⟨s, reply, env', hreach, hreply, hmem,
      (told_of_reach hreach hreply _ hmem).resolve_right ?_⟩
    rintro ⟨⟨e, he, hshutdown⟩, -⟩
    rw [he, Option.map_some, hshutdown] at hrunning
    cases hrunning

end Example

end Sem.EnvironmentManager

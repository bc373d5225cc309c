import Sem.EnvironmentManager.Environment

/-!
# What objects hold

The network ports that an object has, by the address of their node. Marking an object does not
change them, so they are read off an experiment without its marks.

* `held`: of ports, components, containers, nodes and experiments.
* `unmark`, `Experiment.core`: an object without its dirty flags, and without its external ports.
* `Experiment.lookup_of_core`, `Node.lookup_of_unmark`: what else stays the same.
-/

namespace Sem.EnvironmentManager

open Xml (Text)

/-- A network port, if it is assigned. -/
def portAt (ip : Text) (port : Option ℕ) : List (Text × ℕ) := port.toList.map (ip, ·)

@[simp] theorem portAt_some (ip : Text) (p : ℕ) : portAt ip (some p) = [(ip, p)] := rfl

/-! ## Ports -/

/-- The network port that `zmq::Port::~Port` frees. -/
def Port.held (p : Port) : List (Text × ℕ) :=
  if p.middleware = .zmq ∧ role p.kind = some .producer then portAt p.ip p.producerPort else []

/-- A port without its mark for the next update. -/
def Port.unmark (p : Port) : Port := { p with dirty := false }

@[simp] theorem Port.held_unmark (p : Port) : p.unmark.held = p.held := rfl

/-- What a port holds, if there is one. -/
def heldBy (made : Option Port) : List (Text × ℕ) := made.toList.flatMap Port.held

/-! ## Components -/

/-- The sockets that the ports of a component have. -/
def Component.held (k : Component) : List (Text × ℕ) := k.ports.values.flatMap Port.held

/-- A component without the marks for the next update. -/
def Component.unmark (k : Component) : Component :=
  { k with dirty := false, ports := k.ports.mapValues Port.unmark }

@[simp] theorem Component.held_unmark (k : Component) : k.unmark.held = k.held := by
  simp [Component.held, Component.unmark, Table.values_mapValues, List.flatMap_map]

/-! ## Containers -/

namespace Container

/-- The ports of a container on a node with this address. -/
def held (ip : Text) (c : Container) : List (Text × ℕ) :=
  portAt ip c.orbPort ++ (c.loggers.values.flatMap (fun l => portAt ip l.publisherPort) ++
    c.components.values.flatMap Component.held)

/-- A container without the marks for the next update. -/
def unmark (c : Container) : Container :=
  { c with dirty := false, components := c.components.mapValues Component.unmark }

@[simp] theorem held_unmark (ip : Text) (c : Container) : c.unmark.held ip = c.held ip := by
  simp [held, unmark, Table.values_mapValues, List.flatMap_map]

end Container

/-- The container's ORB port, when it was assigned meanwhile. -/
def gained (ip : Text) (orbPort orbPort' : Option ℕ) : List (Text × ℕ) :=
  if orbPort = none then portAt ip orbPort' else []

@[simp] theorem gained_self (ip : Text) (orbPort : Option ℕ) : gained ip orbPort orbPort = [] := by
  cases orbPort <;> rfl

theorem portAt_append_gained {ip : Text} {orbPort orbPort' : Option ℕ}
    (h : orbPort ≠ none → orbPort' = orbPort) :
    portAt ip orbPort ++ gained ip orbPort orbPort' = portAt ip orbPort' := by
  cases orbPort with
  | none => rfl
  | some p =>
    rw [h nofun]
    exact List.append_nil _

/-! ## Nodes -/

namespace Node

/-- The sockets of the containers of a node. -/
def held (n : Node) : List (Text × ℕ) := n.containers.values.flatMap (·.held n.ip)

/-- A node without the marks for the next update. -/
def unmark (n : Node) : Node :=
  { n with dirty := false, containers := n.containers.mapValues Container.unmark }

@[simp] theorem held_unmark (n : Node) : n.unmark.held = n.held := by
  simp [held, unmark, Table.values_mapValues, List.flatMap_map]

end Node

/-! ## Experiments -/

namespace Experiment

/-- The ports of the master, whose address is that of its node. -/
def masterPorts (e : Experiment) : List (Text × ℕ) :=
  portAt e.masterIpAddress e.masterPublisherPort ++
    portAt e.masterIpAddress e.masterRegistrationPort

/-- The sockets of an experiment: those of its nodes and its own two. -/
def held (e : Experiment) : List (Text × ℕ) := e.nodes.values.flatMap Node.held ++ e.masterPorts

/-- An experiment without the marks for the next update. -/
def unmark (e : Experiment) : Experiment :=
  { e with dirty := false, nodes := e.nodes.mapValues Node.unmark }

@[simp] theorem held_unmark (e : Experiment) : e.unmark.held = e.held := by
  simp [held, masterPorts, unmark, Table.values_mapValues, List.flatMap_map]

end Experiment

/-! ## Marking -/

theorem Component.unmark_setDirty (k : Component) (port : Text) :
    (k.setDirty port).unmark = k.unmark := by
  have hports : (k.ports.adjust port fun p => { p with dirty := true }).mapValues Port.unmark =
      k.ports.mapValues Port.unmark := Table.mapValues_adjust fun _ => rfl
  simp only [Component.setDirty, Component.unmark, hports]

theorem Container.unmark_setDirty (c : Container) (component port : Text) :
    (c.setDirty component port).unmark = c.unmark := by
  have hcomponents : (c.components.adjust component fun k => k.setDirty port).mapValues
      Component.unmark = c.components.mapValues Component.unmark :=
    Table.mapValues_adjust fun k => k.unmark_setDirty port
  simp only [Container.setDirty, Container.unmark, hcomponents]

theorem Node.unmark_setDirty (n : Node) (container component port : Text) :
    (n.setDirty container component port).unmark = n.unmark := by
  have hcontainers : (n.containers.adjust container fun c => c.setDirty component port).mapValues
      Container.unmark = n.containers.mapValues Container.unmark :=
    Table.mapValues_adjust fun c => c.unmark_setDirty component port
  simp only [Node.setDirty, Node.unmark, hcontainers]

theorem Experiment.unmark_setDirty (e : Experiment) (path : PortPath) :
    (e.setDirty path).unmark = e.unmark := by
  have hnodes : (e.nodes.adjust path.node fun n =>
      n.setDirty path.container path.component path.port).mapValues Node.unmark =
        e.nodes.mapValues Node.unmark :=
    Table.mapValues_adjust fun n => n.unmark_setDirty path.container path.component path.port
  simp only [Experiment.setDirty, Experiment.unmark, hnodes]

/-! ## Experiments without their external ports -/

/-- An experiment without its marks and its external ports. -/
def Experiment.core (e : Experiment) : Experiment :=
  { e.unmark with externalPorts := ∅, externalIdToInternalId := ∅ }

theorem Experiment.core_congr {e e' : Experiment} (h : e'.unmark = e.unmark) :
    e'.core = e.core :=
  congrArg (fun e : Experiment => { e with externalPorts := ∅, externalIdToInternalId := ∅ }) h

/-- Another experiment with the same nodes but for marks. -/
theorem Experiment.lookup_of_core {e e' : Experiment} (h : e'.core = e.core) {ip : Text} {n : Node}
    (hn : e.nodes.lookup ip = some n) :
    ∃ n', e'.nodes.lookup ip = some n' ∧ n'.unmark = n.unmark := by
  have hnodes : e'.nodes.mapValues Node.unmark = e.nodes.mapValues Node.unmark :=
    congrArg Experiment.nodes h
  have hlookup := congrArg (AList.lookup ip) hnodes
  rw [Table.lookup_mapValues, Table.lookup_mapValues, hn] at hlookup
  exact Option.map_eq_some_iff.mp hlookup

theorem Node.lookup_of_unmark {n n' : Node} (h : n'.unmark = n.unmark) {id : Text} {k : Container}
    (hk : n.containers.lookup id = some k) :
    ∃ k', n'.containers.lookup id = some k' ∧ k'.unmark = k.unmark := by
  have hcontainers : n'.containers.mapValues Container.unmark =
      n.containers.mapValues Container.unmark := congrArg Node.containers h
  have hlookup := congrArg (AList.lookup id) hcontainers
  rw [Table.lookup_mapValues, Table.lookup_mapValues, hk] at hlookup
  exact Option.map_eq_some_iff.mp hlookup

end Sem.EnvironmentManager

import Mathlib.Algebra.GroupWithZero.Nat
import Mathlib.Data.Char
import Mathlib.Data.List.Lex
import Sem.EnvironmentManager.Messages
import Sem.Lib.OrderedSet
import Sem.Lib.Table

/-!
# The objects of an experiment

An experiment owns nodes, a node containers, a container components and loggers, a component
ports. Hash tables are `Table`s, whose order stands for the unspecified order of an iteration. A
network port is a string in the source, `""` when none is assigned; here it is an `Option ℕ`.

The dirty flags of nodes, containers and components have no initial value in the source; here they
start as `false`, which is what the first full read leaves. Nothing marks a logger, a worker or an
attribute, so these have no flag.
-/

namespace Sem.EnvironmentManager

open Xml (Text)
open NodeManager (Middleware PortKind LoggerType LoggerMode)

/-- The two sides of an external port. -/
inductive Role
  | producer | consumer
  deriving DecidableEq, Repr

/-- What `Port::Port` and `Port::~Port` register a port of the kind as. -/
def role : PortKind → Option Role
  | .publisher | .replier => some .producer
  | .subscriber | .requester => some .consumer
  | .noKind | .periodic => none

/-- `EnvironmentManager::Port`. -/
structure Port where
  id : Text
  kind : PortKind
  middleware : Middleware
  connectedExternalPortIds : OrderedSet Text
  /-- Set by `zmq::Port` for a publisher or replier. -/
  ip : Text
  producerPort : Option ℕ
  dirty : Bool

/-- `EnvironmentManager::Component`, with its ports by their ids. -/
structure Component where
  id : Text
  ports : Table Text Port
  dirty : Bool

/-- `EnvironmentManager::Logger`. -/
structure Logger where
  id : Text
  type : LoggerType
  mode : LoggerMode
  connectedClientIds : OrderedSet Text
  publisherPort : Option ℕ

/-- The id of the logger of the model in every container. -/
def MODEL_LOGGER_ID : Text := "model_logger".toList
/-- The id of the logger of the hardware in a container. -/
def EXPERIMENT_LOGGER_ID : Text := "experiment_logger".toList

/-- `EnvironmentManager::Container`. -/
structure Container where
  id : Text
  lateJoiner : Bool
  isNodeManagerMaster : Bool
  orbPort : Option ℕ
  components : Table Text Component
  loggers : Table Text Logger
  dirty : Bool

/-- `EnvironmentManager::Node`, with its containers by their ids. -/
structure Node where
  ip : Text
  implicitContainerId : Text
  containers : Table Text Container
  dirty : Bool

/-- An external port of an experiment, with the ids of the ports that are connected to it. -/
structure ExternalPort where
  externalLabel : Text
  producerIds : OrderedSet Text
  consumerIds : OrderedSet Text

/-- `Experiment::ExperimentState`. -/
inductive ExperimentState
  | registered | configured | active
  deriving DecidableEq, Repr

/-- `EnvironmentManager::Experiment`, with its nodes by their addresses. -/
structure Experiment where
  modelName : Text
  state : ExperimentState
  shutdown : Bool
  dirty : Bool
  masterIpAddress : Text
  managerPort : Option ℕ
  masterPublisherPort : Option ℕ
  masterRegistrationPort : Option ℕ
  nodes : Table Text Node
  externalPorts : Table Text ExternalPort
  externalIdToInternalId : Table Text Text

namespace ExternalPort

/-- The ids of one side. -/
def ids (port : ExternalPort) : Role → OrderedSet Text
  | .producer => port.producerIds
  | .consumer => port.consumerIds

/-- The ids of a role are replaced. -/
def setIds (port : ExternalPort) (ids : OrderedSet Text) : Role → ExternalPort
  | .producer => { port with producerIds := ids }
  | .consumer => { port with consumerIds := ids }

end ExternalPort

/-! ## Counting deployments -/

namespace Container

/-- The number of components. -/
def getDeployedComponentCount (c : Container) : ℕ := c.components.keys.length

/-- The number of loggers and components. -/
def getDeployedCount (c : Container) : ℕ := c.loggers.keys.length + c.components.keys.length

end Container

namespace Node

/-- The number of components in all containers of a node. -/
def getDeployedComponentCount (n : Node) : ℕ :=
  (n.containers.values.map Container.getDeployedComponentCount).sum

/-- A container with components that is there from the start. -/
def hasMasterEligibleContainer (n : Node) : Bool :=
  n.containers.values.any fun c => c.getDeployedComponentCount ≠ 0 ∧ ¬c.lateJoiner

/-- A container of the node is the master. -/
def hasNodeManagerMaster (n : Node) : Bool :=
  n.containers.values.any Container.isNodeManagerMaster

end Node

namespace Experiment

/-- The comparison of `GetLeastDeployedToNode`. -/
def deploysFewer (nonEmpty : Bool) (n₁ n₂ : Node) : Bool :=
  if nonEmpty ∧ n₁.getDeployedComponentCount = 0 then false
  else if nonEmpty ∧ n₂.getDeployedComponentCount = 0 then true
  else n₁.getDeployedComponentCount < n₂.getDeployedComponentCount

/-- `GetLeastDeployedToNode`, the `std::min_element` of the nodes; `none` when there is none. -/
def getLeastDeployedToNode (e : Experiment) (nonEmpty : Bool) : Option Node :=
  match e.nodes.values with
  | [] => none
  | n :: ns => some (ns.foldl (fun least m => if deploysFewer nonEmpty m least then m else least) n)

/-- Where `GetPort` finds a port: the keys of its node, container and component. -/
def findPort (e : Experiment) (id : Text) : Option (Text × Text × Text) :=
  e.nodes.entries.findSome? fun n =>
    n.2.containers.entries.findSome? fun c =>
      c.2.components.entries.findSome? fun k =>
        if id ∈ k.2.ports then some (n.1, c.1, k.1) else none

end Experiment

/-! ## Marking a port -/

/-- The place of a port in its experiment. -/
structure PortPath where
  node : Text
  container : Text
  component : Text
  port : Text
  deriving DecidableEq, Repr

/-- `Component::SetDirty` of the component of a port that is marked. -/
def Component.setDirty (k : Component) (port : Text) : Component :=
  { k with dirty := true, ports := k.ports.adjust port fun p => { p with dirty := true } }

/-- `Container::SetDirty`. -/
def Container.setDirty (c : Container) (component port : Text) : Container :=
  { c with dirty := true, components := c.components.adjust component fun k => k.setDirty port }

/-- `Node::SetDirty`. -/
def Node.setDirty (n : Node) (container component port : Text) : Node :=
  { n with
    dirty := true
    containers := n.containers.adjust container fun c => c.setDirty component port }

/-- `Port::SetDirty` of the port at a place marks everything above it. -/
def Experiment.setDirty (e : Experiment) (path : PortPath) : Experiment :=
  { e with
    dirty := true
    nodes := e.nodes.adjust path.node fun n => n.setDirty path.container path.component path.port }

end Sem.EnvironmentManager

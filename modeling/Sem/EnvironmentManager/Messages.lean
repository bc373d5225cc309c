import Sem.Lib.Xml

/-!
# Control messages

The messages of `controlmessage.proto` as far as the environment manager reads them. Names, types,
namespaces, workers, replication indices and locations of a component are left out: they are
copied and never decide anything. Of an attribute map the keys stay, as a missing one makes a
port's constructor throw. Blackbox ports stay out as well: they belong to no component, connect to
no external port, take no network port, and are never marked.
-/

namespace Sem.EnvironmentManager

open Xml (Text)

namespace NodeManager

/-- `NodeManager::Middleware`. -/
inductive Middleware
  | noMiddleware | zmq | rti | ospl | qpid | tao
  deriving DecidableEq, Repr

/-- `NodeManager::Port::Kind`. -/
inductive PortKind
  | noKind | periodic | publisher | subscriber | requester | replier
  deriving DecidableEq, Repr

/-- `NodeManager::Port`, as far as the manager reads it. -/
structure Port where
  id : Text
  kind : PortKind
  middleware : Middleware
  /-- The keys of the attribute map. -/
  attributes : List Text
  connectedExternalPorts : List Text
  deriving DecidableEq, Repr

/-- `NodeManager::Component`. -/
structure Component where
  id : Text
  ports : List Port
  deriving DecidableEq, Repr

/-- `NodeManager::Logger::Type`. -/
inductive LoggerType
  | none | model | client | server | experiment
  deriving DecidableEq, Repr

/-- `NodeManager::Logger::Mode`. -/
inductive LoggerMode
  | off | live | cached
  deriving DecidableEq, Repr

/-- `NodeManager::Logger`. -/
structure Logger where
  type : LoggerType
  id : Text
  mode : LoggerMode
  clientIds : List Text
  deriving DecidableEq, Repr

/-- `NodeManager::Container`; an implicit one stands for its node. -/
structure Container where
  id : Text
  components : List Component
  loggers : List Logger
  implicit : Bool
  isLateJoiner : Bool
  deriving DecidableEq, Repr

/-- `NodeManager::Node`. -/
structure Node where
  ipAddress : Text
  containers : List Container
  deriving DecidableEq, Repr

/-- `NodeManager::Cluster`, with the containers that may be put on any of its nodes. -/
structure Cluster where
  nodes : List Node
  containers : List Container
  deriving DecidableEq, Repr

/-- `NodeManager::ExternalPort`. -/
structure ExternalPort where
  id : Text
  name : Text
  isBlackbox : Bool
  deriving DecidableEq, Repr

/-- `NodeManager::Experiment`. -/
structure Experiment where
  name : Text
  clusters : List Cluster
  externalPorts : List ExternalPort
  deriving DecidableEq, Repr

end NodeManager

end Sem.EnvironmentManager

import Sem.EnvironmentManager.Construction

/-!
# What is sent to a master

`GetProto` fills a message from the marked parts of an experiment, or from all of them in a full
read, and clears the marks on the way. Filling in a logger or the master's addresses assigns
their ports, if they have none.

The source does the three things in one traversal. They do not disturb each other, so here they
are three functions: `toProto` is what the message holds, `readLoggers` what is assigned and
`clearDirty` what is cleared.
-/

namespace Sem.EnvironmentManager

open Xml (Text)
open NodeManager (LoggerType LoggerMode)
open Throwing (read update undefined)

/-! ## The message -/

/-- A component in an update, with the ids of its ports. -/
structure ComponentProto where
  id : Text
  ports : List Text
  deriving DecidableEq, Repr

/-- A container in an update. -/
structure ContainerProto where
  id : Text
  components : List ComponentProto
  deriving DecidableEq, Repr

/-- A node in an update. -/
structure NodeProto where
  ipAddress : Text
  containers : List ContainerProto
  deriving DecidableEq, Repr

/-- The replies to a heartbeat. -/
inductive EnvironmentMessage
  | heartbeatAck
  | configureExperiment (experimentId : Text) (nodes : List NodeProto)
  | shutdownExperiment (experimentId : Text)
  deriving DecidableEq, Repr

/-- `Component::GetProto`. -/
def Component.toProto (full : Bool) (id : Text) (k : Component) : Option ComponentProto :=
  if k.dirty ∨ full then
    some ⟨id, k.ports.entries.filterMap fun p => if p.2.dirty ∨ full then some p.1 else none⟩
  else none

/-- `Container::GetProto`. -/
def Container.toProto (full : Bool) (id : Text) (c : Container) : Option ContainerProto :=
  if c.dirty ∨ full then
    some ⟨id, c.components.entries.filterMap fun k => k.2.toProto full k.1⟩
  else none

/-- `Node::GetProto`. -/
def Node.toProto (full : Bool) (ip : Text) (n : Node) : Option NodeProto :=
  if n.containers.entries ≠ [] ∧ (n.dirty ∨ full) then
    some ⟨ip, n.containers.entries.filterMap fun c =>
      if c.2.getDeployedComponentCount ≠ 0 then c.2.toProto full c.1 else none⟩
  else none

/-- The nodes of `Experiment::GetProto`. -/
def Experiment.toProto (full : Bool) (e : Experiment) : List NodeProto :=
  e.nodes.entries.filterMap fun n =>
    if n.2.getDeployedComponentCount ≠ 0 then n.2.toProto full n.1 else none

/-! ## The marks -/

/-- The mark of a component is taken away; those of its ports stay. -/
def Component.clearDirty (k : Component) : Component := { k with dirty := false }

/-- The marks that an update of a container takes away. -/
def Container.clearDirty (full : Bool) (c : Container) : Container :=
  if c.getDeployedComponentCount ≠ 0 ∧ (c.dirty ∨ full) then
    { c with dirty := false, components := c.components.mapValues Component.clearDirty }
  else c

/-- The marks that an update of a node takes away. -/
def Node.clearDirty (full : Bool) (n : Node) : Node :=
  if n.getDeployedComponentCount ≠ 0 ∧ (n.dirty ∨ full) then
    { n with dirty := false, containers := n.containers.mapValues (·.clearDirty full) }
  else n

/-- A port stays marked; a shutdown message leaves the nodes as they are. -/
def Experiment.clearDirty (full : Bool) (e : Experiment) : Experiment :=
  if e.shutdown then { e with dirty := false }
  else { e with dirty := false, nodes := e.nodes.mapValues (·.clearDirty full) }

/-! ## Ports that are assigned on the way -/

/-- Go on when a program throws a `std::runtime_error`. -/
def catchRuntimeError (p : Program Unit) : Program Unit :=
  tryCatch p fun ex => if ex = .runtimeError then pure () else throw ex

/-- A logger, with the container that it is in. -/
def Experiment.getLogger (e : Experiment) (ip container logger : Text) :
    Option (Container × Logger) :=
  (e.nodes.lookup ip).bind fun n =>
    (n.containers.lookup container).bind fun c =>
      (c.loggers.lookup logger).map fun l => (c, l)

/-- A logger gets its port, or loses it. -/
def Experiment.setPublisherPort (e : Experiment) (ip container logger : Text) (port : Option ℕ) :
    Experiment :=
  { e with
    nodes := e.nodes.adjust ip fun n =>
      { n with
        containers := n.containers.adjust container fun c =>
          { c with
            loggers := c.loggers.adjust logger fun l => { l with publisherPort := port } } } }

/-- `Logger::GetPublisherPort`. -/
def getPublisherPort (name ip container logger : Text) : Program Unit := do
  let e ← getExperimentInternal name
  match e.getLogger ip container logger with
  | none => throw .outOfRange
  | some (c, l) =>
    if l.publisherPort = none then
      if l.type = .server then throw .runtimeError
      else if l.mode = .off then throw .runtimeError
      else if c.getDeployedComponentCount = 0 then throw .runtimeError
      else do
        let port ← getPort ip
        modifyExperiment name fun e => e.setPublisherPort ip container logger port
    else pure ()

/-- `Experiment::GetLoggerClients`. -/
def Experiment.getLoggerClients (e : Experiment) (logger : Text) : List (Text × Text × Text) :=
  e.nodes.entries.flatMap fun n =>
    n.2.containers.entries.filterMap fun c =>
      if logger ∈ c.2.loggers then some (n.1, c.1, logger) else none

/-- The ports that `Logger::GetProto` assigns: a server asks its clients for theirs. -/
def readLogger (name ip container logger : Text) : Program Unit := do
  let e ← getExperimentInternal name
  match e.getLogger ip container logger with
  | none => pure ()
  | some (_, l) =>
    match l.type with
    | .server => l.connectedClientIds.forM fun client =>
        (e.getLoggerClients client).forM fun at_ =>
          catchRuntimeError (getPublisherPort name at_.1 at_.2.1 at_.2.2)
    | .client | .model | .experiment =>
        catchRuntimeError (getPublisherPort name ip container logger)
    | .none => pure ()

/-- The loggers that a full read comes to. -/
def Experiment.loggersRead (e : Experiment) : List (Text × Text × Text) :=
  e.nodes.entries.flatMap fun n =>
    n.2.containers.entries.flatMap fun c =>
      if c.2.getDeployedComponentCount ≠ 0 then
        c.2.loggers.keys.map fun logger => (n.1, c.1, logger)
      else []

/-- The loggers of a message. Nothing marks a logger, so only a full read comes to one. -/
def readLoggers (name : Text) (full : Bool) : Program Unit := do
  let e ← getExperimentInternal name
  if full then e.loggersRead.forM fun at_ => readLogger name at_.1 at_.2.1 at_.2.2
  else pure ()

/-- `Experiment::GetMasterPublisherAddress`. -/
def getMasterPublisherAddress (name : Text) : Program Unit := do
  let e ← getExperimentInternal name
  if e.masterPublisherPort = none then do
    let port ← getPort e.masterIpAddress
    modifyExperiment name fun e => { e with masterPublisherPort := port }
  else pure ()

/-- `Experiment::GetMasterRegistrationAddress`. -/
def getMasterRegistrationAddress (name : Text) : Program Unit := do
  let e ← getExperimentInternal name
  if e.masterRegistrationPort = none then do
    let port ← getPort e.masterIpAddress
    modifyExperiment name fun e => { e with masterRegistrationPort := port }
  else pure ()

/-- `Experiment::GetProto`. -/
def getProto (name : Text) (full : Bool) : Program (Option EnvironmentMessage) := do
  let e ← getExperimentInternal name
  if e.dirty ∨ full then
    if e.shutdown then do
      modifyExperiment name (·.clearDirty full)
      pure (some (.shutdownExperiment e.modelName))
    else do
      readLoggers name full
      getMasterPublisherAddress name
      getMasterRegistrationAddress name
      modifyExperiment name (·.clearDirty full)
      pure (some (.configureExperiment e.modelName (e.toProto full)))
  else pure none

/-- `Environment::GetProto`, which dereferences the message. -/
def getEnvironmentProto (name : Text) (full : Bool) : Program EnvironmentMessage := do
  let proto ← getProto name full
  match proto with
  | some message => pure message
  | none => undefined

end Sem.EnvironmentManager

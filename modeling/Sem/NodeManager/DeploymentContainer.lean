import Sem.Lib.Table
import Sem.Lib.Throwing
import Sem.Lib.Xml
import Sem.Ports.StateMachine

/-!
# The container of a slave's components

A slave hands each configuration that it is sent to its container. What the message names and the
container does not have yet is constructed from the libraries; what it has is brought up to date,
and its ports are restarted.

What the libraries, the sockets and the handlers of the ports do is left open (`Environment`).
The values of attributes, loggers of entities and the states of workers are not read here and left
out.

* `configure`: one message.
* `configureBody_eq`: it is a list of steps, any of which may fail.
-/

namespace Sem.NodeManager

open Ports (State Transition)
open Xml (Text)

/-! ## The message -/

/-- `NodeManager::Info`, as far as it is read. -/
structure Info where
  name : Text
  id : Text
  type : Text
  namespaces : List Text
  deriving DecidableEq, Repr

/-- `Port::Kind` -/
inductive PortKind
  | noKind | periodic | publisher | subscriber | requester | replier
  | unknown (number : Int)
  deriving DecidableEq, Repr

/-- `NodeManager::Middleware`. -/
inductive Middleware
  | noMiddleware | zmq | rti | ospl | qpid | tao
  deriving DecidableEq, Repr

/-- `Attribute::Kind` -/
inductive AttributeKind
  | string | integer | character | boolean | double | float | stringList
  | unknown (number : Int)
  deriving DecidableEq, Repr

/-- An attribute of the message. -/
structure AttributePb where
  info : Info
  kind : AttributeKind
  deriving DecidableEq, Repr

/-- A port of the message. -/
structure PortPb where
  info : Info
  kind : PortKind
  middleware : Middleware
  attributes : List AttributePb
  deriving DecidableEq, Repr

/-- A worker of the message. -/
structure WorkerPb where
  info : Info
  attributes : List AttributePb
  deriving DecidableEq, Repr

/-- A component of the message. -/
structure ComponentPb where
  info : Info
  attributes : List AttributePb
  ports : List PortPb
  workers : List WorkerPb
  replicateIndices : List Int
  location : List Text
  deriving DecidableEq, Repr

/-- `Logger::Type` -/
inductive LoggerType
  | none | model | client | server | experiment
  | unknown (number : Int)
  deriving DecidableEq, Repr

/-- `Logger::Mode` -/
inductive LoggerMode
  | off | live | cached
  | unknown (number : Int)
  deriving DecidableEq, Repr

/-- A number with a fraction, by the text that is printed for it. -/
structure Frequency where
  text : Text
  deriving DecidableEq, Repr

/-- A logger of the message. -/
structure LoggerPb where
  type : LoggerType
  id : Text
  publisherAddress : Text
  publisherPort : Text
  mode : LoggerMode
  frequency : Frequency
  processes : List Text
  deriving DecidableEq, Repr

/-- `NodeManager::Container`, the message. -/
structure ContainerPb where
  info : Info
  components : List ComponentPb
  loggers : List LoggerPb
  deriving DecidableEq, Repr

/-! ## The container -/

/-- `ATTRIBUTE_TYPE` -/
inductive AttributeType
  | string | integer | character | boolean | double | float | stringList
  deriving DecidableEq, Repr

/-- The types of an entity's attributes, by their names. -/
abbrev Attributes := Table Text AttributeType

/-- A port of a component. -/
structure Port where
  id : Text
  type : Text
  attributes : Attributes
  state : State
  /-- How many of its handlers have run. -/
  attempts : ℕ

/-- A component of the container, with its ports and workers by their names. -/
structure Component where
  name : Text
  type : Text
  location : List Text
  replicationIndices : List Int
  state : State
  attributes : Attributes
  ports : Table Text Port
  workers : Table Text Attributes

/-- A client that logs the hardware. -/
structure LoganClient where
  state : State
  endpoint : Text
  frequency : Frequency
  processes : List Text
  liveMode : Bool

/-- The container, with its components and clients by their ids. -/
structure DeploymentContainer where
  name : Text
  id : Text
  state : State
  components : Table Text Component
  loganClients : Table Text LoganClient
  /-- The endpoint of `logan_logger_`. -/
  loganLogger : Option Text

/-- What has attributes: a component, or a port or a worker of one. -/
inductive Entity
  | component (id : Text)
  | port (id name : Text)
  | worker (id name : Text)
  deriving DecidableEq, Repr

/-- The component that the entity is or belongs to. -/
def Entity.owner : Entity → Text
  | .component id | .port id _ | .worker id _ => id

/-- The name and the attributes of an entity of this component. -/
def Component.find (component : Component) : Entity → Option (Text × Attributes)
  | .component _ => some (component.name, component.attributes)
  | .port _ name => (component.ports.lookup name).map fun port => (name, port.attributes)
  | .worker _ name => (component.workers.lookup name).map fun attributes => (name, attributes)

/-- `GetAttributeTypeFromPb` -/
def AttributeKind.type : AttributeKind → AttributeType
  | .integer => .integer
  | .boolean => .boolean
  | .string => .string
  | .double => .double
  | .float => .float
  | .character => .character
  | .stringList => .stringList
  | .unknown _ => .string

/-- What `GetConfiguredLoganClient` sets. -/
def LoganClient.update (client : LoganClient) (loggerPb : LoggerPb) : LoganClient :=
  { client with
    endpoint  :=
      if loggerPb.publisherAddress ≠ [] ∧ loggerPb.publisherPort ≠ [] then
        "tcp://".toList ++ loggerPb.publisherAddress ++ ':' :: loggerPb.publisherPort
      else client.endpoint
    frequency := loggerPb.frequency
    processes := client.processes ++ loggerPb.processes
    liveMode  := loggerPb.mode = .live }

/-- A new `LoganClient`. -/
def LoganClient.start : LoganClient := ⟨.notConfigured, [], ⟨['1']⟩, [], true⟩

/-- `StateMachine::transition_state` of a port. -/
def Port.transitionState (fails : ℕ → Transition → Bool) (port : Port) (t : Transition) : Port :=
  match port.state.next t with
  | none => port
  | some newState =>
    if fails port.attempts t then { port with attempts := port.attempts + 1 }
    else { port with state := newState, attempts := port.attempts + 1 }

/-- The restart of a port that is configured. -/
def Port.reconfigure (fails : ℕ → Transition → Bool) (port : Port) : Port :=
  if port.state ≠ .notConfigured then
    ((port.transitionState fails .terminate).transitionState fails .configure).transitionState
      fails .activate
  else port

@[simp] theorem Port.transitionState_attributes (fails : ℕ → Transition → Bool) (port : Port)
    (t : Transition) : (port.transitionState fails t).attributes = port.attributes := by
  unfold transitionState
  cases port.state.next t with
  | none => rfl
  | some newState => by_cases h : fails port.attempts t <;> simp [h]

@[simp] theorem Port.reconfigure_attributes (fails : ℕ → Transition → Bool) (port : Port) :
    (port.reconfigure fails).attributes = port.attributes := by
  unfold reconfigure
  by_cases h : port.state ≠ .notConfigured
  · rw [if_pos h]
    simp
  · rw [if_neg h]

/-- `Activatable::Configure` of a component, and whether it succeeds. -/
def Component.configure (fails : Text → ℕ → Transition → Bool) (component : Component) :
    Component × Bool :=
  match component.state.next .configure with
  | none => (component, false)
  | some newState =>
    ({ component with
        state := newState
        ports := component.ports.mapEntries fun name port =>
          port.transitionState (fails name) .configure }, true)

/-- `Activatable::Configure` of a logging client. -/
def LoganClient.configure (client : LoganClient) : LoganClient × Bool :=
  match client.state.next .configure with
  | none => (client, false)
  | some newState => ({ client with state := newState }, true)

namespace DeploymentContainer

/-- What `what()` of an exception says; the second kind is any but `std::runtime_error`. -/
inductive Exception
  | runtimeError (what : Text)
  | other (what : Text)
  deriving DecidableEq, Repr

/-- The text of an exception. -/
def Exception.what : Exception → Text
  | .runtimeError what => what
  | .other what => what

/-- What the constructor of a component makes. -/
structure Parts where
  attributes : Attributes
  workers : Table Text Attributes

/-- What the constructors make, if they return. -/
structure Library where
  component : ComponentPb → Parts
  port : PortPb → Attributes

/-- What is done outside during a call. -/
structure Environment where
  library : Library
  /-- The library function of a component; `false` is a null pointer. -/
  component : ComponentPb → Except Exception Bool
  /-- The library function of a port of the component with this id; `false` is a null pointer. -/
  port : Text → PortPb → Except Exception Bool
  /-- `GetCallback` and the constructor of `PeriodicPort`. -/
  periodicPort : Text → PortPb → Except Exception PUnit
  /-- The constructor of `LoganClient`. -/
  loganClient : Text → Except Exception PUnit
  /-- `BindPublisherSocket` -/
  bindPublisherSocket : Text → Bool
  /-- Whether a handler of a port throws; by the component, the port and how many have run. -/
  handlerFails : Text → Text → ℕ → Transition → Bool

/-- What may change the container and may throw. -/
abbrev Program := Throwing DeploymentContainer Exception

/-! ## Loggers -/

/-- The constructor of `Logan::Logger`; `none` is `NotNeededException`. -/
def newLoganLogger (env : Environment) (loggerPb : LoggerPb) : Except Exception (Option Text) :=
  let endpoint := "tcp://".toList ++ loggerPb.publisherAddress ++ ':' :: loggerPb.publisherPort
  match loggerPb.mode with
  | .off => .ok none
  | .live | .cached =>
    if env.bindPublisherSocket endpoint then .ok (some endpoint)
    else .error (.runtimeError ("Cannot bind endpoint: ".toList ++ endpoint))
  | .unknown _ => .error (.runtimeError "Invalid logging Mode".toList)

/-- `GetConfiguredLoganClient`: a client that is there is returned as it is. -/
def getConfiguredLoganClient (env : Environment) (loggerPb : LoggerPb) : Program PUnit := do
  if loggerPb.type = .client ∧ loggerPb.mode ≠ .off then
    match (← Throwing.read).loganClients.lookup loggerPb.id with
    | some _ => pure ⟨⟩
    | none =>
      match env.loganClient loggerPb.id with
      | .error e => throw e
      | .ok _ => Throwing.update fun c =>
          { c with loganClients := c.loganClients.insert loggerPb.id .start }
    Throwing.update fun c =>
      { c with loganClients := c.loganClients.adjust loggerPb.id (·.update loggerPb) }

/-- The loop over the loggers. -/
def configureLogger (env : Environment) (loggerPb : LoggerPb) : Program PUnit := do
  match loggerPb.type with
  | .client => getConfiguredLoganClient env loggerPb
  | .model =>
    match (← Throwing.read).loganLogger with
    | some _ => pure ⟨⟩
    | none =>
      match newLoganLogger env loggerPb with
      | .error e => throw e
      | .ok logger => Throwing.update fun c => { c with loganLogger := logger }
  | .none | .server | .experiment | .unknown _ => pure ⟨⟩

/-! ## Attributes -/

/-- The name and the attributes of an entity. -/
def find (c : DeploymentContainer) (entity : Entity) : Option (Text × Attributes) :=
  (c.components.lookup entity.owner).bind (·.find entity)

/-- A new attribute. -/
def addAttribute (c : DeploymentContainer) (entity : Entity) (name : Text) (type : AttributeType) :
    DeploymentContainer :=
  match entity with
  | .component id =>
    { c with components := c.components.adjust id fun k =>
        { k with attributes := k.attributes.insert name type } }
  | .port id portName =>
    { c with components := c.components.adjust id fun k =>
        { k with ports := k.ports.adjust portName fun port =>
            { port with attributes := port.attributes.insert name type } } }
  | .worker id workerName =>
    { c with components := c.components.adjust id fun k =>
        { k with workers := k.workers.adjust workerName (·.insert name type) } }

/-- `SetAttributeFromPb` with `ConstructAttribute` -/
def setAttributeFromPb (entity : Entity) (attributePb : AttributePb) : Program PUnit := do
  match (← Throwing.read).find entity with
  | none => pure ⟨⟩
  | some (name, attributes) =>
    match attributes.lookup attributePb.info.name with
    | none => Throwing.update (·.addAttribute entity attributePb.info.name attributePb.kind.type)
    | some type =>
      if type = attributePb.kind.type then pure ⟨⟩
      else throw (.runtimeError ("Entity: ".toList ++ name ++ " Cannot construct Attribute: ".toList ++
        attributePb.info.name))

/-! ## Ports -/

/-- The constructor of the port's kind; `false` is a null pointer. -/
def constructPort (env : Environment) (component : Component) (id : Text) (portPb : PortPb) :
    Except Exception Bool :=
  match portPb.kind with
  | .periodic =>
    match env.periodicPort id portPb with
    | .error e => .error (.runtimeError ("Component: '".toList ++ component.name ++
        "' Cannot construct Periodic Port '".toList ++ e.what))
    | .ok _ => .ok true
  | .publisher | .subscriber | .requester | .replier => env.port id portPb
  | .noKind | .unknown _ => .ok false

/-- A new port of the component with this id. -/
def addPort (env : Environment) (c : DeploymentContainer) (id : Text) (portPb : PortPb) :
    DeploymentContainer :=
  let port : Port :=
    ⟨portPb.info.id, portPb.info.type, env.library.port portPb, .notConfigured, 0⟩
  { c with
    components := c.components.adjust id fun k =>
      { k with ports := k.ports.insert portPb.info.name port } }

/-- The beginning of `GetConfiguredPort`, for the component with this id. -/
def getPort (env : Environment) (id : Text) (portPb : PortPb) : Program PUnit := do
  match (← Throwing.read).components.lookup id with
  | none => pure ⟨⟩
  | some component =>
    match component.ports.lookup portPb.info.name with
    | some _ => pure ⟨⟩
    | none =>
      match constructPort env component id portPb with
      | .error e => throw e
      | .ok true => Throwing.update (addPort env · id portPb)
      | .ok false => throw (.runtimeError ("Cannot Construct Port: ".toList ++ portPb.info.name ++
          ' ' :: portPb.info.type ++ ' ' :: portPb.info.id))

/-- `GetConfiguredPort` -/
def getConfiguredPort (env : Environment) (id : Text) (portPb : PortPb) : Program PUnit := do
  getPort env id portPb
  portPb.attributes.forM fun attributePb =>
    setAttributeFromPb (.port id portPb.info.name) attributePb

/-- The restart of a port by its handlers. -/
def reconfigurePort (env : Environment) (id name : Text) : Program PUnit :=
  Throwing.update fun c =>
    { c with components := c.components.adjust id fun k =>
        { k with ports := k.ports.adjust name (Port.reconfigure (env.handlerFails id name)) } }

/-! ## Components -/

/-- `ConstructComponent` and the once-off information of `GetConfiguredComponent`. -/
def constructComponent (env : Environment) (componentPb : ComponentPb) : Program PUnit :=
  match env.component componentPb with
  | .error e => throw e
  | .ok false =>
    throw (.runtimeError ("Cannot Construct Component: ".toList ++ componentPb.info.name))
  | .ok true =>
    let component : Component :=
      { name               := componentPb.info.name
        type               := componentPb.info.type
        location           := componentPb.location
        replicationIndices := componentPb.replicateIndices
        state              := .notConfigured
        attributes         := (env.library.component componentPb).attributes
        ports              := ∅
        workers            := (env.library.component componentPb).workers }
    Throwing.update fun c =>
      { c with components := c.components.insert componentPb.info.id component }

/-- The beginning of `GetConfiguredComponent`. -/
def getComponent (env : Environment) (componentPb : ComponentPb) : Program PUnit := do
  match (← Throwing.read).components.lookup componentPb.info.id with
  | some _ => pure ⟨⟩
  | none => constructComponent env componentPb

/-- The loop over the ports of a component. -/
def configurePort (env : Environment) (id : Text) (portPb : PortPb) : Program PUnit := do
  getConfiguredPort env id portPb
  reconfigurePort env id portPb.info.name

/-- The beginning of `GetConfiguredWorker`, for the component with this id. -/
def getWorker (id : Text) (workerPb : WorkerPb) : Program PUnit := do
  match (← Throwing.read).components.lookup id with
  | none => pure ⟨⟩
  | some component =>
    if workerPb.info.name ∈ component.workers then pure ⟨⟩
    else throw (.runtimeError ("Component: '".toList ++ component.name ++
      "' Doesn't have a Worker: '".toList ++ workerPb.info.name ++ ['\'']))

/-- `GetConfiguredWorker` -/
def getConfiguredWorker (id : Text) (workerPb : WorkerPb) : Program PUnit := do
  getWorker id workerPb
  workerPb.attributes.forM fun attributePb =>
    setAttributeFromPb (.worker id workerPb.info.name) attributePb

/-- `GetConfiguredComponent`: the component, and then its attributes, ports and workers. -/
def getConfiguredComponent (env : Environment) (componentPb : ComponentPb) : Program PUnit := do
  getComponent env componentPb
  componentPb.attributes.forM fun attributePb =>
    setAttributeFromPb (.component componentPb.info.id) attributePb
  componentPb.ports.forM fun portPb => configurePort env componentPb.info.id portPb
  componentPb.workers.forM fun workerPb => getConfiguredWorker componentPb.info.id workerPb

/-! ## The call -/

/-- `Activatable::Configure` of the container, with `HandleConfigure`: everything in it is
configured, and then the results are looked at. -/
def activatableConfigure (env : Environment) (c : DeploymentContainer) : DeploymentContainer :=
  match c.state.next .configure with
  | none => c
  | some newState =>
    let success := (c.components.values.all fun k => (k.configure fun _ _ _ => false).2) &&
      c.loganClients.values.all fun client => client.configure.2
    { c with
      state        := if success then newState else c.state
      components   := c.components.mapEntries fun id k => (k.configure (env.handlerFails id)).1
      loganClients := c.loganClients.mapValues fun client => client.configure.1 }

/-- `RemoveComponent`. -/
def removeComponent (id : Text) : Program PUnit :=
  Throwing.update fun c => { c with components := c.components.erase id }

/-- The body of `Configure`. -/
def configureBody (env : Environment) (container : ContainerPb) : Program PUnit := do
  Throwing.update fun c => { c with name := container.info.name, id := container.info.id }
  container.loggers.forM fun loggerPb => configureLogger env loggerPb
  container.components.forM fun componentPb => getConfiguredComponent env componentPb
  Throwing.update (activatableConfigure env)

/-- `Configure` -/
def configure (env : Environment) (container : ContainerPb) : Program PUnit :=
  tryCatch (configureBody env container) fun
    | .runtimeError what => do
      container.components.forM fun componentPb => removeComponent componentPb.info.id
      throw (.runtimeError what)
    | .other what => throw (.other what)

/-! ## Steps -/

/-- The steps that the configuration of a container is made of. -/
inductive Step
  | logger (loggerPb : LoggerPb)
  | component (componentPb : ComponentPb)
  | attribute (entity : Entity) (attributePb : AttributePb)
  | port (id : Text) (portPb : PortPb)
  | reconfigure (id name : Text)
  | worker (id : Text) (workerPb : WorkerPb)
  deriving DecidableEq, Repr

/-- The function of a step. -/
def Step.run (env : Environment) : Step → Program PUnit
  | .logger loggerPb => configureLogger env loggerPb
  | .component componentPb => getComponent env componentPb
  | .attribute entity attributePb => setAttributeFromPb entity attributePb
  | .port id portPb => getPort env id portPb
  | .reconfigure id name => reconfigurePort env id name
  | .worker id workerPb => getWorker id workerPb

/-- The steps of one port. -/
def portSteps (id : Text) (portPb : PortPb) : List Step :=
  .port id portPb :: (portPb.attributes.map (.attribute (.port id portPb.info.name)) ++
    [.reconfigure id portPb.info.name])

/-- The steps of a worker: first itself, then its attributes. -/
def workerSteps (id : Text) (workerPb : WorkerPb) : List Step :=
  .worker id workerPb :: workerPb.attributes.map (.attribute (.worker id workerPb.info.name))

/-- The steps of `GetConfiguredComponent` once the component is there. -/
def partSteps (componentPb : ComponentPb) : List Step :=
  componentPb.attributes.map (.attribute (.component componentPb.info.id)) ++
    componentPb.ports.flatMap (portSteps componentPb.info.id) ++
      componentPb.workers.flatMap (workerSteps componentPb.info.id)

/-- The steps of a component: first itself, then its parts. -/
def componentSteps (componentPb : ComponentPb) : List Step :=
  .component componentPb :: partSteps componentPb

/-- The steps of a message: the loggers first. -/
def steps (container : ContainerPb) : List Step :=
  container.loggers.map .logger ++ container.components.flatMap componentSteps

theorem forM_portSteps (env : Environment) (id : Text) (portPb : PortPb) :
    (portSteps id portPb).forM (Step.run env) = configurePort env id portPb := by
  show (Step.run env (.port id portPb) >>= fun _ => List.forM (_ ++ _) _) = _
  rw [Throwing.forM_append, Throwing.forM_map, configurePort, getConfiguredPort, bind_assoc]
  rfl

theorem forM_workerSteps (env : Environment) (id : Text) (workerPb : WorkerPb) :
    (workerSteps id workerPb).forM (Step.run env) = getConfiguredWorker id workerPb := by
  show (Step.run env (.worker id workerPb) >>= fun _ => List.forM _ _) = _
  rw [Throwing.forM_map]
  rfl

theorem forM_componentSteps (env : Environment) (componentPb : ComponentPb) :
    (componentSteps componentPb).forM (Step.run env) = getConfiguredComponent env componentPb := by
  show (Step.run env (.component componentPb) >>= fun _ => (List.forM (_ ++ _ ++ _) _)) = _
  rw [Throwing.forM_append, Throwing.forM_append, Throwing.forM_map, Throwing.forM_flatMap,
    Throwing.forM_flatMap, bind_assoc]
  simp only [forM_portSteps, forM_workerSteps]
  rfl

theorem configureBody_eq (env : Environment) (container : ContainerPb) :
    configureBody env container = (do
      Throwing.update fun c => { c with name := container.info.name, id := container.info.id }
      (steps container).forM (Step.run env)
      Throwing.update (activatableConfigure env)) := by
  rw [steps, Throwing.forM_append, Throwing.forM_map, Throwing.forM_flatMap, bind_assoc]
  simp only [forM_componentSteps]
  rfl

end DeploymentContainer

end Sem.NodeManager

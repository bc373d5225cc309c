import Sem.EnvironmentManager.Environment
import Sem.Lib.HashOrder

/-!
# Constructors and destructors

Building an object takes network ports and registers external ports; destroying it gives them
back. An object whose constructor throws is not destroyed: only its members are, so that what the
constructor itself had taken stays taken.

A program below gets the name of the experiment that it works for (`experiment_.GetName()`) and
the address of the node (`GetNode().GetIp()`).
-/

namespace Sem.EnvironmentManager

open Xml (Text)
open NodeManager (Middleware PortKind LoggerType LoggerMode)
open Throwing (read update undefined)

/-! ## Ports -/

/-- `Port::~Port`. -/
def Port.unregister (externalPorts : Table Text ExternalPort) (name : Text) (p : Port) :
    Program Unit :=
  match role p.kind with
  | some r => p.connectedExternalPortIds.forM fun id =>
      Experiment.removeExternalPort r externalPorts name id p.id
  | none => pure ()

/-- The destructor of a port that was built: `zmq::Port::~Port` frees its port before `~Port`. -/
def Port.destroy (externalPorts : Table Text ExternalPort) (name : Text) (p : Port) :
    Program Unit := do
  if p.middleware = .zmq ∧ role p.kind = some .producer then freePort p.ip p.producerPort
  else pure ()
  p.unregister externalPorts name

/-- The external ports of a registered experiment. -/
def liveExternalPorts (name : Text) : Program (Table Text ExternalPort) := do
  let env ← read
  pure (((env.experimentMap.lookup name).map Experiment.externalPorts).getD ∅)

/-- `Port::Port`. -/
def newPort (name : Text) (msg : NodeManager.Port) : Program Port := do
  match role msg.kind with
  | some r => msg.connectedExternalPorts.forM fun id =>
      Experiment.addExternalPort r name id msg.id
  | none => pure ()
  pure
    { id := msg.id
      kind := msg.kind
      middleware := msg.middleware
      connectedExternalPortIds := msg.connectedExternalPorts.foldl OrderedSet.insert []
      ip := []
      producerPort := none
      dirty := false }

/-- The constructor of a middleware's port threw after `Port::Port`. -/
def failPort (name : Text) (p : Port) : Program (Option Port) := do
  let externalPorts ← liveExternalPorts name
  p.unregister externalPorts name
  pure none

/-- What the middleware constructors of a component's port require of the message and of the
environment; `tao::Port` asks for its naming service after it took the ORB port. -/
def middlewareReady (env : Environment) (msg : NodeManager.Port) : Bool :=
  match msg.middleware with
  | .zmq => true
  | .qpid => role msg.kind = some .producer →
      env.qpidBrokerAddress ≠ [] ∧ "topic_name".toList ∈ msg.attributes
  | .tao => env.taoNamingServiceAddress ≠ []
  | .rti | .ospl => "topic_name".toList ∈ msg.attributes
  | .noMiddleware => "Frequency".toList ∈ msg.attributes

/-- `Container::AssignOrbPort`. -/
def assignOrbPort (ip : Text) (orbPort : Option ℕ) : Program (Option ℕ) :=
  match orbPort with
  | some p => pure (some p)
  | none => getPort ip

/-- The part of a middleware's constructor that takes a network port: what becomes of the port,
and the ORB port of the container. -/
def takePorts (ip : Text) (orbPort : Option ℕ) (p : Port) : Program (Port × Option ℕ) :=
  match p.middleware with
  | .zmq =>
    if role p.kind = some .producer then do
      let port ← getPort ip
      pure ({ p with ip := ip, producerPort := port }, orbPort)
    else pure (p, orbPort)
  | .tao => do
    let orbPort ← assignOrbPort ip orbPort
    pure (p, orbPort)
  | .qpid | .rti | .ospl | .noMiddleware => pure (p, orbPort)

/-- `Port::ConstructPort`, which turns an exception into no port at all; with the ORB port that
the container has afterwards. -/
def constructPort (name ip : Text) (orbPort : Option ℕ) (msg : NodeManager.Port) :
    Program (Option Port × Option ℕ) := do
  if msg.middleware = .noMiddleware ∧ msg.kind ≠ .periodic then pure (none, orbPort)
  else do
    let p ← newPort name msg
    tryCatch
      (do
        let taken ← takePorts ip orbPort p
        let env ← read
        if middlewareReady env msg then pure (some taken.1, taken.2)
        else do
          let failed ← failPort name p
          pure (failed, taken.2))
      fun _ => do
        let failed ← failPort name p
        pure (failed, orbPort)

variable [HashOrder]

/-! ## Components -/

/-- `Component` has no destructor of its own. -/
def Component.destroy (externalPorts : Table Text ExternalPort) (name : Text) (k : Component) :
    Program Unit :=
  k.ports.values.forM (·.destroy externalPorts name)

/-- `ports_.emplace`: a port whose id is taken is destroyed. -/
def Component.emplacePort (name : Text) (k : Component) (id : Text) (p : Port) :
    Program Component :=
  if id ∈ k.ports then do
    let externalPorts ← liveExternalPorts name
    p.destroy externalPorts name
    pure k
  else pure { k with ports := k.ports.place id p }

/-- `Component::Component`. -/
def constructComponent (name ip : Text) (orbPort : Option ℕ) (msg : NodeManager.Component) :
    Program (Component × Option ℕ) :=
  msg.ports.foldlM
    (fun built port => do
      let made ← constructPort name ip built.2 port
      match made.1 with
      | none => pure (built.1, made.2)
      | some p => do
        let k ← built.1.emplacePort name port.id p
        pure (k, made.2))
    ({ id := msg.id, ports := ∅, dirty := false }, orbPort)

/-! ## Loggers -/

/-- `Logger::TranslateProtoType`, and the exception of `Logger::Logger` for a type it cannot
handle. A server's mode has no initial value and is not read. -/
def newLogger (msg : NodeManager.Logger) : Except Exception Logger :=
  match msg.type with
  | .client | .model => .ok ⟨msg.id, msg.type, msg.mode, [], none⟩
  | .server => .ok ⟨msg.id, .server, .off,
      ((msg.clientIds.foldl OrderedSet.insert []).insert MODEL_LOGGER_ID).insert
        EXPERIMENT_LOGGER_ID, none⟩
  | .none | .experiment => .error .runtimeError

namespace Container

/-- `loggers_.emplace`; a logger that was not used yet has no port to free. -/
def emplaceLogger (c : Container) (key : Text) (logger : Logger) : Container :=
  if key ∈ c.loggers then c else { c with loggers := c.loggers.place key logger }

/-- `Container::AddModelLogger`. -/
def addModelLogger (c : Container) : Container :=
  c.emplaceLogger MODEL_LOGGER_ID ⟨[], .model, .off, [], none⟩

/-- `Container::SetNodeManagerMaster`. -/
def setNodeManagerMaster (c : Container) : Container :=
  { c with isNodeManagerMaster := true }.emplaceLogger EXPERIMENT_LOGGER_ID
    ⟨[], .experiment, .live, [], none⟩

/-- `Container::AddLogger`: the model logger takes the mode of the last client. -/
def addLogger (c : Container) (msg : NodeManager.Logger) : Except Exception Container := do
  let logger ← newLogger msg
  let c := c.emplaceLogger msg.id logger
  match c.loggers.lookup msg.id with
  | some found =>
    if found.type = .client then
      pure { c with
        loggers := c.loggers.adjust MODEL_LOGGER_ID fun l => { l with mode := found.mode } }
    else pure c
  | none => pure c

/-! ## Containers -/

/-- The members of a container are destroyed, with or without its destructor. -/
def destroyMembers (externalPorts : Table Text ExternalPort) (name ip : Text) (c : Container) :
    Program Unit := do
  c.loggers.values.forM fun l => freePort ip l.publisherPort
  c.components.values.forM (·.destroy externalPorts name)

/-- `Container::~Container`; the management port is never assigned. -/
def destroy (externalPorts : Table Text ExternalPort) (name ip : Text) (c : Container) :
    Program Unit := do
  if c.getDeployedCount > 0 then freePort ip c.orbPort else pure ()
  c.destroyMembers externalPorts name ip

/-- `components_.emplace`. -/
def emplaceComponent (name : Text) (c : Container) (id : Text) (k : Component) :
    Program Container :=
  if id ∈ c.components then do
    let externalPorts ← liveExternalPorts name
    k.destroy externalPorts name
    pure c
  else pure { c with components := c.components.place id k }

/-- `Container::AddComponent`, of a container that is being built. -/
def addComponent (name ip : Text) (c : Container) (msg : NodeManager.Component) :
    Program Container := do
  let built ← constructComponent name ip c.orbPort msg
  { c with orbPort := built.2 }.emplaceComponent name msg.id built.1

end Container

/-- The loggers of a container that is being built. When `AddLogger` throws, the members go and
`~Container` does not run. -/
def addLoggers (name ip : Text) (c : Container) (msgs : List NodeManager.Logger) :
    Program Container :=
  msgs.foldlM
    (fun c msg =>
      if msg.type = .server ∨ c.getDeployedComponentCount > 0 then
        match c.addLogger msg with
        | .ok c => pure c
        | .error ex => do
          let externalPorts ← liveExternalPorts name
          c.destroyMembers externalPorts name ip
          throw ex
      else pure c)
    c

/-- `Container::Container`. -/
def constructContainer (name ip : Text) (msg : NodeManager.Container) : Program Container := do
  let c ← msg.components.foldlM (Container.addComponent name ip)
    { id := msg.id
      lateJoiner := msg.isLateJoiner
      isNodeManagerMaster := false
      orbPort := none
      components := ∅
      loggers := ∅
      dirty := false }
  addLoggers name ip (if c.getDeployedComponentCount > 0 then c.addModelLogger else c) msg.loggers

/-! ## Nodes -/

namespace Node

/-- `Node` has no destructor of its own. -/
def destroy (externalPorts : Table Text ExternalPort) (name : Text) (n : Node) : Program Unit :=
  n.containers.values.forM (·.destroy externalPorts name n.ip)

/-- `implicit_container_id_` of a node that gets the container. -/
def noteImplicit (n : Node) (msg : NodeManager.Container) : Node :=
  if msg.implicit then { n with implicitContainerId := msg.id } else n

/-- `containers_.emplace`. -/
def emplaceContainer (n : Node) (id : Text) (c : Container) : Node :=
  { n with containers := n.containers.place id c }

/-- `Node::AddContainer`, of a node that is being built: when it throws, the node's members go. -/
def addContainer (name : Text) (n : Node) (msg : NodeManager.Container) : Program Node := do
  let c ← tryCatch (constructContainer name n.ip msg) fun ex => do
    let externalPorts ← liveExternalPorts name
    n.destroy externalPorts name
    throw ex
  if msg.id ∈ n.containers then do
    let externalPorts ← liveExternalPorts name
    c.destroy externalPorts name n.ip
    pure (n.noteImplicit msg)
  else pure ((n.noteImplicit msg).emplaceContainer msg.id c)

end Node

/-- `Node::Node`. -/
def constructNode (name : Text) (msg : NodeManager.Node) : Program Node :=
  if msg.ipAddress = "OFFLINE".toList ∧ msg.containers ≠ [] then throw .invalidArgument
  else msg.containers.foldlM (Node.addContainer name)
    { ip := msg.ipAddress
      implicitContainerId := []
      containers := ∅
      dirty := false }

/-! ## Experiments -/

/-- Deregister from the external labels, in `~Experiment`. -/
def Experiment.unregister (e : Experiment) : Program Unit :=
  e.externalPorts.values.forM fun port => do
    if port.consumerIds ≠ [] then
      Environment.removeExternalConsumerPort e.modelName port.externalLabel
    else pure ()
    if port.producerIds ≠ [] then
      Environment.removeExternalProducerPort e.modelName port.externalLabel
    else pure ()

/-- `Experiment::~Experiment`. Only the deregistration can throw. Then the rest of the body is
skipped and the members are destroyed, the external ports before the nodes, so that `~Port` finds
none. -/
def Experiment.destroy (e : Experiment) : Program Unit :=
  tryCatch
    (do
      e.unregister
      e.nodes.values.forM (·.destroy e.externalPorts e.modelName)
      freeManagerPort e.managerPort
      if e.state = .active then do
        freePort e.masterIpAddress e.masterPublisherPort
        freePort e.masterIpAddress e.masterRegistrationPort
      else pure ())
    fun _ => e.nodes.values.forM (·.destroy ∅ e.modelName)

/-- `Environment::RemoveExperimentInternal`: the map lets go of the experiment before its
destructor runs. -/
def removeExperimentInternal (name : Text) : Program Unit := do
  let env ← read
  match env.experimentMap.lookup name with
  | none => pure ()
  | some e => do
    update fun env =>
      { env with
        experimentMap := env.experimentMap.erase name
        owed := env.owed.filter fun o => o.1 ≠ name }
    e.destroy

end Sem.EnvironmentManager

import Sem.EnvironmentManager.Protos
import Sem.Lib.Run

/-!
# The environment manager

`PopulateExperiment` makes a sequence of calls for one message. It holds the mutexes of the
environment all the while, so nothing else runs between two of them; an exception in one of them
leads to the removal of the experiment. The other requests are one action each.

* `jobs`: the calls of `PopulateExperiment`, in order.
* `step`: one action of the environment manager.
* `system`: its transition system.
-/

namespace Sem.EnvironmentManager

open Xml (Text)
open NodeManager (Middleware PortKind LoggerType LoggerMode)
open Throwing (read update undefined)

variable [HashOrder]

/-! ## The calls of `PopulateExperiment` -/

/-- What a registration does with a part of the message. -/
inductive Job
  | addExternalPorts (externalPorts : List NodeManager.ExternalPort)
  | addNodeToExperiment (node : NodeManager.Node)
  | deployContainer (container : NodeManager.Container)
  | addComponentToImplicitContainer (component : NodeManager.Component)
  | addLoggingClientToNodes (logger : NodeManager.Logger)
  | addLoggingServerToImplicitContainer (logger : NodeManager.Logger)
  | complete
  | publish
  | removeExperiment
  deriving DecidableEq, Repr

namespace NodeManager

/-- `Environment::DistributeContainerToImplicitNodeContainers`. -/
def Container.distributeJobs (container : Container) : List Job :=
  container.components.map .addComponentToImplicitContainer ++
    container.loggers.filterMap fun logger =>
      match logger.type with
      | .client => some (.addLoggingClientToNodes logger)
      | .server => some (.addLoggingServerToImplicitContainer logger)
      | .none | .model | .experiment => none

/-- `Environment::AddNodes`. -/
def Cluster.jobs (cluster : Cluster) : List Job :=
  cluster.nodes.map .addNodeToExperiment ++
    (cluster.containers.filter fun c => ¬c.implicit).map .deployContainer ++
    (cluster.containers.filter fun c => c.implicit).flatMap Container.distributeJobs

/-- `Environment::PopulateExperiment`. -/
def Experiment.jobs (message : Experiment) : List Job :=
  .addExternalPorts message.externalPorts :: message.clusters.flatMap Cluster.jobs ++
    [.complete, .publish]

end NodeManager

/-- `Environment::RegisterExperiment`. -/
def registerExperiment (name : Text) : Program Unit := do
  let port ← getManagerPort
  update fun env =>
    { env with
      experimentMap := env.experimentMap.insert name
        { modelName := name
          state := .registered
          shutdown := false
          dirty := false
          masterIpAddress := []
          managerPort := some port
          masterPublisherPort := none
          masterRegistrationPort := none
          nodes := ∅
          externalPorts := ∅
          externalIdToInternalId := ∅ } }

/-- `Experiment::AddExternalPorts`, for the ports that are no blackbox. -/
def addExternalPorts (name : Text) (ports : List NodeManager.ExternalPort) : Program Unit :=
  ports.forM fun port =>
    if port.isBlackbox then pure ()
    else do
      let e ← getExperimentInternal name
      if port.id ∈ e.externalPorts then throw .invalidArgument
      else modifyExperiment name fun e =>
        { e with
          externalPorts := e.externalPorts.place port.id ⟨port.name, [], []⟩
          externalIdToInternalId := e.externalIdToInternalId.insert port.name port.id }

/-- `Environment::AddNodeToEnvironment`. -/
def addNodeToEnvironment (ip : Text) : Program Unit :=
  update fun env =>
    if ip ∈ env.nodeMap then env
    else { env with nodeMap := env.nodeMap.insert ip ⟨env.availablePorts⟩ }

/-- `Environment::AddNodeToExperiment`, with `Experiment::AddNode`. -/
def addNodeToExperiment (name : Text) (msg : NodeManager.Node) : Program Unit := do
  addNodeToEnvironment msg.ipAddress
  let e ← getExperimentInternal name
  if msg.ipAddress ∈ e.nodes then throw .invalidArgument
  else do
    let node ← constructNode name msg
    modifyExperiment name fun e => { e with nodes := e.nodes.place msg.ipAddress node }

/-- A node is changed where it is. -/
def Experiment.adjustNode (e : Experiment) (ip : Text) (f : Node → Node) : Experiment :=
  { e with nodes := e.nodes.adjust ip f }

/-- A container is changed where it is. -/
def Experiment.adjustContainer (e : Experiment) (ip container : Text)
    (f : Container → Container) : Experiment :=
  e.adjustNode ip fun n => { n with containers := n.containers.adjust container f }

/-- `Environment::DeployContainer`, with `Node::AddContainer`. -/
def deployContainer (name : Text) (msg : NodeManager.Container) : Program Unit := do
  let e ← getExperimentInternal name
  match e.getLeastDeployedToNode false with
  | none => undefined
  | some n => do
    modifyExperiment name (·.adjustNode n.ip (·.noteImplicit msg))
    let c ← constructContainer name n.ip msg
    if msg.id ∈ n.containers then do
      let externalPorts ← liveExternalPorts name
      c.destroy externalPorts name n.ip
    else modifyExperiment name (·.adjustNode n.ip (·.emplaceContainer msg.id c))

/-- `Node::AddComponentToImplicitContainer` of the least deployed to node, with
`Container::AddComponent`. -/
def addComponentToImplicitContainer (name : Text) (msg : NodeManager.Component) :
    Program Unit := do
  let e ← getExperimentInternal name
  match e.getLeastDeployedToNode false with
  | none => undefined
  | some n =>
    match n.containers.lookup n.implicitContainerId with
    | none => throw .outOfRange
    | some c => do
      let built ← constructComponent name n.ip c.orbPort msg
      modifyExperiment name (·.adjustContainer n.ip n.implicitContainerId fun c =>
        { c with orbPort := built.2 })
      if msg.id ∈ c.components then do
        let externalPorts ← liveExternalPorts name
        built.1.destroy externalPorts name
      else modifyExperiment name (·.adjustContainer n.ip n.implicitContainerId fun c =>
        { c with components := c.components.place msg.id built.1 })

/-- `Container::AddLogger`, of a container in its place. -/
def addLoggerTo (name ip container : Text) (c : Container) (msg : NodeManager.Logger) :
    Program Unit :=
  match c.addLogger msg with
  | .error ex => throw ex
  | .ok added => modifyExperiment name (·.adjustContainer ip container fun c =>
      { c with loggers := added.loggers })

/-- `Node::AddLoggingClient`. -/
def addLoggingClient (name ip : Text) (n : Node) (msg : NodeManager.Logger) : Program Unit :=
  match n.containers.lookup n.implicitContainerId with
  | none => throw .outOfRange
  | some c =>
    if c.getDeployedComponentCount ≠ 0 then addLoggerTo name ip n.implicitContainerId c msg
    else
      match n.containers.entries.find? fun c => c.2.getDeployedComponentCount ≠ 0 with
      | some found => addLoggerTo name ip found.1 found.2 msg
      | none => pure ()

/-- `Experiment::AddLoggingClientToNodes`. -/
def addLoggingClientToNodes (name : Text) (msg : NodeManager.Logger) : Program Unit := do
  let e ← getExperimentInternal name
  e.nodes.entries.forM fun n => addLoggingClient name n.1 n.2 msg

/-- `Node::AddLoggingServerToImplicitContainer` of the least deployed to node. -/
def addLoggingServerToImplicitContainer (name : Text) (msg : NodeManager.Logger) :
    Program Unit := do
  let e ← getExperimentInternal name
  match e.getLeastDeployedToNode true with
  | none => undefined
  | some n =>
    match n.containers.lookup n.implicitContainerId with
    | none => throw .outOfRange
    | some c => addLoggerTo name n.ip n.implicitContainerId c msg

/-- The key of `Node::GetMasterEligibleContainer`. -/
def Node.getMasterEligibleContainer (n : Node) : Option Text :=
  (n.containers.entries.find? fun c =>
    c.2.getDeployedComponentCount ≠ 0 ∧ ¬c.2.lateJoiner).map (·.1)

/-- `Experiment::ConfigureMaster`. -/
def configureMaster (name : Text) : Program Unit := do
  let e ← getExperimentInternal name
  match e.nodes.entries.find? fun n => n.2.hasMasterEligibleContainer with
  | none => pure ()
  | some n =>
    match n.2.getMasterEligibleContainer with
    | none => throw .invalidArgument
    | some container => do
      modifyExperiment name fun e =>
        { e.adjustContainer n.1 container Container.setNodeManagerMaster with
          masterIpAddress := n.2.ip }
      getMasterPublisherAddress name
      getMasterRegistrationAddress name

/-- `Experiment::CheckValidity`. -/
def Experiment.checkValidity (e : Experiment) : Except Exception Unit :=
  if (e.nodes.values.map Node.getDeployedComponentCount).sum = 0 then .error .invalidArgument
  else if ¬e.nodes.values.any Node.hasNodeManagerMaster then .error .runtimeError
  else if e.masterIpAddress = [] then .error .runtimeError
  else if e.managerPort = none then .error .runtimeError
  else if e.masterPublisherPort = none then .error .runtimeError
  else if e.masterRegistrationPort = none then .error .runtimeError
  else .ok ()

/-- `ConfigureMaster`, `CheckValidity` and `SetConfigured`. -/
def complete (name : Text) : Program Unit := do
  configureMaster name
  let e ← getExperimentInternal name
  match e.checkValidity with
  | .error ex => throw ex
  | .ok _ =>
    if e.state = .registered then
      modifyExperiment name fun e => { e with state := .configured }
    else throw .runtimeError

/-- The function that does it. -/
def runJob (name : Text) : Job → Program Unit
  | .addExternalPorts ports => addExternalPorts name ports
  | .addNodeToExperiment node => addNodeToExperiment name node
  | .deployContainer container => deployContainer name container
  | .addComponentToImplicitContainer component => addComponentToImplicitContainer name component
  | .addLoggingClientToNodes logger => addLoggingClientToNodes name logger
  | .addLoggingServerToImplicitContainer logger => addLoggingServerToImplicitContainer name logger
  | .complete => complete name
  | .publish => tryCatch (do let _ ← getProto name true; pure ()) fun _ => pure ()
  | .removeExperiment => removeExperimentInternal name

/-! ## Requests -/

/-- `Environment::ShutdownExperimentInternal`. -/
def shutdownExperiment (name : Text) : Program Unit := do
  let e ← getExperimentInternal name
  if e.state = .active then shutdownActive name else removeExperimentInternal name

/-- The reply of `DeploymentHandler::HandleHeartbeat` to a master. -/
def heartbeatReply (name : Text) : Program EnvironmentMessage := do
  let env ← read
  match env.experimentMap.lookup name with
  | none => pure .heartbeatAck
  | some e => if e.dirty then getEnvironmentProto name false else pure .heartbeatAck

/-- `DeploymentHandler::HandleHeartbeat`. After the reply nothing is owed to the master. -/
def handleHeartbeat (name : Text) : Program EnvironmentMessage := do
  let reply ← heartbeatReply name
  update fun env => { env with owed := env.owed.filter fun o => o.1 ≠ name }
  pure reply

/-- `DeploymentRegister::HandleInspectExperiment`. -/
def handleInspectExperiment (name : Text) : Program EnvironmentMessage :=
  getEnvironmentProto name true

/-- `DeploymentHandler::HandleGetExperimentInfo`. -/
def handleGetExperimentInfo (name : Text) : Program EnvironmentMessage := do
  let e ← getExperimentInternal name
  if e.state = .configured then do
    let reply ← getEnvironmentProto name true
    modifyExperiment name fun e => { e with state := .active }
    pure reply
  else throw .runtimeError

/-- `DeploymentRegister::HandleNodeManagerRegistration`; the handler of a master binds the
manager port of the experiment. -/
def handleNodeManagerRegistration (name ip container : Text) : Program Unit := do
  let e ← getExperimentInternal name
  match (e.nodes.lookup ip).bind fun n => n.containers.lookup container with
  | none => throw .outOfRange
  | some c =>
    if c.getDeployedCount ≠ 0 then do
      if c.isNodeManagerMaster then
        if e.state = .configured then getPublisherPort name ip container EXPERIMENT_LOGGER_ID
        else throw .runtimeError
      else pure ()
      getMasterPublisherAddress name
      getMasterRegistrationAddress name
    else pure ()

/-- `DeploymentRegister::HandleLoganRegistration`: each server of the node is read, and the
handler takes a manager port when there is one. -/
def handleLoganRegistration (name ip : Text) : Program Unit := do
  let e ← getExperimentInternal name
  match e.nodes.lookup ip with
  | none => throw .invalidArgument
  | some n => do
    let servers := n.containers.entries.flatMap fun c =>
      (c.2.loggers.values.filter fun l => l.type = .server).map fun l => (c.1, l.id)
    servers.forM fun at_ => readLogger name ip at_.1 at_.2
    if servers ≠ [] then do
      let _ ← getManagerPort
      pure ()
    else pure ()

/-! ## The transition system -/

/-- A call of `PopulateExperiment` that is not finished. -/
structure Task where
  name : Text
  jobs : List Job
  deriving DecidableEq, Repr

/-- The manager, with the call that it is in. -/
structure Server where
  env : Environment
  task : Option Task

/-- What comes in, and the steps of a call. -/
inductive Action
  | populateExperiment (message : NodeManager.Experiment)
  | advance
  | shutdownExperiment (name : Text)
  | removeExperiment (name : Text)
  | handleHeartbeat (name : Text)
  | handleInspectExperiment (name : Text)
  | handleGetExperimentInfo (name : Text)
  | handleNodeManagerRegistration (name ip container : Text)
  | handleLoganRegistration (name ip : Text)
  deriving DecidableEq, Repr

namespace Server

/-- What is left to do when a call returned or threw. -/
def next (name : Text) (rest : List Job) : Except Exception Unit → Option Task
  | .ok _ => if rest = [] then none else some ⟨name, rest⟩
  | .error _ => some ⟨name, [.removeExperiment]⟩

/-- A request that no call of `PopulateExperiment` blocks. What it returns goes to the caller. -/
def request {α : Type} (s : Server) (p : Program α) : Option Server :=
  match s.task with
  | some _ => none
  | none => (p s.env).map fun result => ⟨result.2, none⟩

/-- One action. -/
def step (s : Server) : Action → Option Server
  | .populateExperiment message =>
    match s.task with
    | some _ => none
    | none =>
      if message.name ∈ s.env.experimentMap then some s
      else (registerExperiment message.name s.env).map fun
        | (.ok _, env) => ⟨env, some ⟨message.name, message.jobs⟩⟩
        | (.error _, env) => ⟨env, none⟩
  | .advance =>
    match s.task with
    | some ⟨name, job :: rest⟩ => (runJob name job s.env).map fun result =>
        ⟨result.2, next name rest result.1⟩
    | some ⟨_, []⟩ | none => none
  | .shutdownExperiment name => s.request (EnvironmentManager.shutdownExperiment name)
  | .removeExperiment name => s.request (removeExperimentInternal name)
  | .handleHeartbeat name => s.request (EnvironmentManager.handleHeartbeat name)
  | .handleInspectExperiment name => s.request (EnvironmentManager.handleInspectExperiment name)
  | .handleGetExperimentInfo name => s.request (EnvironmentManager.handleGetExperimentInfo name)
  | .handleNodeManagerRegistration name ip container =>
    s.request (EnvironmentManager.handleNodeManagerRegistration name ip container)
  | .handleLoganRegistration name ip =>
    s.request (EnvironmentManager.handleLoganRegistration name ip)

/-- The environment manager, from the constructor of its environment on. -/
def system (env : Environment) : Lts Server Action :=
  Lts.ofFun ⟨env, none⟩ step

end Server

end Sem.EnvironmentManager

import Sem.EnvironmentManager.Objects
import Sem.Lib.Throwing

/-!
# The environment

The state that the experiments share: the free network ports of each node, the manager ports, the
registered experiments, and for each external label the names of the experiments that produce and
consume it. A program over it is a `Throwing`; the texts of the exceptions are left out.

`owed` is a history variable, which nothing reads: what the master of an experiment has not been
told since its last heartbeat.
-/

namespace Sem.EnvironmentManager

open Xml (Text)

/-- The exceptions of the environment manager, by their classes. -/
inductive Exception
  | runtimeError | invalidArgument | outOfRange
  deriving DecidableEq, Repr

/-- A change that the master of an experiment is to be told. -/
inductive Update
  | port (path : PortPath)
  | shutdown
  deriving DecidableEq, Repr

/-- `PortTracker`; its `unique_queue` keeps the order and holds no number twice. -/
structure PortTracker where
  availablePorts : List ℕ

/-- `Environment::ExternalPort`. -/
structure SharedPort where
  producerExperiments : OrderedSet Text
  consumerExperiments : OrderedSet Text

/-- The experiments that use the port in a role. -/
def SharedPort.experiments (port : SharedPort) : Role → OrderedSet Text
  | .producer => port.producerExperiments
  | .consumer => port.consumerExperiments

/-- The experiments of a role are replaced. -/
def SharedPort.setExperiments (port : SharedPort) (names : OrderedSet Text) : Role → SharedPort
  | .producer => { port with producerExperiments := names }
  | .consumer => { port with consumerExperiments := names }

/-- `EnvironmentManager::Environment`: the experiments, the nodes and the ports that are free. -/
structure Environment where
  qpidBrokerAddress : Text
  taoNamingServiceAddress : Text
  portRangeMin : ℕ
  portRangeMax : ℕ
  experimentMap : Table Text Experiment
  nodeMap : Table Text PortTracker
  availableNodeManagerPorts : List ℕ
  externalEventportMap : Table Text SharedPort
  owed : List (Text × Update)

/-- What may change the environment and may throw. -/
abbrev Program := Throwing Environment Exception

open Throwing (read update undefined)

namespace Environment

/-- The numbers that each new node gets. -/
def availablePorts (env : Environment) : List ℕ :=
  List.range' env.portRangeMin (env.portRangeMax + 1 - env.portRangeMin)

/-- `Environment::Environment`; the update publisher takes the first manager port. -/
def init (qpidBrokerAddress taoNamingServiceAddress : Text) (portRangeMin portRangeMax : ℕ) :
    Environment where
  qpidBrokerAddress := qpidBrokerAddress
  taoNamingServiceAddress := taoNamingServiceAddress
  portRangeMin := portRangeMin
  portRangeMax := portRangeMax
  experimentMap := ∅
  nodeMap := ∅
  availableNodeManagerPorts :=
    (List.range' (portRangeMin + 10000) (portRangeMax - portRangeMin)).tail
  externalEventportMap := ∅
  owed := []

end Environment

/-! ## Network ports -/

/-- `unique_queue::push`. -/
def push (queue : List ℕ) (p : ℕ) : List ℕ :=
  if p ∈ queue then queue else queue ++ [p]

/-- `Environment::GetPort`; no port (`""`) when none is free. -/
def getPort (ip : Text) : Program (Option ℕ) := do
  let env ← read
  match env.nodeMap.lookup ip with
  | none => throw .invalidArgument
  | some tracker =>
    match tracker.availablePorts with
    | [] => pure none
    | p :: ps => do
      update fun env => { env with nodeMap := env.nodeMap.adjust ip fun _ => ⟨ps⟩ }
      pure (some p)

/-- `Environment::FreePort`. -/
def freePort (ip : Text) (port : Option ℕ) : Program Unit :=
  match port with
  | none => pure ()
  | some p => update fun env =>
      { env with nodeMap := env.nodeMap.adjust ip fun tracker => ⟨push tracker.availablePorts p⟩ }

/-- `Environment::GetManagerPort`. -/
def getManagerPort : Program ℕ := do
  let env ← read
  match env.availableNodeManagerPorts with
  | [] => throw .invalidArgument
  | p :: ps => do
    update fun env => { env with availableNodeManagerPorts := ps }
    pure p

/-- `Environment::FreeManagerPort`. -/
def freeManagerPort (port : Option ℕ) : Program Unit :=
  match port with
  | none => pure ()
  | some p => update fun env =>
      { env with availableNodeManagerPorts := push env.availableNodeManagerPorts p }

/-! ## Experiments -/

/-- `Environment::GetExperimentInternal`. -/
def getExperimentInternal (name : Text) : Program Experiment := do
  let env ← read
  match env.experimentMap.lookup name with
  | some e => pure e
  | none => throw .invalidArgument

/-- An experiment is changed where it is. -/
def modifyExperiment (name : Text) (f : Experiment → Experiment) : Program Unit :=
  update fun env => { env with experimentMap := env.experimentMap.adjust name f }

/-- `GetPort(port_id).SetDirty()`, as `Experiment::UpdatePort` calls it. -/
def setPortDirty (name portId : Text) : Program Unit := do
  let e ← getExperimentInternal name
  match e.findPort portId with
  | none => throw .outOfRange
  | some (node, container, component) => update fun env =>
      { env with
        experimentMap := env.experimentMap.adjust name fun e =>
          e.setDirty ⟨node, container, component, portId⟩
        owed := (name, .port ⟨node, container, component, portId⟩) :: env.owed }

/-- `Experiment::UpdatePort`. -/
def updatePort (name label : Text) : Program Unit := do
  let e ← getExperimentInternal name
  if e.state = .configured ∨ e.state = .active then
    match e.externalIdToInternalId.lookup label with
    | none => pure ()
    | some internalId =>
      match e.externalPorts.lookup internalId with
      | none => throw .invalidArgument
      | some port => port.consumerIds.forM (setPortDirty name)
  else pure ()

/-- `Experiment::Shutdown`. -/
def shutdownActive (name : Text) : Program Unit :=
  update fun env =>
    { env with
      experimentMap := env.experimentMap.adjust name fun e =>
        if e.shutdown then e else { e with shutdown := true, dirty := true }
      owed := (name, .shutdown) :: env.owed }

/-! ## External labels -/

/-- Change the names on one side of a label, if the label is known. -/
def Environment.adjustNames (env : Environment) (r : Role) (label : Text)
    (f : OrderedSet Text → OrderedSet Text) : Environment :=
  { env with
    externalEventportMap := env.externalEventportMap.adjust label fun port =>
      port.setExperiments (f (port.experiments r)) r }

/-- Make a label known. -/
def Environment.addLabel (env : Environment) (label : Text) : Environment :=
  if label ∈ env.externalEventportMap then env
  else { env with externalEventportMap := env.externalEventportMap.insert label ⟨[], []⟩ }

/-- `Environment::GetExternalPort`. -/
def getSharedPort (label : Text) : Program SharedPort := do
  let env ← read
  match env.externalEventportMap.lookup label with
  | some port => pure port
  | none => throw .runtimeError

/-- Update every experiment that consumes the label. -/
def updateConsumers (label : Text) : Program Unit := do
  let port ← getSharedPort label
  port.consumerExperiments.forM fun consumer => do
    let _ ← getExperimentInternal consumer
    updatePort consumer label

/-- `Environment::AddExternalConsumerPort`. -/
def Environment.addExternalConsumerPort (name label : Text) : Program Unit :=
  update fun env => (env.addLabel label).adjustNames .consumer label (·.insert name)

/-- `Environment::AddExternalProducerPort`. -/
def Environment.addExternalProducerPort (name label : Text) : Program Unit := do
  update fun env => (env.addLabel label).adjustNames .producer label (·.insert name)
  updateConsumers label

/-- `Environment::RemoveExternalConsumerPort`. -/
def Environment.removeExternalConsumerPort (name label : Text) : Program Unit := do
  let _ ← getSharedPort label
  update fun env => env.adjustNames .consumer label (·.erase name)

/-- `Environment::RemoveExternalProducerPort`. -/
def Environment.removeExternalProducerPort (name label : Text) : Program Unit := do
  let _ ← getSharedPort label
  update fun env => env.adjustNames .producer label (·.erase name)
  updateConsumers label

/-- One of the two functions, by the role. -/
def Environment.addExternalPort : Role → Text → Text → Program Unit
  | .producer => addExternalProducerPort
  | .consumer => addExternalConsumerPort

/-- One of the two functions, by the role. -/
def Environment.removeExternalPort : Role → Text → Text → Program Unit
  | .producer => removeExternalProducerPort
  | .consumer => removeExternalConsumerPort

/-- Change the ids on one side of an external port. -/
def Experiment.adjustIds (e : Experiment) (r : Role) (internalId : Text)
    (f : OrderedSet Text → OrderedSet Text) : Experiment :=
  { e with
    externalPorts := e.externalPorts.adjust internalId fun port =>
      port.setIds (f (port.ids r)) r }

/-- `Experiment::AddExternalProducerPort` and `AddExternalConsumerPort`: the id is recorded when
the environment's part went through. -/
def Experiment.addExternalPort (r : Role) (name internalId portId : Text) : Program Unit :=
  tryCatch
    (do
      let e ← getExperimentInternal name
      match e.externalPorts.lookup internalId with
      | none => throw .invalidArgument
      | some port => do
        Environment.addExternalPort r name port.externalLabel
        modifyExperiment name (·.adjustIds r internalId (·.insert portId)))
    fun _ => pure ()

/-- `Experiment::RemoveExternalProducerPort` and `RemoveExternalConsumerPort`, of an experiment
with these external ports. While its destructor runs the experiment is not in the map any more and
the ids, which die with it, are not changed. -/
def Experiment.removeExternalPort (r : Role) (externalPorts : Table Text ExternalPort)
    (name internalId portId : Text) : Program Unit :=
  tryCatch
    (match externalPorts.lookup internalId with
      | none => throw .invalidArgument
      | some port => do
        Environment.removeExternalPort r name port.externalLabel
        modifyExperiment name (·.adjustIds r internalId (·.erase portId)))
    fun _ => pure ()

end Sem.EnvironmentManager

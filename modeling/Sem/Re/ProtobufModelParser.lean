import Mathlib.Data.Char
import Mathlib.Data.List.Lex
import Mathlib.Data.List.Sort
import Sem.Lib.Decimal
import Sem.Lib.NumberTexts
import Sem.Lib.Table
import Sem.Re.GraphmlParser

/-!
# Replication of components and their connections (`protobufmodelparser.cpp`, `assembly.cpp`)

The parser replicates the component assemblies of a model: an assembly with replication count `n`
stands for `n` assemblies, each with its own components and nested assemblies, and a replica of a
component has one index for every assembly around it. `CalculateReplication` then connects the ports
of the replicas along the assembly edges of the model.

Nodes stand for their ids where the parser looks an id up again. Pointers to messages are the ids
under which `port_replicate_id_map_` and `external_port_id_map_` hold them. What the connections do
not depend on is left out: the contents of messages, and how `attribute_value_map_` and the
containers of components come about, which are parameters.
-/

namespace Sem.Re

open Xml (Text)

/-! ## Replicas -/

/-- What a model is read with: its document, `attribute_value_map_`, and whether a component is
deployed to a container that the experiment has. -/
structure Model extends Document where
  attributeValue : Text → Text
  hasContainer : Text → Bool

/-- `Assembly`, without its name and its children, which nothing reads. -/
inductive Assembly
  | mk (assemblyId : Text) (replicationIndex : Nat) (parent : Option Assembly)

/-- The indices from the outermost assembly inwards; the top level assembly has none. -/
def Assembly.getReplicationIndices : Assembly → List Nat
  | .mk _ _ none => []
  | .mk _ i (some parent) => parent.getReplicationIndices ++ [i]

/-- A component instance in a replica of the assembly around it. -/
structure ComponentReplication where
  component : Node
  parent : Assembly

/-- `GetReplicationIndices`: those of the assembly. -/
def ComponentReplication.getReplicationIndices (r : ComponentReplication) : List Nat :=
  r.parent.getReplicationIndices

namespace Model

variable (model : Model)

/-- `GetReplicationId`: the value of the first `Variable` child; a negative one counts as 0, and
without one that is a number the count is 1. -/
def getReplicationId (n : Node) : Nat :=
  match n.findImmediateChildren .variable with
  | [] => 1
  | variableNode :: _ => match Lib.stoi (model.attributeValue variableNode.id) with
    | .error _ => 1
    | .ok replicateValue => replicateValue.toNat

/-- The component instances among the children of an assembly. -/
def generateComponentReplications (assembly : Assembly) (children : List Node) :
    List ComponentReplication :=
  (children.filter (·.kind = .componentInstance)).map fun c => ⟨c, assembly⟩

mutual

/-- `GenerateReplications` of the assembly with the node and the parent, for every index. -/
def generateReplications (parent : Option Assembly) : Node → List ComponentReplication
  | .mk id kind children =>
    (List.range (model.getReplicationId (.mk id kind children))).flatMap fun i =>
      generateChildAssemblies (.mk id i parent) children ++
        generateComponentReplications (.mk id i parent) children

/-- The replicas of the assemblies among the children of an assembly. -/
def generateChildAssemblies (assembly : Assembly) : List Node → List ComponentReplication
  | [] => []
  | n :: ns =>
    (if n.kind = .componentAssembly then generateReplications (some assembly) n else []) ++
      generateChildAssemblies assembly ns

end

/-- The one `AssemblyDefinitions` node; `PreProcess` returns early if there are none or several. -/
def assemblyDefinitions : Option Node :=
  match model.entries.filter (·.node.kind = .assemblyDefinitions) with
  | [e] => some e.node
  | _ => none

/-- `component_instances_`. -/
def componentInstances : List ComponentReplication :=
  match model.assemblyDefinitions with
  | some definitions => model.generateReplications none definitions
  | none => []

/-! ## Connections -/

/-- What ends a search along the edges. -/
inductive ParseError
  | cyclicLink
  | outOfFuel
  deriving DecidableEq, Repr

/-- `std::set::insert`. -/
def setInsert (s : Text) (set : List Text) : List Text :=
  if s ∈ set then set else set.orderedInsert (· ≤ ·) s

/-- The edges of the kind `Edge_Assembly` to a node. -/
def assemblyEdgesTo (id : Text) : List Edge :=
  model.edges.filter fun e => e.kind = .assembly ∧ e.target = id

/-- A delegate of an external port ends a connection. -/
def recurseEdges (source : Text) : Bool :=
  !(model.kind source = some .pubSubPortDelegate || model.kind source = some .requestPortDelegate)

/-- `GetTerminalSourcesByEdgeKind` for `Edge_Assembly`. The nodes in `prevIds` are different, so
that the fuel is enough. -/
def getTerminalSources : Nat → List Text → Text → Except ParseError (List Text)
  | 0, _, _ => .error .outOfFuel
  | fuel + 1, prevIds, id =>
    if id ∈ prevIds then .error .cyclicLink
    else (model.assemblyEdgesTo id).foldlM (fun sourceIds e => do
      let connectedSources ← getTerminalSources fuel (id :: prevIds) e.source
      if model.recurseEdges e.source ∧ connectedSources ≠ [] then
        pure (connectedSources.foldl (fun set s => setInsert s set) sourceIds)
      else pure (setInsert e.source sourceIds)) []

/-- The edges of a kind that end at a node. -/
def edgesTo (kind : EdgeKind) (id : Text) : List Edge :=
  model.edges.filter fun e => e.kind = kind ∧ e.target = id

/-- `GetTerminalSourcesByEdgeKind`. -/
def getTerminalSourcesByEdgeKind (kind : EdgeKind) :
    Nat → List Text → Text → Except ParseError (List Text)
  | 0, _, _ => .error .outOfFuel
  | fuel + 1, prevIds, id =>
    if id ∈ prevIds then .error .cyclicLink
    else (model.edgesTo kind id).foldlM (fun sourceIds e => do
      let recurseEdges := kind ≠ .assembly ∨ model.recurseEdges e.source
      let connectedSources ← getTerminalSourcesByEdgeKind kind fuel (id :: prevIds) e.source
      if recurseEdges ∧ connectedSources ≠ [] then
        pure (connectedSources.foldl (fun set s => setInsert s set) sourceIds)
      else pure (setInsert e.source sourceIds)) []

/-- A connection between two ports or delegates. -/
structure AssemblyConnection where
  sourceId : Text
  targetId : Text
  interAssembly : Bool
  deriving DecidableEq, Repr

/-- The nodes that connections end at. -/
def endpointIds : List Text :=
  model.findNodesOfKind .subscriberPortInstance ++ model.findNodesOfKind .replierPortInstance ++
    model.findNodesOfKind .pubSubPortDelegate ++ model.findNodesOfKind .requestPortDelegate

/-- The connections to an endpoint. -/
def connectionsTo (targetId : Text) : Except ParseError (List AssemblyConnection) :=
  (model.getTerminalSources (model.edges.length + 2) [] targetId).map fun sources =>
    sources.map fun sourceId =>
      ⟨sourceId, targetId,
        model.getParentNodeAt sourceId 2 ≠ model.getParentNodeAt targetId 2⟩

/-- What `PreProcess` puts into `assembly_map_`. -/
def assemblyConnections : Except ParseError (List AssemblyConnection) :=
  match model.assemblyDefinitions with
  | some _ => (model.endpointIds.mapM model.connectionsTo).map List.flatten
  | none => .ok []

/-! ## Messages -/

/-- `GetUniqueSuffix`. -/
def getUniqueSuffix (indices : List Nat) : Text := numerals '_' indices

/-- The id of a replica of a port. -/
def portUid (portId : Text) (indices : List Nat) : Text := portId ++ getUniqueSuffix indices

/-- A port of the message, with the ports that it is connected to. -/
structure PortMessage where
  connectedPorts : List Text := []
  connectedExternalPorts : List Text := []

/-- The ports of the message, by the ids of their replicas. -/
structure Messages where
  /-- `port_replicate_id_map_` -/
  ports : Table Text PortMessage := ∅
  /-- `external_port_id_map_`, with the `connected_ports` of the messages -/
  externalPorts : Table Text (List Text) := ∅

/-- The replicas that `ParseComponents` makes messages for. -/
def deployedInstances : List ComponentReplication :=
  model.componentInstances.filter fun r => model.hasContainer r.component.id

/-- `component_replications_`: the indices of the replicas of a component. -/
def componentReplications (componentId : Text) : List (List Nat) :=
  (model.deployedInstances.filter (·.component.id = componentId)).map (·.getReplicationIndices)

/-- The ports of a component that can be connected, in the order of their construction. -/
def portIds (component : Node) : List Text :=
  (component.findImmediateChildren .publisherPortInstance ++
    component.findImmediateChildren .subscriberPortInstance ++
    component.findImmediateChildren .requesterPortInstance ++
    component.findImmediateChildren .replierPortInstance).map (·.id)

/-- The ids of all replicas of ports. -/
def portUids : List Text :=
  model.deployedInstances.flatMap fun r =>
    (portIds r.component).map fun p => portUid p r.getReplicationIndices

/-- The delegates of the model. -/
def delegateIds : List Text :=
  model.findNodesOfKind .pubSubPortDelegate ++ model.findNodesOfKind .requestPortDelegate

/-- The messages when `CalculateReplication` begins. -/
def parsedMessages : Messages where
  ports := model.portUids.foldl (fun t uid => t.insert uid {}) ∅
  externalPorts := match model.assemblyDefinitions with
    | some _ => model.delegateIds.foldl (fun t id => t.insert id []) ∅
    | none => ∅

/-! ## `CalculateReplication` -/

/-- `port->add_connected_ports(id)`. -/
def addConnectedPorts (m : Messages) (uid id : Text) : Messages :=
  match m.ports.lookup uid with
  | some port =>
    let port := { port with connectedPorts := port.connectedPorts ++ [id] }
    { m with ports := m.ports.insert uid port }
  | none => m

/-- An external port is added to the message of a port. -/
def addConnectedExternalPorts (m : Messages) (uid id : Text) : Messages :=
  match m.ports.lookup uid with
  | some port =>
    let port := { port with connectedExternalPorts := port.connectedExternalPorts ++ [id] }
    { m with ports := m.ports.insert uid port }
  | none => m

/-- `external_port->add_connected_ports(id)`. -/
def addExternalConnectedPorts (m : Messages) (portId id : Text) : Messages :=
  match m.externalPorts.lookup portId with
  | some ids => { m with externalPorts := m.externalPorts.insert portId (ids ++ [id]) }
  | none => m

/-- Both ends of a connection, when there is a message for the target. -/
def connectPorts (m : Messages) (sUid tUid : Text) : Messages :=
  if tUid ∈ m.ports then addConnectedPorts (addConnectedPorts m sUid tUid) tUid sUid else m

/-- The loop over the first `n` indices; `none` is an access out of bounds. -/
def nonMatchingParents (source target : List Nat) (n : Nat) : Option Bool :=
  (List.range n).foldlM (fun nonMatching ii =>
    match source[ii]?, target[ii]? with
    | some s, some t => some (nonMatching || s ≠ t)
    | _, _ => none) false

/-- One target of an inter-assembly connection; `none` is a failed assertion or an access out of
bounds. -/
def connectTarget (ac : AssemblyConnection) (sourceIndices : List Nat) (m : Messages)
    (targetIndices : List Nat) : Option Messages :=
  let sharedParentId := model.getSharedParent ac.sourceId ac.targetId
  let sourceHeight := model.getHeightToParent ac.sourceId sharedParentId - 2
  let targetHeight := model.getHeightToParent ac.targetId sharedParentId - 2
  let sourceIndex := (sourceIndices.length : Int) - sourceHeight
  let targetIndex := (targetIndices.length : Int) - targetHeight
  if sourceIndex ≠ targetIndex then none
  else (nonMatchingParents sourceIndices targetIndices sourceIndex.toNat).map fun nonMatching =>
    if nonMatching then m
    else connectPorts m (portUid ac.sourceId sourceIndices) (portUid ac.targetId targetIndices)

/-- One source of a connection from port to port. -/
def connectSource (ac : AssemblyConnection) (targets : List (List Nat)) (m : Messages)
    (sourceIndices : List Nat) : Option Messages :=
  if portUid ac.sourceId sourceIndices ∉ m.ports then some m
  else if ac.interAssembly then targets.foldlM (model.connectTarget ac sourceIndices) m
  else some (connectPorts m (portUid ac.sourceId sourceIndices)
    (portUid ac.targetId sourceIndices))

/-- A connection between two ports, for each pair of their replicas. -/
def connectPortToPort (m : Messages) (ac : AssemblyConnection) : Option Messages :=
  let sources := model.componentReplications (model.getParentNode ac.sourceId)
  let targets := model.componentReplications (model.getParentNode ac.targetId)
  if sources ≠ [] ∧ targets ≠ [] then sources.foldlM (model.connectSource ac targets) m
  else some m

/-- A connection from a delegate, for each replica of the port. -/
def connectDelegateToPort (m : Messages) (ac : AssemblyConnection) : Messages :=
  (model.componentReplications (model.getParentNode ac.targetId)).foldl (fun m indices =>
    let tUid := portUid ac.targetId indices
    if tUid ∈ m.ports then
      addConnectedExternalPorts (addExternalConnectedPorts m ac.sourceId tUid) tUid ac.sourceId
    else m) m

/-- A connection to a delegate, for each replica of the port. -/
def connectPortToDelegate (m : Messages) (ac : AssemblyConnection) : Messages :=
  (model.componentReplications (model.getParentNode ac.sourceId)).foldl (fun m indices =>
    let sUid := portUid ac.sourceId indices
    if sUid ∈ m.ports then
      addExternalConnectedPorts (addConnectedExternalPorts m sUid ac.targetId) ac.targetId sUid
    else m) m

/-- The body of the loop over `assembly_map_`. -/
def connect (m : Messages) (ac : AssemblyConnection) : Option Messages :=
  let isSourceDelegate := decide (ac.sourceId ∈ m.externalPorts)
  let isTargetDelegate := decide (ac.targetId ∈ m.externalPorts)
  match isSourceDelegate, isTargetDelegate with
  | false, false => model.connectPortToPort m ac
  | true, false => some (model.connectDelegateToPort m ac)
  | false, true => some (model.connectPortToDelegate m ac)
  | true, true => some m

/-- `CalculateReplication`, for the connections in the order in which `assembly_map_` has them. -/
def calculateReplication (order : List AssemblyConnection) : Option Messages :=
  order.foldlM model.connect model.parsedMessages

end Model

end Sem.Re

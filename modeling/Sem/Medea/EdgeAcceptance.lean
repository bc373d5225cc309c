import Mathlib.Data.Finset.Card
import Sem.Lib.Run
import Sem.Lib.Table
import Sem.Medea.GraphmlPrinter

/-!
# Accepted edges (`node.cpp`, `entityfactory.cpp`)

A node has the sets of edge kinds that it accepts as the source and as the target. The factory keeps
an index, the nodes for each kind and direction, which a node updates through a signal whenever one of
its sets changes. Temporary nodes are not connected to the factory.

Nodes are the places of their objects. What else the acceptance of an edge depends on (kinds,
definitions, rules, edges) are the `NodeFacts`; any change of the model may change them. The checks
that a subclass of `Node` makes first are among them: its answer, if they end the decision. So is what
the search `indirectlyConnectedTo` finds.
-/

namespace Sem.Medea

/-- `EDGE_DIRECTION`. -/
inductive EdgeDirection
  | source
  | target
  deriving DecidableEq

/-- The kinds that edges ask for, and the others. -/
inductive NodeKind
  | qosDdsProfile
  | deploymentContainer
  | function
  | callbackFnc
  | classInst
  | componentInst
  | model
  | deploymentDefinitions
  | assemblyDefinitions
  | other (kind : Nat)
  deriving DecidableEq

/-- The types that `Node` itself asks for. -/
inductive NodeType
  | definition
  | instance_
  | implementation
  | data
  | hardware
  deriving DecidableEq

/-- `EdgeRule`, the rules that a node may have. -/
inductive EdgeRule
  | allowExternalDefinitions
  | alwaysCheckValidDefinitions
  | allowMultipleImplementations
  | disallowDefinitionChaining
  | allowMultipleDeploymentEdges
  deriving DecidableEq

/-- An edge of the model. -/
structure ModelEdge where
  source : Nat
  destination : Nat
  kind : EdgeKind
  deriving DecidableEq

/-- What the classes of the nodes and their edges say, which no edge kind changes. -/
structure NodeFacts where
  nodeKind : Nat → NodeKind
  isNodeOfType : Nat → NodeType → Bool
  isEdgeRuleActive : Nat → EdgeRule → Bool
  definitionKinds : Nat → List NodeKind
  instanceKinds : Nat → List NodeKind
  implKinds : Nat → List NodeKind
  parentNode : Nat → Option Nat
  definition : Nat → Option Nat
  implementations : Nat → List Nat
  parentNodesForValidDefinition : Nat → List Nat
  indirectlyConnectedTo : Nat → Nat → Bool
  isDataProducer : Nat → Bool
  isDataReceiver : Nat → Bool
  isMultipleDataProducer : Nat → Bool
  isMultipleDataReceiver : Nat → Bool
  edges : List ModelEdge
  subclassCheck : Nat → EdgeKind → Nat → Option Bool

/-- A node, with the sets `accepted_edge_kinds_as_source_` and `accepted_edge_kinds_as_target_`. -/
structure AcceptingNode where
  isTemporary : Bool
  acceptedEdgeKind : EdgeDirection → Finset EdgeKind

/-- The model with the maps `accepted_source_edge_map` and `accepted_target_edge_map`. -/
structure EdgeModel where
  nodes : Table Nat AcceptingNode
  acceptedEdgeMap : EdgeDirection → EdgeKind → Finset Nat
  facts : NodeFacts

/-- The kinds that are registered. -/
def getEdgeKinds : List EdgeKind :=
  [.definition, .aggregate, .assembly, .data, .deployment, .qos, .trigger]

/-! ## Acceptance -/

namespace NodeFacts

variable (f : NodeFacts) (edgeKind : EdgeKind) (n dst : Nat)

/-- `isInstanceImpl`. -/
def isInstanceImpl : Bool := f.isNodeOfType n .instance_ || f.isNodeOfType n .implementation

/-- Whether the node is the source of an edge of the kind. -/
def gotEdgeFrom : Bool := f.edges.any fun e => e.kind = edgeKind ∧ e.source = n

/-- Whether the node is the target of an edge of the kind. -/
def gotEdgeInto : Bool := f.edges.any fun e => e.kind = edgeKind ∧ e.destination = n

/-- An edge of the node that is connected to the other one at either end. -/
def gotEdgeTo : Bool := f.edges.any fun e =>
  e.kind = edgeKind ∧ (e.source = n ∨ e.destination = n) ∧ (e.source = dst ∨ e.destination = dst)

/-- `isValidDefinitionKind`. -/
def isValidDefinitionKind (kind : NodeKind) : Bool :=
  !(f.isEdgeRuleActive n .disallowDefinitionChaining && f.nodeKind n = kind) &&
    (f.definitionKinds n).contains kind

/-- What `canCurrentlyAcceptEdgeKind` asks for a source. -/
def acceptsAsSource : EdgeKind → Bool
  | .definition => f.isInstanceImpl n && (f.definition n).isNone
  | .data => f.isNodeOfType n .data && f.isDataProducer n &&
      (!f.gotEdgeFrom .data n || f.isMultipleDataProducer n)
  | .assembly => true
  | .deployment =>
      f.isEdgeRuleActive n .allowMultipleDeploymentEdges || !f.gotEdgeFrom .deployment n
  | .aggregate => !f.gotEdgeFrom .aggregate n
  | .qos => !f.gotEdgeFrom .qos n
  | .trigger => true
  | .none => false

/-- What `canCurrentlyAcceptEdgeKind` asks for a target. -/
def acceptsAsTarget : EdgeKind → Bool
  | .definition => f.isNodeOfType n .definition
  | .data => f.isNodeOfType n .data && f.isDataReceiver n &&
      (!f.gotEdgeInto .data n || f.isMultipleDataReceiver n)
  | .assembly | .deployment | .aggregate | .qos | .trigger => true
  | .none => false

/-- The case of definition edges in `Node::canAcceptEdge`. -/
def canAcceptDefinition : Bool :=
  f.isValidDefinitionKind n (f.nodeKind dst) &&
  (if f.isNodeOfType n .instance_ then (f.instanceKinds dst).contains (f.nodeKind n)
    else if f.isNodeOfType n .implementation then
      (f.implKinds dst).contains (f.nodeKind n) &&
        ((f.implementations dst).isEmpty || f.isEdgeRuleActive n .allowMultipleImplementations)
    else true) &&
  (if ((f.parentNode n).bind f.definition).isSome ||
        f.isEdgeRuleActive n .alwaysCheckValidDefinitions then
      f.isEdgeRuleActive n .allowExternalDefinitions ||
        (f.parentNodesForValidDefinition n).any fun parent => f.parentNode dst = some parent
    else true) &&
  !(f.isNodeOfType n .definition && f.indirectlyConnectedTo n dst)

/-- The rest of `Node::canAcceptEdge`. -/
def checkEdge : Bool :=
  (match edgeKind with
    | .definition => f.canAcceptDefinition n dst
    | .qos => f.nodeKind dst = .qosDdsProfile
    | .deployment => f.isNodeOfType dst .hardware
    | .trigger => f.nodeKind dst = .deploymentContainer
    | _ => true) &&
  dst ≠ n && !f.gotEdgeTo edgeKind n dst

end NodeFacts

namespace EdgeModel

variable (s : EdgeModel)

/-- `canAcceptEdgeKind`. -/
def canAcceptEdgeKind (edgeKind : EdgeKind) (direction : EdgeDirection) (n : Nat) : Bool :=
  match s.nodes.lookup n with
  | some node => decide (edgeKind ∈ node.acceptedEdgeKind direction)
  | none => false

/-- `canCurrentlyAcceptEdgeKind`: the kind is accepted, and so it is now. -/
def canCurrentlyAcceptEdgeKind (edgeKind : EdgeKind) (direction : EdgeDirection) (n : Nat) :
    Bool :=
  s.canAcceptEdgeKind edgeKind direction n && match direction with
    | .source => s.facts.acceptsAsSource n edgeKind
    | .target => s.facts.acceptsAsTarget n edgeKind

/-- `canAcceptEdge`: both ends have to accept the kind; then the subclass may decide, and otherwise
`Node` does. -/
def canAcceptEdge (edgeKind : EdgeKind) (n dst : Nat) : Bool :=
  s.canCurrentlyAcceptEdgeKind edgeKind .source n &&
  s.canCurrentlyAcceptEdgeKind edgeKind .target dst &&
  (s.facts.subclassCheck n edgeKind dst).getD (s.facts.checkEdge edgeKind n dst)

/-! ## The index -/

/-- `EntityFactory::AcceptedEdgeKindsChanged`. -/
def acceptedEdgeKindsChanged (n : Nat) (node : AcceptingNode) : EdgeModel :=
  { s with acceptedEdgeMap := fun direction edgeKind =>
      if edgeKind ∈ getEdgeKinds then
        if edgeKind ∈ node.acceptedEdgeKind direction then
          insert n (s.acceptedEdgeMap direction edgeKind)
        else (s.acceptedEdgeMap direction edgeKind).erase n
      else s.acceptedEdgeMap direction edgeKind }

/-- The node goes out of the index. -/
def clearAcceptedEdgeKinds (n : Nat) : EdgeModel :=
  { s with acceptedEdgeMap := fun direction edgeKind =>
      if edgeKind ∈ getEdgeKinds then (s.acceptedEdgeMap direction edgeKind).erase n
      else s.acceptedEdgeMap direction edgeKind }

/-- `GetNodesWhichAcceptEdgeKinds`: the index, as it stands. -/
def getNodesWhichAcceptEdgeKinds (edgeKind : EdgeKind) (direction : EdgeDirection) : Finset Nat :=
  s.acceptedEdgeMap direction edgeKind

/-- `Node::setAcceptsEdgeKind`: the signal is emitted if the size of the set changes, and nothing
listens to that of a temporary node. -/
def setAcceptsEdgeKind (n : Nat) (node : AcceptingNode) (edgeKind : EdgeKind)
    (direction : EdgeDirection) (accept : Bool) : EdgeModel :=
  let set := node.acceptedEdgeKind direction
  let set' := if accept then insert edgeKind set else set.erase edgeKind
  let node' := { node with
    acceptedEdgeKind := fun d => if d = direction then set' else node.acceptedEdgeKind d }
  let s' := { s with nodes := s.nodes.insert n node' }
  if set.card ≠ set'.card ∧ node.isTemporary = false then s'.acceptedEdgeKindsChanged n node'
  else s'

end EdgeModel

/-! ## The system -/

/-- What happens to a model. The constructor of a node is `create` and the calls of
`setAcceptsEdgeKind` in it; `change` stands for everything that does not touch the sets. -/
inductive EdgeModelAction
  | create (n : Nat) (isTemporary : Bool)
  | setAcceptsEdgeKind (n : Nat) (edgeKind : EdgeKind) (direction : EdgeDirection) (accept : Bool)
  | registerEntity (n : Nat)
  | destruct (n : Nat)
  | change (facts : NodeFacts)

/-- One call. -/
def edgeModelStep (s : EdgeModel) : EdgeModelAction → Option EdgeModel
  | .create n isTemporary => match s.nodes.lookup n with
    | some _ => none
    | none => some { s with nodes := s.nodes.insert n ⟨isTemporary, fun _ => ∅⟩ }
  | .setAcceptsEdgeKind n edgeKind direction accept => (s.nodes.lookup n).map fun node =>
    s.setAcceptsEdgeKind n node edgeKind direction accept
  | .registerEntity n => (s.nodes.lookup n).bind fun node =>
    if node.isTemporary then none else some (s.acceptedEdgeKindsChanged n node)
  | .destruct n => (s.nodes.lookup n).map fun _ =>
    { s.clearAcceptedEdgeKinds n with nodes := s.nodes.erase n }
  | .change facts => some { s with facts := facts }

/-- The runs of calls, from a model without nodes. -/
def edgeModelSystem (facts : NodeFacts) : Lts EdgeModel EdgeModelAction :=
  Lts.ofFun ⟨∅, fun _ _ => ∅, facts⟩ edgeModelStep

end Sem.Medea

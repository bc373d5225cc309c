import Sem.Medea.EdgeAcceptance
import Sem.Medea.Version
import Mathlib.Logic.Function.Basic

/-!
# Edges of an import (`importGraphML`)

An import resolves the ends and the kind of every edge of the document, and then constructs the edges
kind by kind. Edges that cannot be constructed are tried again as long as others of their kind are;
after that, the kind is taken from the edge, which goes to the queue of its next kind or fails.

The model that the edges go into is a parameter, with what it answers and how it changes. The order
of the edges after `std::sort` is one, too. A dereferenced null pointer is `none`.
-/

namespace Sem.Medea

/-! ## The document -/

/-- The `TempEntity` of a node: its id once it is constructed. -/
structure TempNode where
  id : Option Int
  kind : NodeKind
  parentStack : List NodeKind

/-- The `TempEntity` of an edge. The entities are those that `entity_hash` has for the ids of its
ends; `kind` is `none` where the document has no kind that is registered. -/
structure TempEdge where
  lineNumber : Nat
  sourceEntity : Option TempNode
  targetEntity : Option TempNode
  sourceIDInt : Int
  targetIDInt : Int
  kind : EdgeKind

/-- An edge whose ends are known, with the kinds that it may still become. -/
structure QueuedEdge where
  edge : TempEdge
  sourceID : Int
  targetID : Int
  edgeKinds : List EdgeKind

/-- The model: whether it has a node, whether both ends currently accept a kind, the edge of a kind
that connects two nodes, and what the functions that change it do. -/
structure EdgeHost (W : Type) where
  gotNode : W → Int → Bool
  canCurrentlyAcceptEdgeKinds : W → EdgeKind → Int → Int → Bool
  getEdgeTo : W → EdgeKind → Int → Int → Option Nat
  constructEdge : W → EdgeKind → Int → Int → W × Option Nat
  storeEdge : W → Nat → TempEdge → W
  setData : W → Nat → TempEdge → W

/-- The model, the queues, and the lines of the edges that were constructed, that are edges which
were there, whose failure was reported and whose failure was not. -/
structure EdgeImport (W : Type) where
  world : W
  queues : EdgeKind → List QueuedEdge
  constructed : List Nat
  matched : List Nat
  reported : List Nat
  suppressed : List Nat

/-- `GetEdgeOrderIndexes`; every registered kind is in the order. -/
def getEdgeOrderIndexes : List EdgeKind :=
  [.definition, .aggregate, .data, .qos, .assembly, .deployment, .trigger]

/-! ## Errors that are suppressed -/

/-- `ListInList`: the second list is a part of the first. -/
def listInList (haystack needle : List NodeKind) : Bool := decide (needle <:+: haystack)

/-- Whether the version is valid and older than 3.3.5; `fold` is Qt's case folding. -/
def isOldVersion (fold : Char → Char) (version : List Char) : Bool :=
  (VersionKey.compareVersion fold version "3.3.5".toList).any (· < 0)

/-- `SuppressImportEdgeError`: for an old version it reads the source's entity. -/
def suppressImportEdgeError (oldVersion : Bool) (edge : TempEdge) : Option Bool :=
  if oldVersion then
    edge.sourceEntity.map fun source =>
      decide (source.kind = .function ∨ source.kind = .callbackFnc ∨ source.kind = .classInst) &&
        listInList source.parentStack [.model, .deploymentDefinitions, .assemblyDefinitions] &&
        listInList source.parentStack [.componentInst, .classInst]
  else
    some false

/-! ## Ends and kinds -/

namespace EdgeHost

variable {W : Type} (host : EdgeHost W)

/-- The node at an end: the one that the entity has become, or the one with the id of the document. -/
def findEnd (world : W) (isPartialImport : Bool) (entity : Option TempNode) (idInt : Int) :
    Option Int :=
  match entity.bind (·.id) with
  | some id => if host.gotNode world id then some id else none
  | none => if isPartialImport && host.gotNode world idInt then some idInt else none

/-- `getPotentialEdgeClasses`, in the order in which the kinds are constructed. -/
def getPotentialEdgeClasses (world : W) (source target : Int) : List EdgeKind :=
  getEdgeOrderIndexes.filter fun kind =>
    host.canCurrentlyAcceptEdgeKinds world kind source target

/-- The kinds that are appended to an edge whose ends are found. -/
def edgeKindsOf (world : W) (edge : TempEdge) (source target : Int) : List EdgeKind :=
  if edge.kind ≠ .none then [edge.kind] else host.getPotentialEdgeClasses world source target

/-- The edge with its ends and kinds, if it has them. -/
def resolveEdge (world : W) (isPartialImport : Bool) (edge : TempEdge) : Option QueuedEdge :=
  match host.findEnd world isPartialImport edge.sourceEntity edge.sourceIDInt,
      host.findEnd world isPartialImport edge.targetEntity edge.targetIDInt with
  | some source, some target =>
    if host.edgeKindsOf world edge source target = [] then none
    else some ⟨edge, source, target, host.edgeKindsOf world edge source target⟩
  | _, _ => none

/-- The loop over the edges of the document; the list has the edges that are to be constructed. -/
def resolveEdges (isPartialImport oldVersion : Bool) :
    List TempEdge → EdgeImport W × List QueuedEdge → Option (EdgeImport W × List QueuedEdge)
  | [], acc => some acc
  | edge :: edges, (s, edgesList) =>
    match host.resolveEdge s.world isPartialImport edge with
    | some queued => resolveEdges isPartialImport oldVersion edges (s, edgesList ++ [queued])
    | none => match suppressImportEdgeError oldVersion edge with
      | none => none
      | some true => resolveEdges isPartialImport oldVersion edges
          ({ s with suppressed := s.suppressed ++ [edge.lineNumber] }, edgesList)
      | some false => resolveEdges isPartialImport oldVersion edges
          ({ s with reported := s.reported ++ [edge.lineNumber] }, edgesList)

/-! ## The queues -/

end EdgeHost

namespace EdgeImport

variable {W : Type}

/-- The edge goes to the end of the queue of its kind. -/
def enqueue (s : EdgeImport W) (kind : EdgeKind) (queued : QueuedEdge) : EdgeImport W :=
  { s with queues := Function.update s.queues kind (s.queues kind ++ [queued]) }

/-- An edge goes to the queue of its first kind. -/
def enqueueFirst (s : EdgeImport W) (queued : QueuedEdge) : EdgeImport W :=
  match queued.edgeKinds with
  | kind :: _ => s.enqueue kind queued
  | [] => s

/-- An edge that could not be constructed, after a pass over the queue of the kind. -/
def requeue (kind : EdgeKind) (constructedEdges : Nat) (s : EdgeImport W) (queued : QueuedEdge) :
    EdgeImport W :=
  let queued := if constructedEdges = 0 then
      { queued with edgeKinds := queued.edgeKinds.filter (· ≠ kind) }
    else queued
  match queued.edgeKinds with
  | next :: _ => s.enqueue next queued
  | [] => { s with reported := s.reported ++ [queued.edge.lineNumber] }

end EdgeImport

/-- The state within a pass: how many edges of the queue there are now, and those that there are not. -/
structure EdgePass (W : Type) where
  state : EdgeImport W
  constructedEdges : Nat
  unconstructedEdges : List QueuedEdge

namespace EdgeHost

variable {W : Type} (host : EdgeHost W)

/-- One edge of the queue: an edge that connects its ends already, or a new one. -/
def constructQueued (kind : EdgeKind) (p : EdgePass W) (queued : QueuedEdge) : EdgePass W :=
  let world := p.state.world
  if host.gotNode world queued.sourceID && host.gotNode world queued.targetID then
    match host.getEdgeTo world kind queued.sourceID queued.targetID with
    | some edge =>
      { p with
        state := { p.state with
          world := host.setData world edge queued.edge
          matched := p.state.matched ++ [queued.edge.lineNumber] }
        constructedEdges := p.constructedEdges + 1 }
    | none => match host.constructEdge world kind queued.sourceID queued.targetID with
      | (world, some edge) =>
        { p with
          state := { p.state with
            world := host.setData (host.storeEdge world edge queued.edge) edge queued.edge
            constructed := p.state.constructed ++ [queued.edge.lineNumber] }
          constructedEdges := p.constructedEdges + 1 }
      | (world, none) =>
        { p with
          state := { p.state with world := world }
          unconstructedEdges := p.unconstructedEdges ++ [queued] }
  else
    { p with
      state := { p.state with reported := p.state.reported ++ [queued.edge.lineNumber] }
      unconstructedEdges := p.unconstructedEdges ++ [queued] }

/-- A pass over the queue of the kind. -/
def edgePass (kind : EdgeKind) (s : EdgeImport W) : EdgeImport W :=
  let p := (s.queues kind).foldl (host.constructQueued kind)
    ⟨{ s with queues := Function.update s.queues kind [] }, 0, []⟩
  p.unconstructedEdges.foldl (EdgeImport.requeue kind p.constructedEdges) p.state

/-- The loop: a pass for the first kind that has edges left. -/
def edgeLoop : Nat → EdgeImport W → Option (EdgeImport W)
  | fuel, s => match getEdgeOrderIndexes.find? fun kind => !(s.queues kind).isEmpty with
    | none => some s
    | some kind => match fuel with
      | 0 => none
      | fuel + 1 => edgeLoop fuel (host.edgePass kind s)

/-- The edges of an import. -/
def importEdges (fold : Char → Char) (sort : List QueuedEdge → List QueuedEdge)
    (isPartialImport : Bool) (version : List Char) (fuel : Nat) (world : W)
    (edges : List TempEdge) : Option (EdgeImport W) :=
  match host.resolveEdges isPartialImport (isOldVersion fold version) edges
      (⟨world, fun _ => [], [], [], [], []⟩, []) with
  | none => none
  | some (s, edgesList) =>
    host.edgeLoop fuel ((sort edgesList).foldl EdgeImport.enqueueFirst s)

end EdgeHost

end Sem.Medea

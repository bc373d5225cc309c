import Sem.Lib.Decimal
import Sem.Lib.Substrings
import Sem.Lib.XmlScan
import Sem.Medea.GraphMLImport
import Mathlib.Data.List.Dedup
import Mathlib.Data.List.Sort

/-!
# Writing a GraphML document (`graphmlprinter.cpp`)

`GraphmlPrinter` builds the text of a document from a selection of entities: the keys that are used,
the selected nodes with their data and children, and the edges at these nodes. Data values go
through `SanitizeString`; key names are written as they are.

An exported node carries its data and its children in sibling order (`getChildren(0)` sorts them by
index). `QString::replace` of a one-character pattern replaces that character everywhere.
-/

namespace Sem.Medea

open Lib (replaceChar)
open Xml (Text Token)

/-! ## The exported entities -/

/-- The key types that have a GraphML name of their own; every other type is written as `string`. -/
inductive KeyType
  | bool
  | int
  | longLong
  | double
  | string
  deriving DecidableEq, Repr

/-- `Key::getGraphMLTypeName`. -/
def getGraphMLTypeName : KeyType → Text
  | .bool => "boolean".toList
  | .int => "int".toList
  | .longLong => "long".toList
  | .double => "double".toList
  | .string => "string".toList

/-- `Key`, with its type of GraphML. -/
structure Key where
  id : Nat
  name : Text
  type : KeyType
  deriving DecidableEq, Repr

/-- A datum with `getValue().toString()`. -/
structure Data where
  key : Key
  value : Text
  deriving DecidableEq, Repr

/-- An exported node: its id, its data and its children. -/
inductive Node
  | mk (id : Nat) (datas : List Data) (children : List Node)

/-- `EDGE_KIND`. -/
inductive EdgeKind
  | none
  | definition
  | aggregate
  | deployment
  | data
  | assembly
  | qos
  | trigger
  deriving DecidableEq, Repr

/-- An edge between two nodes, with its data. -/
structure Edge where
  id : Nat
  source : Nat
  target : Nat
  kind : EdgeKind
  datas : List Data
  deriving DecidableEq, Repr

namespace Node

/-- The id of a node. -/
def id : Node → Nat
  | .mk id _ _ => id

/-- The data of a node. -/
def datas : Node → List Data
  | .mk _ datas _ => datas

@[simp] theorem id_mk (id : Nat) (datas : List Data) (children : List Node) :
    (mk id datas children).id = id := rfl

@[simp] theorem datas_mk (id : Nat) (datas : List Data) (children : List Node) :
    (mk id datas children).datas = datas := rfl

mutual

/-- The node and `getAllChildren`, in document order. -/
def all : Node → List Node
  | .mk id datas children => .mk id datas children :: allOf children

/-- Some nodes and all below them, in the order in which they are printed. -/
def allOf : List Node → List Node
  | [] => []
  | n :: ns => n.all ++ allOf ns

end

end Node

/-- An element of a selection. -/
inductive Selected
  | node (n : Node)
  | edge (e : Edge)

/-! ## The printer -/

/-- `GraphmlPrinter::ExportFlags`. -/
structure ExportFlags where
  exportAllEdges : Bool := false
  humanReadableData : Bool := false
  stripVisualData : Bool := false
  deriving DecidableEq, Repr

/-- `SanitizeString`: the ampersand first. -/
def sanitizeString (s : Text) : Text :=
  let s := replaceChar '&' "&amp;".toList s
  let s := replaceChar '>' "&gt;".toList s
  let s := replaceChar '<' "&lt;".toList s
  let s := replaceChar '"' "&quot;".toList s
  replaceChar '\'' "&apos;".toList s

/-- A key whose values may have several lines. -/
def KeyName.processesToLog : Text := "processes_to_log".toList

/-- `IsKeyVisual`. -/
def visualKeyNames : List Text :=
  ["x".toList, "y".toList, "width".toList, "height".toList, "isExpanded".toList]

/-- `QString("\t").repeated(depth)`. -/
def tabs (depth : Nat) : Text := List.replicate depth '\t'

namespace GraphmlPrinter

/-- A key that is not left out. -/
def exportKey (flags : ExportFlags) (key : Key) : Bool :=
  !(flags.stripVisualData && visualKeyNames.contains key.name)

/-- The name of the key or its number. -/
def getKeyID (flags : ExportFlags) (key : Key) : Text :=
  if flags.humanReadableData then key.name else decimal key.id

/-- The line of a key. -/
def keyToGraphml (flags : ExportFlags) (depth : Nat) (key : Key) : Text :=
  if exportKey flags key then
    tabs depth ++ "<key".toList ++
      " attr.name=\"".toList ++ key.name ++ "\"".toList ++
      " attr.type=\"".toList ++ getGraphMLTypeName key.type ++ "\"".toList ++
      " id=\"".toList ++ getKeyID flags key ++ "\"/>\n".toList
  else []

/-- The text of a datum's value. -/
def dataString (data : Data) : Text :=
  if data.key.name = KeyName.processesToLog then
    replaceChar '\n' ",".toList (sanitizeString data.value)
  else sanitizeString data.value

/-- The line of a datum, unless its key is left out. -/
def dataToGraphml (flags : ExportFlags) (depth : Nat) (data : Data) : Text :=
  if exportKey flags data.key then
    tabs depth ++ "<data key=\"".toList ++ getKeyID flags data.key ++ "\">".toList ++
      dataString data ++ "</data>\n".toList
  else []

/-- `getData()` sorted by key id. -/
def sortedData (datas : List Data) : List Data :=
  datas.insertionSort fun a b => a.key.id ≤ b.key.id

/-- The lines of some data, in the order of their keys. -/
def datasToGraphml (flags : ExportFlags) (depth : Nat) (datas : List Data) : Text :=
  (sortedData datas).flatMap (dataToGraphml flags depth)

mutual

/-- A node, with a graph of its children where it has some. -/
def nodeToGraphml (flags : ExportFlags) (depth : Nat) : Node → Text
  | .mk id datas children =>
    tabs depth ++ "<node id=\"".toList ++ decimal id ++ "\">\n".toList ++
      datasToGraphml flags (depth + 1) datas ++
      (if children.isEmpty then [] else
        tabs depth ++ "\t<graph id=\"g".toList ++ decimal id ++ "\">\n".toList ++
          nodesToGraphml flags (depth + 2) children ++
          tabs depth ++ "\t</graph>\n".toList) ++
      tabs depth ++ "</node>\n".toList

/-- Some nodes, one after another. -/
def nodesToGraphml (flags : ExportFlags) (depth : Nat) : List Node → Text
  | [] => []
  | n :: ns => nodeToGraphml flags depth n ++ nodesToGraphml flags depth ns

end

/-- An edge with its data. -/
def edgeToGraphml (flags : ExportFlags) (depth : Nat) (edge : Edge) : Text :=
  tabs depth ++ "<edge id=\"".toList ++ decimal edge.id ++ "\" source=\"".toList ++
    decimal edge.source ++ "\" target=\"".toList ++ decimal edge.target ++ "\">\n".toList ++
    datasToGraphml flags (depth + 1) edge.datas ++
    tabs depth ++ "</edge>\n".toList

/-! ### Documents -/

/-- `top_nodes`, in the order of its iteration. -/
def topNodes (selection : List Selected) : List Node :=
  selection.filterMap fun
    | .node n => some n
    | .edge _ => none

/-- `all_nodes`. -/
def allNodes (selection : List Selected) : List Node := Node.allOf (topNodes selection)

/-- `all_nodes.contains` of the node with the id. -/
def containsNode (selection : List Selected) (id : Nat) : Bool :=
  (allNodes selection).any (·.id = id)

/-- The selected edges and `getAllEdges` of the selected nodes; `model` are the edges there are. -/
def collectEdges (model : List Edge) (selection : List Selected) : List Edge :=
  ((selection.filterMap fun
    | .node _ => none
    | .edge e => some e) ++
    model.filter fun e => containsNode selection e.source || containsNode selection e.target).dedup

/-- The keys of all nodes and edges. -/
def collectKeys (model : List Edge) (selection : List Selected) : List Key :=
  ((allNodes selection).flatMap (fun n => n.datas.map (·.key)) ++
    (collectEdges model selection).flatMap (fun e => e.datas.map (·.key))).dedup

/-- Which edges `ToGraphml` prints, by the ends that are in the selection. -/
def exportEdge (flags : ExportFlags) (selection : List Selected) (edge : Edge) : Bool :=
  if flags.exportAllEdges then true
  else
    let containsSrc := containsNode selection edge.source
    let containsDst := containsNode selection edge.target
    if containsSrc && containsDst then true
    else match edge.kind with
      | .aggregate | .assembly | .deployment => true
      | .definition => containsSrc
      | _ => false

/-- The keys in the order in which they are written. -/
def keyList (model : List Edge) (selection : List Selected) : List Key :=
  (collectKeys model selection).insertionSort fun a b => a.id ≤ b.id

/-- The edges in the order in which they are written: by id, the highest first. -/
def edgeList (flags : ExportFlags) (model : List Edge) (selection : List Selected) : List Edge :=
  ((collectEdges model selection).insertionSort fun a b => b.id ≤ a.id).filter
    (exportEdge flags selection)

/-- The first line of the export. -/
def xmlVersion : Text := "xml version=\"1.0\" encoding=\"UTF-8\"".toList

/-- The namespace of the root element. -/
def graphmlNamespace : Text := "http://graphml.graphdrawing.org/xmlns".toList

/-- The namespace of the schema's attributes. -/
def schemaNamespace : Text := "http://www.w3.org/2001/XMLSchema-instance".toList

/-- The declaration as it is printed. -/
def xmlDeclaration : Text := "<?".toList ++ xmlVersion ++ "?>\n".toList

/-- The start tag of the root element. -/
def graphmlTag : Text :=
  "<graphml xmlns=\"".toList ++ graphmlNamespace ++
    "\" xmlns:xsi=\"".toList ++ schemaNamespace ++
    "\" xsi:schemaLocation=\"".toList ++ graphmlNamespace ++ "\">\n".toList

/-- `ToGraphml`: the keys, the nodes and then the edges of a selection. -/
def toGraphml (flags : ExportFlags) (model : List Edge) (selection : List Selected) : Text :=
  xmlDeclaration ++ graphmlTag ++
    (keyList model selection).flatMap (keyToGraphml flags 1) ++
    "\n\t<graph edgedefault=\"directed\" id=\"g0\">\n".toList ++
    nodesToGraphml flags 2 (topNodes selection) ++
    (edgeList flags model selection).flatMap (edgeToGraphml flags 2) ++
    "\t</graph>\n".toList ++ "</graphml>".toList

end GraphmlPrinter

end Sem.Medea

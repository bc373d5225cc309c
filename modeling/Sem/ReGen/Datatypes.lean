import Sem.ReGen.GeneralFunctions
import Sem.ReGen.Graphml

/-!
# Aggregates and the names of their types (`cdit_functions.xsl`, `idl_functions.xsl`)
-/

namespace Sem.ReGen

open Xml (Text)

/-- The case functions of XPath. -/
structure Cases where
  lower : Text → Text
  upper : Text → Text

/-- The cases of ASCII. -/
def asciiCases : Cases where
  lower s := s.map Char.toLower
  upper s := s.map Char.toUpper

namespace Cases

variable (cases : Cases)

/-- `o:title_case`. -/
def titleCase : Text → Text
  | [] => []
  | c :: s => cases.upper [c] ++ s

end Cases

/-- `cpp:combine_namespaces`. -/
def combineNamespaces (names : List Text) : Text := (lit "::").intercalate (trimList names)

/-- The types of C++ for those of a `Member` (`cpp:get_primitive_type`). -/
def cppPrimitiveType (type : Text) : Text :=
  if type = lit "String" then lit "std::string"
  else if type = lit "Boolean" then lit "bool"
  else if type = lit "Character" then lit "char"
  else if type = lit "FloatNumber" ∨ type = lit "Float" then lit "float"
  else if type = lit "DoubleNumber" ∨ type = lit "LongDoubleNumber" ∨ type = lit "Double" then
    lit "double"
  else if type = lit "LongInteger" ∨ type = lit "Integer" then lit "int"
  else if type = lit "UnsignedLongInteger" then lit "unsigned int"
  else type

/-- `idl:get_type`; there is a warning for other types. -/
def idlType (cppType : Text) : Text :=
  if cppType = lit "std::string" then lit "string"
  else if cppType = lit "int" then lit "long"
  else if cppType = lit "char" then lit "char"
  else if cppType = lit "bool" then lit "boolean"
  else if cppType = lit "double" ∨ cppType = lit "float" then cppType
  else []

namespace Document

variable (cases : Cases) (doc : Document)

/-- A data value of a node. -/
def getDataValue (i : ℕ) (value : Node → Text) : Text := (doc.nodes[i]?.map value).getD []

/-- `graphml:evaluate_data_value_as_boolean`. -/
def evaluateAsBoolean (i : ℕ) (value : Node → Text) : Bool :=
  cases.lower (doc.getDataValue i value) = lit "true"

/-- The definitions of nodes that have one, each once. -/
def getDefinitions (nodes : List ℕ) : List ℕ :=
  ((nodes.filterMap doc.getDefinition).filter (· < doc.nodes.length)).eraseDups

/-- `cdit:get_required_aggregates`: the definitions of the instances in an aggregate, in the order of
the document, without those of instances in these definitions if nested ones are ignored. -/
def getRequiredAggregates (aggregate : ℕ) (ignoreNested : Bool) : List ℕ :=
  let definitions := doc.getDefinitions (doc.getDescendantNodesOfKind aggregate .aggregateInstance)
  let ignored := if ignoreNested then
    doc.getDefinitions (definitions.flatMap (doc.getDescendantNodesOfKind · .aggregateInstance))
    else []
  (List.range doc.nodes.length).filter fun i =>
    i ∈ definitions ∧ i ∉ ignored ∧ doc.kind i = some .aggregate

/-- `cdit:get_required_enums`. -/
def getRequiredEnums (entity : ℕ) : List ℕ :=
  doc.getDefinitions (doc.getDescendantNodesOfKind entity .enumInstance)

/-- `graphml:get_vector_child`. -/
def getVectorChild (vector : ℕ) : Option ℕ :=
  (doc.getDefinition vector).bind fun d => (doc.getChildNodes d).head?

/-- `idl:get_aggregate_qualified_type`. -/
def idlQualifiedType (aggregate : ℕ) : Text :=
  let label := cases.titleCase (doc.getLabel aggregate)
  if [] ∈ doc.getNamespace aggregate then lit "::" ++ label
  else combineNamespaces (doc.getNamespace aggregate ++ [label])

theorem lt_of_mem_getDefinitions {doc : Document} {nodes : List ℕ} {i : ℕ}
    (h : i ∈ doc.getDefinitions nodes) : i < doc.nodes.length := by
  have hmem := (List.mem_filter.mp (List.mem_eraseDups.mp h)).2
  exact of_decide_eq_true hmem

theorem lt_of_mem_getRequiredAggregates {doc : Document} {aggregate i : ℕ} {ignoreNested : Bool}
    (h : i ∈ doc.getRequiredAggregates aggregate ignoreNested) : i < doc.nodes.length :=
  List.mem_range.mp (List.mem_filter.mp h).1

end Document

end Sem.ReGen

import Sem.ReGen.GeneralFunctions
import Sem.ReGen.Graphml

/-!
# Labels and types that the validator accepts (`validate_functions.xsl`)

A test has a list of results; a document passes when none of them is a failure.
-/

namespace Sem.ReGen

open Xml (Text)

/-- `cdit:get_cpp_reserved_words`; two of them end in a blank. -/
def getCppReservedWords : List Text :=
  ["alignas", "alignof", "and", "and_eq", "asm", "atomic_cancel", "atomic_commit",
    "atomic_noexcept", "auto", "bitand", "bitor", "bool", "break", "case", "catch", "char",
    "char16_t", "char32_t", "class", "compl", "concept", "const", "constexpr", "const_cast",
    "continue", "co_await", "co_return", "co_yield", "decltype", "default", "delete", "do",
    "double", "dynamic_cast", "else", "enum", "explicit", "export", "extern", "false", "float",
    "for", "friend", "goto", "if", "import ", "inline", "int", "long", "module ", "mutable",
    "namespace", "new", "noexcept", "not", "not_eq", "nullptr", "operator", "or", "or_eq",
    "private", "protected", "public", "register", "reinterpret_cast", "requires", "return",
    "short", "signed", "sizeof", "static", "static_assert", "static_cast", "struct", "switch",
    "synchronized", "template", "this", "thread_local", "throw", "true", "try", "typedef",
    "typeid", "typename", "union", "unsigned", "using", "virtual", "void", "volatile", "wchar_t",
    "while", "xor", "xor_eq"].map lit

/-- `cdit:get_re_reserved_words`. -/
def getReReservedWords : List Text :=
  ["Aggregate", "Component", "BaseMessage", "Activatable", "Attribute", "ModelLogger", "Worker",
    "SubscriberPort", "PublisherPort"].map lit

/-- The characters that a label must not have; the braces are written by their codes. -/
def invalidCharacters : Text := lit "\\/:*?\"><| ()-=&^%$#@!+.,:;[]\x7b\x7d"

/-- The two results of `cdit:test_invalid_label` for a label. -/
def testInvalidLabel (label : Text) : Bool :=
  label = label.filter (· ∉ invalidCharacters) ∧ label ∉ getReReservedWords ++ getCppReservedWords

namespace Document

variable (lc : LowerCase) (doc : Document)

/-- `cdit:test_unique_types`; the label of an entity is looked for among the types. -/
def testUniqueTypes (entities : List ℕ) : Bool :=
  entities.all fun i =>
    let checkValue := if doc.kind i = some .class_ then doc.getType i else doc.getLabel i
    stringInListCount lc checkValue (entities.map doc.getType) = 1

/-- `cdit:test_unique_labels`. -/
def testUniqueLabels (entities : List ℕ) : Bool :=
  entities.all fun i => stringInListCount lc (doc.getLabel i) (entities.map doc.getLabel) = 1

/-- `cdit:test_namespace_collisions`, for instances of aggregates. The namespace is a sequence,
which is equal to the empty text if one of its labels is. -/
def testNamespaceCollisions (aggregates : List ℕ) : Bool :=
  aggregates.all fun a =>
    (doc.getDescendantNodesOfKind a .aggregateInstance).all fun i =>
      (doc.getDefinition i).all fun d =>
        ¬ (1 < stringInListCount lc (doc.getLabel d) (aggregates.map doc.getLabel) ∧
          [] ∈ doc.getNamespace d)

/-- The tests of labels and types of `cdit:aggregate_tests` and `cdit:component_tests`. -/
def labelTests : Bool :=
  let aggregates := doc.getNodesOfKind .aggregate
  let components := doc.getNodesOfKind .component
  let classes := (doc.getNodesOfKind .behaviourDefinitions).flatMap
    (doc.getDescendantNodesOfKind · .class_)
  let vectors := doc.getNodesOfKind .vector ++ doc.getNodesOfKind .vectorInstance
  doc.testNamespaceCollisions lc aggregates &&
    (aggregates ++ aggregates.flatMap doc.getDescendantNodes).all
      (fun i => testInvalidLabel (doc.getLabel i)) &&
    (doc.getNodesOfKind .enum).all (fun i => testInvalidLabel (doc.getLabel i)) &&
    aggregates.all (fun i => doc.testUniqueLabels lc (i :: doc.getChildNodes i)) &&
    vectors.all (fun i => doc.testUniqueLabels lc (i :: doc.getChildNodes i)) &&
    doc.testUniqueTypes lc (aggregates ++ components ++ classes) &&
    (aggregates ++ classes ++ components).all (fun i => testInvalidLabel (doc.getLabel i))

end Document

end Sem.ReGen

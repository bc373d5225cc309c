import Sem.Lib.Xml
import Mathlib.Data.List.Sort
import Mathlib.Data.List.Basic

/-!
# GraphML documents, as the code generator reads them (`graphml_functions.xsl`)

The nodes of a document are in document order, so that a node comes after its parent. A node is
named by its position.

* `getAncestorNodes_eq`: the ancestors of a node are its parent's and its parent.
* `getDefinition_of_getTargets_nil`, `getDefinition_of_getTargets`: definitions, one edge at a time.
-/

namespace Sem.ReGen

open Xml (Text)

/-- The kinds of nodes, as far as they are told apart. -/
inductive NodeKind
  | model
  | namespace_
  | aggregate
  | aggregateInstance
  | member
  | enum
  | enumInstance
  | vector
  | vectorInstance
  | serverInterface
  | component
  | componentImpl
  | componentInstance
  | behaviourDefinitions
  | class_
  | publisherPort
  | subscriberPort
  | requesterPort
  | replierPort
  | publisherPortInstance
  | subscriberPortInstance
  | requesterPortInstance
  | replierPortInstance
  | other
  deriving DecidableEq, Repr

/-- The kinds of edges, as far as they are told apart. -/
inductive EdgeKind
  | definition
  | aggregate
  | other
  deriving DecidableEq, Repr

/-- A `node` element with its data; data that is not there is empty. -/
structure Node where
  kind : NodeKind
  parent : Option ℕ := none
  index : ℤ := 0
  label : Text := []
  type : Text := []
  middleware : Text := []
  isUnion : Text := []
  primitiveType : Text := []
  isArray : Text := []
  arraySize : Text := []
  sequenceSize : Text := []
  deriving DecidableEq, Repr

/-- An edge between two nodes, by their positions. -/
structure Edge where
  kind : EdgeKind
  source : ℕ
  target : ℕ
  deriving DecidableEq, Repr

/-- The nodes and the edges of a document. -/
structure Document where
  nodes : List Node
  edges : List Edge
  /-- A node is inside its parent. -/
  parent_lt : ∀ p ∈ nodes.zipIdx, ∀ parent ∈ p.1.parent, parent < p.2

namespace Document

variable (doc : Document)

/-- `graphml:get_kind`. -/
def kind (i : ℕ) : Option NodeKind := doc.nodes[i]?.map (·.kind)

/-- The nodes of a kind in the whole document. -/
def getNodesOfKind (kind : NodeKind) : List ℕ :=
  (List.range doc.nodes.length).filter (doc.kind · = some kind)

/-- `graphml:get_label`. -/
def getLabel (i : ℕ) : Text := (doc.nodes[i]?.map (·.label)).getD []

/-- `graphml:get_type`. -/
def getType (i : ℕ) : Text := (doc.nodes[i]?.map (·.type)).getD []

/-- The `middleware` of a port. -/
def getMiddlewareData (i : ℕ) : Text := (doc.nodes[i]?.map (·.middleware)).getD []

/-- `graphml:get_parent_node`. -/
def getParentNode (i : ℕ) : Option ℕ := doc.nodes[i]?.bind (·.parent)

/-- The children, by their `index`. -/
def getChildNodes (i : ℕ) : List ℕ :=
  ((List.range doc.nodes.length).filter (doc.getParentNode · = some i)).insertionSort
    fun j k => (doc.nodes[j]?.map (·.index)).getD 0 ≤ (doc.nodes[k]?.map (·.index)).getD 0

/-- The ancestors of a node, the top-most first, up to so many of them. -/
def ancestorsUpTo : ℕ → ℕ → List ℕ
  | 0, _ => []
  | n + 1, i =>
    match doc.getParentNode i with
    | some p => ancestorsUpTo n p ++ [p]
    | none => []

/-- A node has no more ancestors than nodes before it. -/
def getAncestorNodes (i : ℕ) : List ℕ := doc.ancestorsUpTo i i

/-- `graphml:get_descendant_nodes`, in document order. -/
def getDescendantNodes (i : ℕ) : List ℕ :=
  (List.range doc.nodes.length).filter fun j => i ∈ doc.getAncestorNodes j

/-- `graphml:get_descendant_nodes_of_kind`. -/
def getDescendantNodesOfKind (i : ℕ) (kind : NodeKind) : List ℕ :=
  (doc.getDescendantNodes i).filter (doc.kind · = some kind)

/-- `graphml:get_targets`, of the edges of a kind. -/
def getTargets (i : ℕ) (kind : EdgeKind) : List ℕ :=
  (doc.edges.filter fun e => e.kind = kind ∧ e.source = i).map (·.target)

/-- The definitions of a node at the end of its chains of definitions, up to a length. -/
def definitionsUpTo : ℕ → ℕ → List ℕ
  | 0, _ => []
  | n + 1, i =>
    match doc.getTargets i .definition with
    | [] => [i]
    | targets => targets.flatMap (definitionsUpTo n)

/-- The definition of a node, or the node itself; it is an error to have more than one. No chain of
definitions is longer than there are edges. -/
def getDefinition (i : ℕ) : Option ℕ :=
  match doc.definitionsUpTo (doc.edges.length + 1) i with
  | [d] => some d
  | _ => none

/-- The labels of the namespaces around the definition of a node, the outermost first. -/
def getNamespace (i : ℕ) : List Text :=
  match doc.getDefinition i with
  | some d =>
    ((doc.getAncestorNodes d).filter (doc.kind · = some .namespace_)).map doc.getLabel
  | none => []

/-- The only aggregate, or server interface, of the definition of a port. -/
def getPortAggregate (port : ℕ) : Option ℕ :=
  match doc.getDefinition port with
  | some d =>
    match doc.getTargets d .aggregate with
    | [a] => some a
    | _ => none
  | none => none

/-! ## Ancestors and definitions -/

variable {doc} {i p d : ℕ}

theorem mem_getNodesOfKind {kind : NodeKind} (h : doc.kind i = some kind) :
    i ∈ doc.getNodesOfKind kind := by
  obtain ⟨n, hn, -⟩ := Option.map_eq_some_iff.mp h
  obtain ⟨hlt, -⟩ := List.getElem?_eq_some_iff.mp hn
  exact List.mem_filter.mpr ⟨List.mem_range.mpr hlt, by simpa using h⟩

theorem lt_of_getParentNode (h : doc.getParentNode i = some p) : p < i := by
  obtain ⟨n, hn, hp⟩ := Option.bind_eq_some_iff.mp h
  refine doc.parent_lt (n, i) ?_ p hp
  rw [List.mem_zipIdx_iff_getElem?]
  exact hn

theorem ancestorsUpTo_of_le {n : ℕ} (h : i ≤ n) :
    doc.ancestorsUpTo n i = doc.getAncestorNodes i := by
  suffices hmore : ∀ n m i, i ≤ n → i ≤ m → doc.ancestorsUpTo n i = doc.ancestorsUpTo m i from
    hmore n i i h (Nat.le_refl i)
  intro n
  induction n with
  | zero =>
    intro m i hn _
    obtain rfl : i = 0 := by omega
    have hnone : doc.getParentNode 0 = none := by
      cases hp : doc.getParentNode 0 with
      | none => rfl
      | some p => exact absurd (lt_of_getParentNode hp) (by omega)
    cases m <;> simp [ancestorsUpTo, hnone]
  | succ n ih =>
    intro m i hn hm
    cases hp : doc.getParentNode i with
    | none => cases m <;> simp [ancestorsUpTo, hp]
    | some p =>
      have hlt := lt_of_getParentNode hp
      obtain ⟨m, rfl⟩ : ∃ k, m = k + 1 := ⟨m - 1, by omega⟩
      simp only [ancestorsUpTo, hp, ih m p (by omega) (by omega)]

/-- The ancestors of a node are those of its parent, and its parent. -/
theorem getAncestorNodes_eq (i : ℕ) : doc.getAncestorNodes i =
    match doc.getParentNode i with
    | some p => doc.getAncestorNodes p ++ [p]
    | none => [] := by
  rw [← ancestorsUpTo_of_le (Nat.le_succ i), ancestorsUpTo]
  cases hp : doc.getParentNode i with
  | none => rfl
  | some p => simp only [ancestorsUpTo_of_le (Nat.le_of_lt (lt_of_getParentNode hp))]

theorem getDefinition_of_getTargets_nil (h : doc.getTargets i .definition = []) :
    doc.getDefinition i = some i := by
  simp [getDefinition, definitionsUpTo, h]

theorem getDefinition_of_getTargets (hi : doc.getTargets i .definition = [d])
    (hd : doc.getTargets d .definition = []) : doc.getDefinition i = some d := by
  obtain ⟨n, hn⟩ : ∃ n, doc.edges.length = n + 1 := by
    refine ⟨doc.edges.length - 1, ?_⟩
    have hpos : 0 < doc.edges.length := by
      rw [List.length_pos_iff]
      rintro hnil
      simp [getTargets, hnil] at hi
    omega
  simp [getDefinition, hn, definitionsUpTo, hi, hd]

end Document

end Sem.ReGen

import Sem.ReGen.GmlFunctions

/-!
# The order of the children of a kind (`graphml:get_child_nodes_of_kind`)

The children are sorted by their index, and one more step of the path to their data and back puts
them into document order again.

* `childOrder_iff`: they come by their index exactly where the children of those kinds
  stand in the file in that order.
-/

namespace Sem.ReGen.Gml

open Xml (Text)

namespace Document

variable (doc : Document)

/-- The children of the kinds, as `graphml:get_child_nodes` orders them. -/
def childrenByIndex (node : ℕ) (kinds : List Text) : Option (List ℕ) :=
  (doc.getChildNodes [node]).map (·.filter (doc.hasKind kinds))

/-- The children of the kinds stand in the file by their index, or some child has none. -/
def StoredByIndex (node : ℕ) (kinds : List Text) : Prop :=
  (∃ i ∈ doc.childrenOf [node], doc.getIndex i = none) ∨
    ((doc.childrenOf [node]).filter (doc.hasKind kinds)).Pairwise doc.indexLe

/-- The members of an enumeration with their numbers, by `cdit:get_enum_proto_file`. -/
def enumProtoValues (enum : ℕ) : Option (List (ℕ × ℕ)) :=
  (doc.getChildNodesOfKind [enum] [lit "EnumMember"]).map List.zipIdx

/-- A sequence of three, taken apart. -/
def three : Option (List ℕ) → Option (ℕ × ℕ × ℕ)
  | some [a, b, c] => some (a, b, c)
  | _ => none

/-- The operands of a setter and the operator between them, by `cdit:generate_setter_code`. -/
def setterInputs (setter : ℕ) : Option (ℕ × ℕ × ℕ) :=
  three (doc.getChildNodesOfKind [setter] [lit "InputParameter"])

variable {doc} {node i : ℕ} {kinds : List Text}

instance : Std.Total doc.indexLe := ⟨fun _ _ => le_total _ _⟩

instance : IsTrans ℕ doc.indexLe := ⟨fun _ _ _ => le_trans⟩

/-- A node with data of one kind, in one text, has the kinds among which that one is. -/
theorem hasKind_iff_getKind_mem {d t : ℕ} (hdata : doc.dataStep [i] (lit "kind") = [d])
    (htext : doc.childStep [d] doc.isText = [t]) :
    doc.hasKind kinds i = true ↔ doc.getKind i ∈ kinds := by
  have hkind : doc.getKind i = doc.textOf t := by
    rw [getKind, getDataValue, hdata, htext]
    simp [valueOf]
  have hsub : ∀ e, e ∈ doc.childStep [i] (doc.isDataOfKind kinds) ↔
      e ∈ doc.dataStep [i] (lit "kind") ∧
        (doc.childStep [e] doc.isText).any (doc.textOf · ∈ kinds) = true := by
    intro e
    rw [dataStep, XPath.Document.mem_childStep, XPath.Document.mem_childStep, isDataOfKind,
      Bool.and_eq_true (_ && _)]
    tauto
  rw [hasKind, Bool.not_eq_true', List.isEmpty_eq_false_iff_exists_mem, hkind]
  simp [hsub, hdata, htext]

theorem getChildNodesOfKind_eq_iff :
    doc.getChildNodesOfKind [node] kinds = doc.childrenByIndex node kinds ↔
      doc.StoredByIndex node kinds := by
  rw [getChildNodesOfKind_eq, childrenByIndex, getChildNodes, StoredByIndex]
  split
  · next hall =>
    have hsome : ¬ ∃ i ∈ doc.childrenOf [node], doc.getIndex i = none := by
      rintro ⟨i, hi, hnone⟩
      simpa [hnone] using List.all_eq_true.mp hall i hi
    rw [Option.map_some, Option.some_inj, XPath.filter_insertionSort_eq_iff]
    exact (or_iff_right hsome).symm
  · next hall =>
    have hnone : ∃ i ∈ doc.childrenOf [node], doc.getIndex i = none := by
      simpa using hall
    exact iff_of_true rfl (.inl hnone)

theorem map_zipIdx_inj {l l' : Option (List ℕ)} :
    l.map List.zipIdx = l'.map List.zipIdx ↔ l = l' := by
  refine (Option.map_injective fun l l' h => ?_).eq_iff
  simpa using congrArg (List.map Prod.fst) h

theorem three_inj {l l' : List ℕ} (h : l.length = l'.length) :
    three (some l) = three (some l') ↔ l.length ≠ 3 ∨ l = l' := by
  match l, l' with
  | [a, b, c], [a', b', c'] => simp [three]
  | [], [] | [_], [_] | [_, _], [_, _] => simp [three]
  | _ :: _ :: _ :: _ :: _, _ :: _ :: _ :: _ :: _ => simp [three]

theorem setterInputs_eq_iff : doc.setterInputs node =
      three (doc.childrenByIndex node [lit "InputParameter"]) ↔
    ((doc.childrenOf [node]).filter (doc.hasKind [lit "InputParameter"])).length ≠ 3 ∨
      doc.StoredByIndex node [lit "InputParameter"] := by
  rw [setterInputs, ← getChildNodesOfKind_eq_iff, getChildNodesOfKind_eq, childrenByIndex,
    getChildNodes]
  split
  · rw [Option.map_some, three_inj, Option.some_inj]
    exact ((List.perm_insertionSort doc.indexLe _).filter _).length_eq.symm
  · exact iff_of_true rfl (.inr rfl)

/-- Children, members of an enumeration and inputs of a setter come by their index exactly where
the file has them in that order; other than three inputs are no matter. -/
theorem childOrder_iff (doc : Document) (node : ℕ) :
    (∀ kinds, doc.getChildNodesOfKind [node] kinds = doc.childrenByIndex node kinds ↔
      doc.StoredByIndex node kinds) ∧
    (doc.enumProtoValues node = (doc.childrenByIndex node [lit "EnumMember"]).map List.zipIdx ↔
      doc.StoredByIndex node [lit "EnumMember"]) ∧
    (doc.setterInputs node = three (doc.childrenByIndex node [lit "InputParameter"]) ↔
      ((doc.childrenOf [node]).filter (doc.hasKind [lit "InputParameter"])).length ≠ 3 ∨
        doc.StoredByIndex node [lit "InputParameter"]) := by
  refine ⟨fun kinds => getChildNodesOfKind_eq_iff, ?_, setterInputs_eq_iff⟩
  rw [enumProtoValues, map_zipIdx_inj, getChildNodesOfKind_eq_iff]

end Document

/-! ## A setter whose inputs are stored out of order -/

/-- The first input in the file is the third by its index. -/
def swappedInputs : Document where
  nodes := [
    ⟨none, .element .graphml []⟩,
    ⟨some 0, .element .key [(.id, lit "d0"), (.attrName, lit "kind")]⟩,
    ⟨some 0, .element .key [(.id, lit "d1"), (.attrName, lit "index")]⟩,
    ⟨some 0, .element .graph []⟩,
    ⟨some 3, .element .node [(.id, lit "n0")]⟩,
    ⟨some 4, .element .graph []⟩,
    ⟨some 5, .element .node [(.id, lit "n1")]⟩,
    ⟨some 6, .element .data [(.key, lit "d0")]⟩,
    ⟨some 7, .text (lit "InputParameter")⟩,
    ⟨some 6, .element .data [(.key, lit "d1")]⟩,
    ⟨some 9, .text (lit "2")⟩,
    ⟨some 5, .element .node [(.id, lit "n2")]⟩,
    ⟨some 11, .element .data [(.key, lit "d0")]⟩,
    ⟨some 12, .text (lit "InputParameter")⟩,
    ⟨some 11, .element .data [(.key, lit "d1")]⟩,
    ⟨some 14, .text (lit "1")⟩,
    ⟨some 5, .element .node [(.id, lit "n3")]⟩,
    ⟨some 16, .element .data [(.key, lit "d0")]⟩,
    ⟨some 17, .text (lit "InputParameter")⟩,
    ⟨some 16, .element .data [(.key, lit "d1")]⟩,
    ⟨some 19, .text (lit "0")⟩]
  parent_lt := by decide
  ids_nodup := by decide
  nodes_nested := by decide

example : swappedInputs.setterInputs 4 = some (6, 11, 16) := by decide +kernel

theorem not_childOrder : ¬ ∀ (doc : Document) (node : ℕ) (kinds : List Text),
    doc.getChildNodesOfKind [node] kinds = doc.childrenByIndex node kinds := by
  intro h
  have hsetter := h swappedInputs 4 [lit "InputParameter"]
  revert hsetter
  decide +kernel

end Sem.ReGen.Gml

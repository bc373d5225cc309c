import Sem.Lib.Fuel
import Sem.ReGen.GmlFunctions

/-!
# Nodes that are compared by their texts

`=` and `!=` compare what nodes contain as text, so two different nodes with the same text are one
to `graphml:is_descendant_of` and to the test of the aggregates of ports.

* `compares_iff`: where each of the comparisons is that of the nodes themselves.
* `getAncestorNodesUntil_eq_of_ownText`: no ancestor is taken for a descendant of another one that
  has text of its own.
-/

namespace Sem.ReGen.Gml

open Xml (Text)

namespace Document

variable (doc : Document)

/-- `cdit:test_eventport_aggregates` for a port that publishes or subscribes. -/
def testPubsubPort (depth port : ℕ) : Option (List Result) :=
  let result (result : Bool) (error : List Text) : Result :=
    ⟨doc.getId port, result, joinList error ' ', false⟩
  let label := wrapQuote (doc.getLabel port)
  (doc.getChildNodes [port]).bind fun aggregates =>
    match aggregates, doc.getTargets port (lit "Edge_Aggregate") with
    | [aggregate], [linked] =>
      (doc.getDefinition depth aggregate).map fun aggregateDef =>
        [result (doc.generalEq [aggregateDef] [linked]) [lit "Port", label,
          lit "is connected to an Aggregate different to the AggregateInstance it contains"]]
    | _, [] => some [result false
        [lit "PubSub Port", label, lit "is not connected (Edge_Aggregate) to an Aggregate"]]
    | [], _ => some [result false
        [lit "PubSub Port", label, lit "does not contain an instance of an Aggregate"]]
    | _, _ => some []

/-- `cdit:test_eventport_aggregates` for a port that requests or replies. -/
def testReqrepPort (port : ℕ) : Result :=
  ⟨doc.getId port, (doc.getTargets port (lit "Edge_Aggregate")).length = 1,
    joinList [lit "ReqRep Port", wrapQuote (doc.getLabel port),
      lit "is not connected (Edge_Aggregate) to a ServerInterface"] ' ', false⟩

/-- `cdit:test_eventport_aggregates` for a port instance: the port and its definition are compared
as texts. -/
def testPortInstance (depth port : ℕ) : Option Result :=
  (doc.getDefinition depth port).map fun definition =>
    ⟨doc.getId port, doc.stringValue definition ≠ doc.stringValue port,
      joinList [lit "Port", wrapQuote (doc.getLabel port),
        lit "is not linked correctly to a Definition"] ' ', false⟩

/-- `cdit:test_eventport_aggregates`, or an error. -/
def testEventportAggregates (depth : ℕ) (components : List ℕ) : Option (List Result) :=
  (components.mapM fun component => do
    let ofKind := fun kinds => doc.getDescendantNodesOfKind [component] kinds
    let pubsub ←
      (ofKind [lit "SubscriberPort", lit "PublisherPort"]).mapM (doc.testPubsubPort depth)
    let reqrep := (ofKind [lit "RequesterPort", lit "ReplierPort"]).map doc.testReqrepPort
    let instances ← (ofKind [lit "SubscriberPortImpl", lit "SubscriberPortInstance",
        lit "PublisherPortImpl", lit "PublisherPortInstance"] ++
      ofKind [lit "RequesterPortImpl", lit "RequesterPortInstance", lit "ReplierPortImpl",
        lit "ReplierPortImpl"]).mapM (doc.testPortInstance depth)
    some (pubsub.flatten ++ reqrep ++ instances)).map List.flatten

/-! ## What the comparisons are for -/

/-- The nodes between a node and one above it, from the top down. -/
def ancestorsBetween (entity topAncestor : ℕ) : List ℕ :=
  (doc.getAncestorNodes entity).filter (topAncestor ∈ doc.ancestors ·)

/-- The port's only child is an instance of the only aggregate that the port is linked to. -/
def LinkedToOwn (depth port : ℕ) : Prop :=
  ∃ aggregate linked, doc.getChildNodes [port] = some [aggregate] ∧
    doc.getTargets port (lit "Edge_Aggregate") = [linked] ∧
    doc.getDefinition depth aggregate = some linked

/-- One of the results is a pass. -/
def ReportsRight (results : List Result) : Prop := ∃ r ∈ results, r.result = true

/-- Where nodes are compared, it is the nodes that are compared. -/
def ComparesNodes : Prop :=
  (∀ node₁ node₂, doc.isNode node₁ = true →
    (doc.isDescendantOf node₁ node₂ = true ↔ node₂ ∈ doc.ancestors node₁)) ∧
  (∀ entity topAncestor,
    doc.getAncestorNodesUntil entity topAncestor = doc.ancestorsBetween entity topAncestor) ∧
  ∀ depth port results, doc.testPubsubPort depth port = some results →
    (ReportsRight results ↔ doc.LinkedToOwn depth port)

/-- Some node in another one has the same text as this one. -/
def TextWithin (topAncestor node : ℕ) : Prop :=
  ∃ d ∈ doc.getDescendantNodes [topAncestor], doc.stringValue node = doc.stringValue d

/-- A node has text that is in none of the nodes in it. -/
def OwnText (node : ℕ) : Prop :=
  ∃ t, node ∈ doc.ancestors t ∧ doc.textOf t ≠ [] ∧
    ∀ d ∈ doc.getDescendantNodes [node], t ≠ d ∧ d ∉ doc.ancestors t

variable {doc} {depth port i t x : ℕ} {results : List Result}

theorem isDescendantOf_iff_mem_iff (hi : doc.isNode i = true) :
    (doc.isDescendantOf i t = true ↔ t ∈ doc.ancestors i) ↔
      (t ∈ doc.ancestors i ∨ ¬ doc.TextWithin t i) := by
  have htext : doc.isDescendantOf i t = true ↔ doc.TextWithin t i := isDescendantOf_iff
  rw [← htext]
  have hsub : t ∈ doc.ancestors i → doc.isDescendantOf i t = true := isDescendantOf_of_mem hi
  tauto

theorem getAncestorNodesUntil_eq_iff (i t : ℕ) :
    doc.getAncestorNodesUntil i t = doc.ancestorsBetween i t ↔
      ∀ x ∈ doc.getAncestorNodes i, t ∈ doc.ancestors x ∨ ¬ doc.TextWithin t x := by
  rw [getAncestorNodesUntil, ancestorsBetween, XPath.filter_eq_filter_iff]
  refine forall₂_congr fun x hx => ?_
  rw [← isDescendantOf_iff_mem_iff (isNode_of_mem_getAncestorNodes hx), Bool.eq_iff_iff,
    decide_eq_true_iff]

/-- The chain between is found under a node with text of its own, from anywhere in it. -/
theorem getAncestorNodesUntil_eq_of_ownText (ht : t ∈ doc.getAncestorNodes i)
    (hown : doc.OwnText t) : doc.getAncestorNodesUntil i t = doc.ancestorsBetween i t := by
  refine (getAncestorNodesUntil_eq_iff i t).mpr fun x hx => ?_
  by_cases hin : t ∈ doc.ancestors x
  · exact .inl hin
  -- The ancestor is the top itself or above it, and has more text than anything in the top.
  refine .inr ?_
  rintro ⟨d, hd, heq⟩
  obtain ⟨k, htk, hne, hout⟩ := hown
  obtain ⟨hkd, hdk⟩ := hout d hd
  have htd := (mem_getDescendantNodes.mp hd).2
  have hxt : t = x ∨ x ∈ doc.ancestors t := by
    rcases XPath.Document.mem_ancestors_or (mem_ancestors_of_mem_getAncestorNodes ht)
      (mem_ancestors_of_mem_getAncestorNodes hx) with h | h | h
    · exact .inl h
    · exact absurd h hin
    · exact .inr h
  have hxd : x ∈ doc.ancestors d := by
    rcases hxt with rfl | hxt
    · exact htd
    · exact XPath.Document.mem_ancestors_trans htd hxt
  have hxk : x ∈ doc.ancestors k := by
    rcases hxt with rfl | hxt
    · exact htk
    · exact XPath.Document.mem_ancestors_trans htk hxt
  exact absurd (congrArg List.length heq)
    (Nat.ne_of_gt (XPath.Document.stringValue_length_lt (.inr hxd) hxk hkd hdk hne))

theorem reportsRight_iff (h : doc.testPubsubPort depth port = some results) :
    ReportsRight results ↔ ∃ aggregate linked d, doc.getChildNodes [port] = some [aggregate] ∧
      doc.getTargets port (lit "Edge_Aggregate") = [linked] ∧
      doc.getDefinition depth aggregate = some d ∧ doc.stringValue d = doc.stringValue linked := by
  obtain ⟨aggregates, haggregates, h⟩ := Option.bind_eq_some_iff.mp h
  rw [haggregates]
  split at h
  · next aggregate linked hlinked =>
    obtain ⟨d, hd, rfl⟩ := Option.map_eq_some_iff.mp h
    simp [ReportsRight, XPath.Document.generalEq, hlinked, hd]
  · next hlinked =>
    cases h
    simp [ReportsRight, hlinked]
  · cases h
    simp [ReportsRight]
  · next hother =>
    cases h
    refine iff_of_false (by simp [ReportsRight]) ?_
    rintro ⟨aggregate, linked, d, h₁, h₂, -⟩
    exact hother aggregate linked (Option.some.inj h₁) h₂

theorem reportsRight_iff_linkedToOwn_iff (h : doc.testPubsubPort depth port = some results) :
    (ReportsRight results ↔ doc.LinkedToOwn depth port) ↔
      ∀ aggregate linked d, doc.getChildNodes [port] = some [aggregate] →
        doc.getTargets port (lit "Edge_Aggregate") = [linked] →
        doc.getDefinition depth aggregate = some d →
        d = linked ∨ doc.stringValue d ≠ doc.stringValue linked := by
  rw [reportsRight_iff h]
  constructor
  · intro hright aggregate linked d h₁ h₂ h₃
    by_cases heq : doc.stringValue d = doc.stringValue linked
    · obtain ⟨_, _, h₁', h₂', h₃'⟩ := hright.mp ⟨aggregate, linked, d, h₁, h₂, h₃, heq⟩
      grind
    · exact .inr heq
  · intro hright
    constructor
    · rintro ⟨aggregate, linked, d, h₁, h₂, h₃, heq⟩
      rcases hright aggregate linked d h₁ h₂ h₃ with rfl | hne
      · exact ⟨aggregate, d, h₁, h₂, h₃⟩
      · exact absurd heq hne
    · rintro ⟨aggregate, linked, h₁, h₂, h₃⟩
      exact ⟨aggregate, linked, linked, h₁, h₂, h₃, rfl⟩

/-- The results of each port are among those of the test. -/
theorem exists_testPubsubPort {components : List ℕ} {component : ℕ}
    (h : doc.testEventportAggregates depth components = some results)
    (hcomponent : component ∈ components)
    (hport : port ∈
      doc.getDescendantNodesOfKind [component] [lit "SubscriberPort", lit "PublisherPort"]) :
    ∃ ports, doc.testPubsubPort depth port = some ports ∧ ports ⊆ results := by
  obtain ⟨lists, hlists, rfl⟩ := Option.map_eq_some_iff.mp h
  obtain ⟨list, hlist, hresults⟩ := exists_image_of_mapM hlists hcomponent
  obtain ⟨pubsub, hpubsub, hrest⟩ := Option.bind_eq_some_iff.mp hresults
  obtain ⟨instances, -, heq⟩ := Option.bind_eq_some_iff.mp hrest
  obtain ⟨ports, hports, hresult⟩ := exists_image_of_mapM hpubsub hport
  refine ⟨ports, hresult, fun r hr => List.mem_flatten.mpr ⟨list, hlist, ?_⟩⟩
  rw [← Option.some.inj heq]
  exact List.mem_append_left _ (List.mem_append_left _ (List.mem_flatten_of_mem hports hr))

/-- Each comparison is that of the nodes exactly where no other node with the same text comes into
it. -/
theorem compares_iff (doc : Document) :
    (∀ node₁ node₂, doc.isNode node₁ = true →
      ((doc.isDescendantOf node₁ node₂ = true ↔ node₂ ∈ doc.ancestors node₁) ↔
        (node₂ ∈ doc.ancestors node₁ ∨ ¬ doc.TextWithin node₂ node₁))) ∧
    (∀ entity topAncestor,
      doc.getAncestorNodesUntil entity topAncestor = doc.ancestorsBetween entity topAncestor ↔
        ∀ x ∈ doc.getAncestorNodes entity,
          topAncestor ∈ doc.ancestors x ∨ ¬ doc.TextWithin topAncestor x) ∧
    ∀ depth port results, doc.testPubsubPort depth port = some results →
      ((ReportsRight results ↔ doc.LinkedToOwn depth port) ↔
        ∀ aggregate linked d, doc.getChildNodes [port] = some [aggregate] →
          doc.getTargets port (lit "Edge_Aggregate") = [linked] →
          doc.getDefinition depth aggregate = some d →
          d = linked ∨ doc.stringValue d ≠ doc.stringValue linked) :=
  ⟨fun _ _ => isDescendantOf_iff_mem_iff, getAncestorNodesUntil_eq_iff,
    fun _ _ _ => reportsRight_iff_linkedToOwn_iff⟩

end Document

/-- A class with a variable in it, and beside the class a node with the text of the variable. -/
def sameTexts : Document where
  nodes := [
    ⟨none, .element .graphml []⟩,
    ⟨some 0, .element .key [(.id, lit "d0"), (.attrName, lit "kind")]⟩,
    ⟨some 0, .element .graph []⟩,
    ⟨some 2, .element .node [(.id, lit "n0")]⟩,
    ⟨some 3, .element .data [(.key, lit "d0")]⟩,
    ⟨some 4, .text (lit "Class")⟩,
    ⟨some 3, .element .graph []⟩,
    ⟨some 6, .element .node [(.id, lit "n1")]⟩,
    ⟨some 7, .element .data [(.key, lit "d0")]⟩,
    ⟨some 8, .text (lit "Variable")⟩,
    ⟨some 2, .element .node [(.id, lit "n2")]⟩,
    ⟨some 10, .element .data [(.key, lit "d0")]⟩,
    ⟨some 11, .text (lit "Variable")⟩]
  parent_lt := by decide
  ids_nodup := by decide
  nodes_nested := by decide

/-- A port with an instance of the aggregate that it is linked to. -/
def linkedPort : Document where
  nodes := [
    ⟨none, .element .graphml []⟩,
    ⟨some 0, .element .key [(.id, lit "d0"), (.attrName, lit "kind")]⟩,
    ⟨some 0, .element .key [(.id, lit "d1"), (.attrName, lit "index")]⟩,
    ⟨some 0, .element .graph []⟩,
    ⟨some 3, .element .node [(.id, lit "n0")]⟩,
    ⟨some 4, .element .data [(.key, lit "d0")]⟩,
    ⟨some 5, .text (lit "PublisherPort")⟩,
    ⟨some 4, .element .graph []⟩,
    ⟨some 7, .element .node [(.id, lit "n1")]⟩,
    ⟨some 8, .element .data [(.key, lit "d0")]⟩,
    ⟨some 9, .text (lit "AggregateInstance")⟩,
    ⟨some 8, .element .data [(.key, lit "d1")]⟩,
    ⟨some 11, .text (lit "0")⟩,
    ⟨some 3, .element .node [(.id, lit "n2")]⟩,
    ⟨some 13, .element .data [(.key, lit "d0")]⟩,
    ⟨some 14, .text (lit "Aggregate")⟩,
    ⟨some 3, .element .edge [(.source, lit "n1"), (.target, lit "n2")]⟩,
    ⟨some 16, .element .data [(.key, lit "d0")]⟩,
    ⟨some 17, .text (lit "Edge_Definition")⟩,
    ⟨some 3, .element .edge [(.source, lit "n0"), (.target, lit "n2")]⟩,
    ⟨some 19, .element .data [(.key, lit "d0")]⟩,
    ⟨some 20, .text (lit "Edge_Aggregate")⟩]
  parent_lt := by decide
  ids_nodup := by decide
  nodes_nested := by decide

theorem compares_iff_linkedPort :
    linkedPort.isDescendantOf 8 4 = true ∧ ∃ results, linkedPort.testPubsubPort 2 4 = some results ∧
      linkedPort.LinkedToOwn 2 4 ∧ Document.ReportsRight results := by
  obtain ⟨hdescendant, -, hport⟩ := Document.compares_iff linkedPort
  have hchildren : linkedPort.getChildNodes [4] = some [8] := by decide +kernel
  have htargets : linkedPort.getTargets 4 (lit "Edge_Aggregate") = [13] := by decide +kernel
  have hdefinition : linkedPort.getDefinition 2 8 = some 13 := by decide +kernel
  have hlinked : linkedPort.LinkedToOwn 2 4 := ⟨8, 13, hchildren, htargets, hdefinition⟩
  obtain ⟨results, hresults⟩ : ∃ results, linkedPort.testPubsubPort 2 4 = some results :=
    Option.isSome_iff_exists.mp (by decide +kernel)
  refine ⟨((hdescendant 8 4 (by decide)).mpr (.inl (by decide))).mpr (by decide), results,
    hresults, hlinked, ((hport 2 4 results hresults).mpr ?_).mpr hlinked⟩
  rintro aggregate linked d haggregate hlinked hd
  obtain rfl := List.singleton_injective (Option.some.inj (hchildren.symm.trans haggregate))
  obtain rfl := List.singleton_injective (htargets.symm.trans hlinked)
  exact .inl (Option.some.inj (hd.symm.trans hdefinition))

theorem not_comparesNodes : ¬ ∀ doc : Document, doc.ComparesNodes := by
  intro h
  have hdescendant := (h sameTexts).1 10 3 (by decide)
  exact absurd (hdescendant.mp (by decide)) (by decide)

end Sem.ReGen.Gml

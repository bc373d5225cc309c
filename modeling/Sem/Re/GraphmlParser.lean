import Sem.Lib.Paths
import Sem.Lib.Xml
import Mathlib.Data.List.Induction

/-!
# Queries on a GraphML document (`graphmlparser.cpp`)

A document is a tree of nodes and a list of edges between them. `entries` lists the nodes in
document order, each with the ids above it, nearest first; the XPath queries of the parser are
functions of it. A node has one `graph` element around its children.

* `isPath_iff_mem_entries`: the entries are the paths from the top of the document.
* `sameTree_of_isPath`: with unique ids, paths are paths in one tree.
* `getHeightToParent_path`: `GetHeightToParent` counts the steps up a path.
-/

namespace Sem.Re

open Xml (Text)

/-- The node kinds that the parser looks for. -/
inductive NodeKind
  | assemblyDefinitions
  | componentAssembly
  | componentInstance
  | variable
  | publisherPortInstance
  | subscriberPortInstance
  | requesterPortInstance
  | replierPortInstance
  | pubSubPortDelegate
  | requestPortDelegate
  | other
  deriving DecidableEq, Repr

/-- The kind of an edge; only those of assemblies are told apart. -/
inductive EdgeKind
  | assembly
  | other (kind : Text)
  deriving DecidableEq, Repr

/-- An edge between two nodes, by their ids. -/
structure Edge where
  kind : EdgeKind
  source : Text
  target : Text
  deriving DecidableEq, Repr

/-- A `node` element. -/
inductive Node
  | mk (id : Text) (kind : NodeKind) (children : List Node)

namespace Node

/-- The id of a node. -/
def id : Node → Text
  | .mk id _ _ => id

/-- The kind of a node. -/
def kind : Node → NodeKind
  | .mk _ kind _ => kind

/-- The nodes in the graph of a node. -/
def children : Node → List Node
  | .mk _ _ children => children

@[simp] theorem id_mk (id : Text) (kind : NodeKind) (children : List Node) :
    (mk id kind children).id = id := rfl

@[simp] theorem kind_mk (id : Text) (kind : NodeKind) (children : List Node) :
    (mk id kind children).kind = kind := rfl

@[simp] theorem children_mk (id : Text) (kind : NodeKind) (children : List Node) :
    (mk id kind children).children = children := rfl

/-- `FindImmediateChildren`. -/
def findImmediateChildren (kind : NodeKind) (n : Node) : List Node :=
  n.children.filter (·.kind = kind)

end Node

/-- A node and the ids above it, nearest first. -/
structure Entry where
  node : Node
  ancestors : List Text

mutual

/-- A node and all below it, each with its ancestors. -/
def Node.entries (ancestors : List Text) : Node → List Entry
  | .mk id kind children =>
    ⟨.mk id kind children, ancestors⟩ :: Node.entriesOf (id :: ancestors) children

/-- Some nodes and all below them. -/
def Node.entriesOf (ancestors : List Text) : List Node → List Entry
  | [] => []
  | n :: ns => n.entries ancestors ++ Node.entriesOf ancestors ns

end

/-- The nodes and the edges of a model file. -/
structure Document where
  nodes : List Node
  edges : List Edge

namespace Document

variable (doc : Document)

/-- All nodes, in document order. -/
def entries : List Entry := Node.entriesOf [] doc.nodes

/-- `id_lookup_`. -/
def lookup (id : Text) : Option Entry := doc.entries.find? (·.node.id = id)

/-- The ids above a node; an empty id is the top of the document. -/
def ancestors (id : Text) : List Text := ((doc.lookup id).map (·.ancestors)).getD []

/-- The kind of the node with an id. -/
def kind (id : Text) : Option NodeKind := (doc.lookup id).map (·.node.kind)

/-- `FindNodesOfKind` in the whole document. -/
def findNodesOfKind (kind : NodeKind) : List Text :=
  (doc.entries.filter (·.node.kind = kind)).map (·.node.id)

/-- `GetParentNode`: the id of the node that it is in, or the empty text. -/
def getParentNode (id : Text) : Text := (doc.ancestors id).headD []

/-- `GetParentNode(id, depth)`. -/
def getParentNodeAt (id : Text) : Nat → Text
  | 0 => id
  | depth + 1 => getParentNodeAt (doc.getParentNode id) depth

/-- `GetSharedParent`: the nearest ancestor of the one that is an ancestor of the other. -/
def getSharedParent (leftChildId rightChildId : Text) : Text :=
  ((doc.ancestors leftChildId).find? (· ∈ doc.ancestors rightChildId)).getD []

/-- The loop of `GetHeightToParent`, from `current_id` at `depth`. -/
def heightLoop (parentId : Text) : Nat → Text → Int → Int
  | 0, _, _ => -1
  | fuel + 1, currentId, depth =>
    if currentId = [] then -1
    else
      let currentId := doc.getParentNode currentId
      if currentId = parentId then if currentId = [] then -1 else depth + 1
      else heightLoop parentId fuel currentId (depth + 1)

/-- `GetHeightToParent`; the loop ends at the top of the document. -/
def getHeightToParent (childId parentId : Text) : Int :=
  doc.heightLoop parentId ((doc.ancestors childId).length + 2) childId 0

end Document

/-! ## Paths -/

/-- The nodes are a path downwards whose first node is one of `ns`. -/
def IsPath : List Node → List Node → Prop
  | _, [] => True
  | ns, n :: p => n ∈ ns ∧ IsPath n.children p

/-- The ids on a path. -/
def idsOf (p : List Node) : List Text := p.map (·.id)

variable {ns p q : List Node} {m n : Node} {ancestors : List Text}

theorem IsPath.append (hp : IsPath ns (p ++ [n])) (hq : IsPath n.children q) :
    IsPath ns (p ++ n :: q) := by
  induction p generalizing ns with
  | nil => exact ⟨hp.1, hq⟩
  | cons m p ih => exact ⟨hp.1, ih hp.2⟩

theorem IsPath.left (h : IsPath ns (p ++ q)) : IsPath ns p := by
  induction p generalizing ns with
  | nil => trivial
  | cons m p ih => exact ⟨h.1, ih h.2⟩

/-- The part of a path down to one of its nodes. -/
theorem IsPath.upTo (h : IsPath ns (p ++ n :: q)) : IsPath ns (p ++ [n]) := by
  rw [List.append_cons] at h
  exact h.left

theorem IsPath.right (h : IsPath ns (p ++ n :: q)) : IsPath n.children q := by
  induction p generalizing ns with
  | nil => exact h.2
  | cons m p ih => exact ih h.2

theorem IsPath.mono {ns' : List Node} (h : IsPath ns p) (hsub : ns ⊆ ns') : IsPath ns' p := by
  cases p with
  | nil => trivial
  | cons m p => exact ⟨hsub h.1, h.2⟩

theorem entries_subset_entriesOf (h : n ∈ ns) : n.entries ancestors ⊆ Node.entriesOf ancestors ns := by
  induction ns with
  | nil => cases h
  | cons m ns ih =>
    rw [Node.entriesOf]
    rcases List.mem_cons.mp h with rfl | h
    · exact List.subset_append_left _ _
    · exact fun e he => List.mem_append_right _ (ih h he)

theorem entries_eq (n : Node) (ancestors : List Text) :
    n.entries ancestors = ⟨n, ancestors⟩ :: Node.entriesOf (n.id :: ancestors) n.children := by
  cases n
  rw [Node.entries]
  rfl

theorem mem_entriesOf_of_isPath (h : IsPath ns (p ++ [n])) :
    ⟨n, (idsOf p).reverse ++ ancestors⟩ ∈ Node.entriesOf ancestors ns := by
  induction p generalizing ns ancestors with
  | nil =>
    refine entries_subset_entriesOf h.1 ?_
    rw [entries_eq]
    exact List.mem_cons_self ..
  | cons m p ih =>
    refine entries_subset_entriesOf h.1 ?_
    rw [entries_eq, idsOf, List.map_cons, List.reverse_cons, List.append_assoc]
    exact List.mem_cons_of_mem _ (ih h.2)

mutual

theorem exists_isPath_of_mem_entries {ancestors : List Text} {e : Entry} :
    ∀ m : Node, e ∈ m.entries ancestors →
      ∃ p, IsPath [m] (p ++ [e.node]) ∧ e.ancestors = (idsOf p).reverse ++ ancestors
  | .mk id kind children, h => by
    rw [Node.entries] at h
    rcases List.mem_cons.mp h with rfl | h
    · exact ⟨[], ⟨by simp, trivial⟩, rfl⟩
    · obtain ⟨p, hp, hanc⟩ := exists_isPath_of_mem_entriesOf children h
      exact ⟨.mk id kind children :: p, ⟨by simp, hp⟩, by simp [hanc, idsOf]⟩

theorem exists_isPath_of_mem_entriesOf {ancestors : List Text} {e : Entry} :
    ∀ ns : List Node, e ∈ Node.entriesOf ancestors ns →
      ∃ p, IsPath ns (p ++ [e.node]) ∧ e.ancestors = (idsOf p).reverse ++ ancestors
  | [], h => by
    rw [Node.entriesOf] at h
    cases h
  | m :: ns, h => by
    rw [Node.entriesOf] at h
    rcases List.mem_append.mp h with h | h
    · obtain ⟨p, hp, hanc⟩ := exists_isPath_of_mem_entries m h
      exact ⟨p, hp.mono (by simp), hanc⟩
    · obtain ⟨p, hp, hanc⟩ := exists_isPath_of_mem_entriesOf ns h
      exact ⟨p, hp.mono (by simp), hanc⟩

end

mutual

theorem entries_sublist_entries {ancestors : List Text} {e : Entry} : ∀ m : Node,
    e ∈ m.entries ancestors → (e.node.entries e.ancestors).Sublist (m.entries ancestors)
  | .mk id kind children, h => by
    rw [Node.entries] at h
    rcases List.mem_cons.mp h with rfl | h
    · exact List.Sublist.refl _
    · rw [Node.entries]
      exact (entries_sublist_entriesOf children h).cons _

/-- The entries of a node in a document are among the document's. -/
theorem entries_sublist_entriesOf {ancestors : List Text} {e : Entry} : ∀ ns : List Node,
    e ∈ Node.entriesOf ancestors ns →
      (e.node.entries e.ancestors).Sublist (Node.entriesOf ancestors ns)
  | [], h => by
    rw [Node.entriesOf] at h
    cases h
  | m :: ns, h => by
    rw [Node.entriesOf] at h ⊢
    rcases List.mem_append.mp h with h | h
    · exact (entries_sublist_entries m h).trans (List.sublist_append_left _ _)
    · exact (entries_sublist_entriesOf ns h).trans (List.sublist_append_right _ _)

end

/-- **The entries are the nodes at the ends of paths.** -/
theorem isPath_iff_mem_entries {doc : Document} {e : Entry} :
    e ∈ doc.entries ↔ ∃ p, IsPath doc.nodes (p ++ [e.node]) ∧ e.ancestors = (idsOf p).reverse := by
  constructor
  · intro h
    obtain ⟨p, hp, hanc⟩ := exists_isPath_of_mem_entriesOf doc.nodes h
    exact ⟨p, hp, by rw [hanc, List.append_nil]⟩
  · rintro ⟨p, hp, hanc⟩
    have hmem : ⟨e.node, (idsOf p).reverse ++ []⟩ ∈ doc.entries := mem_entriesOf_of_isPath hp
    rwa [List.append_nil, ← hanc] at hmem

/-- **Ends of paths with the same id are the same node**, below the same ids. -/
theorem eq_of_id_eq (hnd : ((Node.entriesOf ancestors ns).map (·.node.id)).Nodup)
    (hp : IsPath ns (p ++ [m])) (hq : IsPath ns (q ++ [n])) (hid : m.id = n.id) :
    m = n ∧ idsOf p = idsOf q := by
  have heq := List.inj_on_of_nodup_map hnd (mem_entriesOf_of_isPath hp)
    (mem_entriesOf_of_isPath hq) hid
  obtain ⟨rfl, hids⟩ := Entry.mk.inj heq
  exact ⟨rfl, List.reverse_injective (List.append_cancel_right hids)⟩

/-- The ids of the first nodes of paths. -/
theorem ids_sublist_entriesOf (ancestors : List Text) (ns : List Node) :
    (ns.map (·.id)).Sublist ((Node.entriesOf ancestors ns).map (·.node.id)) := by
  induction ns with
  | nil => exact List.Sublist.slnil
  | cons n ns ih =>
    rw [Node.entriesOf, entries_eq, List.map_cons, List.map_append, List.map_cons, List.cons_append]
    exact (ih.trans (List.sublist_append_right _ _)).cons_cons _

/-- Ids are unique and not empty. -/
structure Document.Identified (doc : Document) : Prop where
  nodup : (doc.entries.map (·.node.id)).Nodup
  nonempty : ∀ e ∈ doc.entries, e.node.id ≠ []

namespace Document.Identified

variable {doc : Document} (h : doc.Identified)

theorem find?_of_mem {es : List Entry} {e : Entry} (hnd : (es.map (·.node.id)).Nodup) (he : e ∈ es) :
    es.find? (·.node.id = e.node.id) = some e := by
  induction es with
  | nil => cases he
  | cons d es ih =>
    rw [List.map_cons, List.nodup_cons] at hnd
    rcases List.mem_cons.mp he with rfl | he
    · simp
    · have hne : d.node.id ≠ e.node.id := fun heq =>
        hnd.1 (heq ▸ List.mem_map_of_mem he)
      rw [List.find?_cons_of_neg (by simpa using hne)]
      exact ih hnd.2 he

include h

theorem lookup_of_mem {e : Entry} (he : e ∈ doc.entries) : doc.lookup e.node.id = some e :=
  find?_of_mem h.nodup he

/-- **The end of a path is found under its id**, with the path above it. -/
theorem lookup_of_isPath (hp : IsPath doc.nodes (p ++ [n])) :
    doc.lookup n.id = some ⟨n, (idsOf p).reverse⟩ := by
  have he : (⟨n, (idsOf p).reverse⟩ : Entry) ∈ doc.entries :=
    isPath_iff_mem_entries.mpr ⟨p, hp, rfl⟩
  exact h.lookup_of_mem he

theorem id_ne_nil (hp : IsPath doc.nodes (p ++ [n])) : n.id ≠ [] := by
  have he : (⟨n, (idsOf p).reverse⟩ : Entry) ∈ doc.entries :=
    isPath_iff_mem_entries.mpr ⟨p, hp, rfl⟩
  exact h.nonempty _ he

theorem ancestors_of_isPath (hp : IsPath doc.nodes (p ++ [n])) :
    doc.ancestors n.id = (idsOf p).reverse := by
  rw [Document.ancestors, h.lookup_of_isPath hp]
  rfl

theorem eq_of_id_eq (hp : IsPath doc.nodes (p ++ [m])) (hq : IsPath doc.nodes (q ++ [n]))
    (hid : m.id = n.id) : m = n ∧ idsOf p = idsOf q :=
  Re.eq_of_id_eq h.nodup hp hq hid

theorem getParentNode_of_isPath (hp : IsPath doc.nodes (p ++ [n, m])) :
    doc.getParentNode m.id = n.id := by
  have hpath : IsPath doc.nodes ((p ++ [n]) ++ [m]) := by simpa using hp
  rw [Document.getParentNode, h.ancestors_of_isPath hpath]
  simp [idsOf]

/-- A node that has a parent is at the end of a path through it. -/
theorem isPath_of_getParentNode (hp : IsPath doc.nodes (p ++ [n])) {id : Text}
    (hid : doc.getParentNode id = n.id) :
    ∃ m, m.id = id ∧ IsPath doc.nodes (p ++ [n, m]) := by
  have hne := h.id_ne_nil hp
  unfold Document.getParentNode Document.ancestors at hid
  cases hlookup : doc.lookup id with
  | none =>
    rw [hlookup] at hid
    exact absurd hid.symm hne
  | some e =>
    rw [hlookup] at hid
    have he := List.mem_of_find?_eq_some hlookup
    have heid : e.node.id = id := by simpa using List.find?_some hlookup
    obtain ⟨q, hq, hanc⟩ := isPath_iff_mem_entries.mp he
    -- the path to the node ends with its parent
    rcases List.eq_nil_or_concat' q with rfl | ⟨q, n', rfl⟩
    · rw [Option.map_some, hanc] at hid
      exact absurd hid.symm hne
    · rw [Option.map_some, hanc] at hid
      have hn' : n'.id = n.id := by simpa [idsOf] using hid
      obtain ⟨rfl, -⟩ := h.eq_of_id_eq hq.left hp hn'
      have hchild : IsPath n'.children [e.node] := by
        rw [List.append_assoc] at hq
        exact hq.right
      exact ⟨e.node, heid, hp.append hchild⟩

theorem sameTree_of_isPath (hp : IsPath doc.nodes p) (hq : IsPath doc.nodes q) :
    SameTree (idsOf p) (idsOf q) := by
  have hdown : ∀ {p k n}, IsPath doc.nodes p → p[k]? = some n →
      IsPath doc.nodes (p.take k ++ [n]) := by
    intro p k n hp hn
    have htake : p.take (k + 1) = p.take k ++ [n] := by rw [List.take_add_one, hn]; rfl
    rw [← List.take_append_drop (k + 1) p] at hp
    exact htake ▸ hp.left
  intro k l a hk hl
  rw [idsOf, List.getElem?_map] at hk hl
  obtain ⟨m, hm, rfl⟩ := Option.map_eq_some_iff.mp hk
  obtain ⟨n, hn, hid⟩ := Option.map_eq_some_iff.mp hl
  have := (h.eq_of_id_eq (hdown hp hm) (hdown hq hn) hid.symm).2
  simpa only [idsOf, List.map_take] using this

theorem nodup_of_isPath (hp : IsPath doc.nodes p) : (idsOf p).Nodup :=
  (h.sameTree_of_isPath hp hp).nodup

/-- **The loop counts the steps up a path.** -/
theorem heightLoop_path {w x : List Node} {top : Node} {fuel : Nat} (depth : Int)
    (hp : IsPath doc.nodes (w ++ top :: (x ++ [m]))) (hfuel : x.length + 1 ≤ fuel) :
    doc.heightLoop top.id fuel m.id depth = depth + (x.length + 1) := by
  induction x using List.reverseRecOn generalizing m fuel depth with
  | nil =>
    obtain ⟨fuel, rfl⟩ : ∃ k, fuel = k + 1 := ⟨fuel - 1, by simp at hfuel; omega⟩
    have hend : IsPath doc.nodes ((w ++ [top]) ++ [m]) := by simpa using hp
    rw [Document.heightLoop, if_neg (h.id_ne_nil hend), h.getParentNode_of_isPath hp]
    simp [h.id_ne_nil hp.upTo]
  | append_singleton x n ih =>
    obtain ⟨fuel, rfl⟩ : ∃ k, fuel = k + 1 := ⟨fuel - 1, by simp at hfuel; omega⟩
    have hparent : IsPath doc.nodes ((w ++ top :: x) ++ [n, m]) := by simpa using hp
    have hend : IsPath doc.nodes ((w ++ top :: x ++ [n]) ++ [m]) := by simpa using hp
    -- the node below the one sought is not the one sought
    have hne : n.id ≠ top.id := by
      intro heq
      have hnd := h.nodup_of_isPath hparent.upTo
      rw [idsOf, List.map_append, List.map_append] at hnd
      have htop : n.id ∈ w.map (·.id) ++ (top :: x).map (·.id) := by simp [heq]
      exact List.disjoint_of_nodup_append hnd htop (by simp)
    have hup : IsPath doc.nodes (w ++ top :: (x ++ [n])) := by simpa using hparent.upTo
    rw [Document.heightLoop, if_neg (h.id_ne_nil hend), h.getParentNode_of_isPath hparent]
    simp only [hne, if_false]
    rw [ih (depth + 1) hup (by simpa using hfuel), List.length_append, List.length_singleton]
    omega

/-- **`GetHeightToParent` is the number of steps up.** -/
theorem getHeightToParent_path {w x : List Node} {top : Node}
    (hp : IsPath doc.nodes (w ++ top :: (x ++ [m]))) :
    doc.getHeightToParent m.id top.id = x.length + 1 := by
  have hend : IsPath doc.nodes ((w ++ top :: x) ++ [m]) := by simpa using hp
  have hfuel : x.length + 1 ≤ (doc.ancestors m.id).length + 2 := by
    rw [h.ancestors_of_isPath hend]
    simp [idsOf]
    omega
  rw [Document.getHeightToParent, h.heightLoop_path 0 hp hfuel]
  omega

end Document.Identified

end Sem.Re

import Mathlib.Data.Finset.Prod
import Sem.Medea.EdgeAcceptance

/-!
# The nodes that a selection can be connected to (`_getConnectableNodes`)

The candidates are taken from the factory's index, in a direction that the first loop over the
selection has not ruled out. The loop stops at the first node that is no source, so that it may miss
a node that is no target.

* `EdgeModel.Indexed`: the index has the nodes whose sets contain the kind; `indexed_inductive`.
* `mem_getConnectableNodes`: the result for a selection with nodes is what a search of all nodes
  gives, and that for an empty one is empty.
-/

namespace Sem.Medea

namespace EdgeModel

variable (s : EdgeModel)

/-- The first loop: whether the nodes may all be sources, and targets. -/
def srcsAcceptEdge (s : EdgeModel) (edgeKind : EdgeKind) : List Nat → Bool × Bool → Bool × Bool
  | [], accept => accept
  | src :: srcNodes, (source, target) =>
    if !s.canCurrentlyAcceptEdgeKind edgeKind .source src then (false, target)
    else if !s.canCurrentlyAcceptEdgeKind edgeKind .target src then
      srcsAcceptEdge s edgeKind srcNodes (source, false)
    else srcsAcceptEdge s edgeKind srcNodes (source, target)

/-- The loop over the selection for one candidate. -/
def allValid (valid : Nat → Bool) (srcNodes : List Nat) : Bool :=
  srcNodes.foldl (fun acc src => if acc then valid src else false) true

/-- `_getConnectableNodes`. -/
def getConnectableNodes (srcNodes : List Nat) (edgeKind : EdgeKind) :
    Finset (EdgeDirection × Nat) :=
  let (source, target) := s.srcsAcceptEdge edgeKind srcNodes (true, true)
  if (source || target) && !srcNodes.isEmpty then
    (if source then
      ((s.getNodesWhichAcceptEdgeKinds edgeKind .target).filter fun dst =>
        allValid (fun src => s.canAcceptEdge edgeKind src dst) srcNodes).image (.target, ·)
    else ∅) ∪
    (if target then
      ((s.getNodesWhichAcceptEdgeKinds edgeKind .source).filter fun dst =>
        allValid (fun src => s.canAcceptEdge edgeKind dst src) srcNodes).image (.source, ·)
    else ∅)
  else ∅

/-! ## The purpose -/

/-- The nodes of the model; a temporary node is none. -/
def Live (n : Nat) : Prop := ∃ node, s.nodes.lookup n = some node ∧ node.isTemporary = false

/-- Every node of the selection accepts an edge with `n`, which is at the given end of it. -/
def Connectable (srcNodes : List Nat) (edgeKind : EdgeKind) (n : Nat) : EdgeDirection → Prop
  | .target => ∀ src ∈ srcNodes, s.canAcceptEdge edgeKind src n = true
  | .source => ∀ src ∈ srcNodes, s.canAcceptEdge edgeKind n src = true

/-- A node of the model whose set for the direction has the kind. -/
def Accepts (direction : EdgeDirection) (edgeKind : EdgeKind) (n : Nat) : Prop :=
  ∃ node, s.nodes.lookup n = some node ∧ node.isTemporary = false ∧
    edgeKind ∈ node.acceptedEdgeKind direction

/-- The index has the nodes whose sets contain the kind. -/
def Indexed : Prop := ∀ direction edgeKind n, n ∈ s.acceptedEdgeMap direction edgeKind ↔
  edgeKind ∈ getEdgeKinds ∧ s.Accepts direction edgeKind n

variable {s}

/-! ## The index -/

theorem not_accepts {n : Nat} (h : s.nodes.lookup n = none) (direction : EdgeDirection)
    (edgeKind : EdgeKind) : ¬ s.Accepts direction edgeKind n := by
  rintro ⟨node, hn, -⟩
  exact nomatch h.symm.trans hn

theorem accepts_iff {n : Nat} {node : AcceptingNode} (h : s.nodes.lookup n = some node)
    (direction : EdgeDirection) (edgeKind : EdgeKind) : s.Accepts direction edgeKind n ↔
      node.isTemporary = false ∧ edgeKind ∈ node.acceptedEdgeKind direction := by
  simp [Accepts, h]

theorem accepts_congr {s' : EdgeModel} {n : Nat} (h : s'.nodes.lookup n = s.nodes.lookup n)
    (direction : EdgeDirection) (edgeKind : EdgeKind) :
    s'.Accepts direction edgeKind n ↔ s.Accepts direction edgeKind n := by
  rw [Accepts, Accepts, h]

/-- A change of one node that does not show in the index. -/
theorem Indexed.insert (h : s.Indexed) {n : Nat} {node : AcceptingNode}
    (hn : ∀ direction edgeKind, s.Accepts direction edgeKind n ↔
      node.isTemporary = false ∧ edgeKind ∈ node.acceptedEdgeKind direction) :
    Indexed { s with nodes := s.nodes.insert n node } := by
  intro direction edgeKind m
  rw [h direction edgeKind m]
  by_cases hm : m = n
  · subst hm
    have hlookup : (s.nodes.insert m node).lookup m = some node := AList.lookup_insert _
    rw [hn, accepts_iff hlookup]
  · rw [accepts_congr]
    simp [hm]

/-- **The signal of a node** makes its part of the index right. -/
theorem Indexed.changed {n : Nat} {node : AcceptingNode}
    (h : ∀ direction edgeKind m, m ≠ n → (m ∈ s.acceptedEdgeMap direction edgeKind ↔
      edgeKind ∈ getEdgeKinds ∧ s.Accepts direction edgeKind m))
    (hunregistered : ∀ direction edgeKind, edgeKind ∉ getEdgeKinds →
      n ∉ s.acceptedEdgeMap direction edgeKind)
    (hn : s.nodes.lookup n = some node) (hnode : node.isTemporary = false) :
    (s.acceptedEdgeKindsChanged n node).Indexed := by
  intro direction edgeKind m
  have hsame : (s.acceptedEdgeKindsChanged n node).Accepts direction edgeKind m ↔
      s.Accepts direction edgeKind m := Iff.rfl
  rw [hsame]
  simp only [acceptedEdgeKindsChanged]
  by_cases hm : m = n
  · subst hm
    rw [accepts_iff hn, and_iff_right hnode]
    by_cases hkind : edgeKind ∈ getEdgeKinds
    · by_cases haccepted : edgeKind ∈ node.acceptedEdgeKind direction <;> simp [hkind, haccepted]
    · simp [hkind, hunregistered direction edgeKind hkind]
  · have hother := h direction edgeKind m hm
    split_ifs
    · rw [Finset.mem_insert, or_iff_right hm, hother]
    · rw [Finset.mem_erase, and_iff_right hm, hother]
    · exact hother

theorem Indexed.registerEntity (h : s.Indexed) {n : Nat} {node : AcceptingNode}
    (hn : s.nodes.lookup n = some node) (hnode : node.isTemporary = false) :
    (s.acceptedEdgeKindsChanged n node).Indexed :=
  .changed (fun direction edgeKind m _ => h direction edgeKind m)
    (fun direction edgeKind hkind hmem => hkind ((h direction edgeKind n).mp hmem).1) hn hnode

theorem insert_eq_of_card {edgeKind : EdgeKind} {kinds : Finset EdgeKind}
    (h : kinds.card = (Insert.insert edgeKind kinds).card) :
    Insert.insert edgeKind kinds = kinds :=
  (Finset.eq_of_subset_of_card_le (Finset.subset_insert _ _) h.ge).symm

theorem erase_eq_of_card {edgeKind : EdgeKind} {kinds : Finset EdgeKind}
    (h : kinds.card = (kinds.erase edgeKind).card) : kinds.erase edgeKind = kinds :=
  Finset.eq_of_subset_of_card_le (Finset.erase_subset _ _) h.le

theorem Indexed.setAcceptsEdgeKind (h : s.Indexed) {n : Nat} {node : AcceptingNode}
    (hn : s.nodes.lookup n = some node) (edgeKind : EdgeKind) (direction : EdgeDirection)
    (accept : Bool) : (s.setAcceptsEdgeKind n node edgeKind direction accept).Indexed := by
  simp only [EdgeModel.setAcceptsEdgeKind]
  set kinds := if accept then Insert.insert edgeKind (node.acceptedEdgeKind direction)
    else (node.acceptedEdgeKind direction).erase edgeKind with hkinds
  split_ifs with hsignal
  · refine .changed (fun direction' edgeKind' m hm => ?_) ?_ (by simp) hsignal.2
    · rw [accepts_congr (s := s) (by simp [hm])]
      exact h direction' edgeKind' m
    · exact fun direction' edgeKind' hkind hmem => hkind ((h direction' edgeKind' n).mp hmem).1
  · refine h.insert fun direction' edgeKind' => ?_
    rw [accepts_iff hn]
    refine and_congr_right fun hnode => ?_
    have hcard : (node.acceptedEdgeKind direction).card = kinds.card := by
      by_contra hne
      exact hsignal ⟨hne, hnode⟩
    have hsame : kinds = node.acceptedEdgeKind direction := by
      cases accept with
      | true => exact insert_eq_of_card hcard
      | false => exact erase_eq_of_card hcard
    by_cases hdirection : direction' = direction <;> simp [hdirection, hsame]

theorem Indexed.destruct (h : s.Indexed) (n : Nat) :
    Indexed { s.clearAcceptedEdgeKinds n with nodes := s.nodes.erase n } := by
  intro direction edgeKind m
  have hm := h direction edgeKind m
  simp only [clearAcceptedEdgeKinds]
  by_cases heq : m = n
  · subst heq
    have hgone := not_accepts (s := { s.clearAcceptedEdgeKinds m with nodes := s.nodes.erase m })
      (n := m) (by simp) direction edgeKind
    refine iff_of_false ?_ fun hin => hgone hin.2
    split_ifs with hkind
    · simp
    · exact fun hin => hkind (hm.mp hin).1
  · rw [accepts_congr (s := s) (by simp [heq]), ← hm]
    split_ifs
    · rw [Finset.mem_erase, and_iff_right heq]
    · exact Iff.rfl

end EdgeModel

theorem indexed_inductive (facts : NodeFacts) :
    (edgeModelSystem facts).InductiveBy (fun _ _ => True) EdgeModel.Indexed where
  init := by
    rintro s rfl
    intro direction edgeKind n
    simp [EdgeModel.Accepts]
  step := by
    intro s action s' hs _ hstep
    cases action with
    | create n isTemporary =>
      have hnext : edgeModelStep s (.create n isTemporary) = some s' := hstep
      rw [edgeModelStep] at hnext
      split at hnext
      · cases hnext
      · rename_i hn
        obtain rfl := Option.some.inj hnext
        refine hs.insert fun direction edgeKind => ?_
        exact iff_of_false (EdgeModel.not_accepts hn direction edgeKind) (by simp)
    | setAcceptsEdgeKind n edgeKind direction accept =>
      obtain ⟨node, hn, rfl⟩ := Option.map_eq_some_iff.mp hstep
      exact hs.setAcceptsEdgeKind hn edgeKind direction accept
    | registerEntity n =>
      obtain ⟨node, hn, hnext⟩ := Option.bind_eq_some_iff.mp hstep
      split at hnext
      · cases hnext
      · rename_i hnode
        obtain rfl := Option.some.inj hnext
        exact hs.registerEntity hn (by simpa using hnode)
    | destruct n =>
      obtain ⟨node, hn, rfl⟩ := Option.map_eq_some_iff.mp hstep
      exact hs.destruct n
    | change facts =>
      obtain rfl := Option.some.inj hstep
      exact hs

/-! ## The loops -/

namespace EdgeModel

variable {s : EdgeModel} {edgeKind : EdgeKind} {srcNodes : List Nat} {n : Nat}

theorem allValid_eq (valid : Nat → Bool) (srcNodes : List Nat) :
    allValid valid srcNodes = srcNodes.all valid := by
  have hfalse : ∀ l : List Nat, l.foldl (fun acc src => if acc then valid src else false) false =
      false := fun l => by
    induction l with
    | nil => rfl
    | cons src l ih => exact ih
  rw [allValid]
  induction srcNodes with
  | nil => rfl
  | cons src srcNodes ih =>
    rw [List.foldl_cons, List.all_cons]
    cases hvalid : valid src with
    | true => simpa [hvalid] using ih
    | false => simpa [hvalid] using hfalse srcNodes

/-- The first flag is that all nodes may be sources; the second is cleared only by a node that may
not be a target. -/
theorem srcsAcceptEdge_spec (s : EdgeModel) (edgeKind : EdgeKind) (srcNodes : List Nat)
    (source target : Bool) :
    (s.srcsAcceptEdge edgeKind srcNodes (source, target)).1 =
        (source && srcNodes.all fun src => s.canCurrentlyAcceptEdgeKind edgeKind .source src) ∧
      ((s.srcsAcceptEdge edgeKind srcNodes (source, target)).2 = false → target = false ∨
        ∃ src ∈ srcNodes, s.canCurrentlyAcceptEdgeKind edgeKind .target src = false) := by
  induction srcNodes generalizing source target with
  | nil => exact ⟨by simp [srcsAcceptEdge], Or.inl⟩
  | cons src srcNodes ih =>
    rw [srcsAcceptEdge, List.all_cons]
    cases hsource : s.canCurrentlyAcceptEdgeKind edgeKind .source src with
    | false => exact ⟨by simp, fun h => Or.inl h⟩
    | true =>
      cases htarget : s.canCurrentlyAcceptEdgeKind edgeKind .target src with
      | false =>
        refine ⟨by simpa using (ih source false).1, fun _ => Or.inr ⟨src, by simp, htarget⟩⟩
      | true =>
        refine ⟨by simpa using (ih source target).1, fun h => ?_⟩
        rcases (ih source target).2 (by simpa using h) with h | ⟨other, hother, h⟩
        · exact Or.inl h
        · exact Or.inr ⟨other, List.mem_cons_of_mem src hother, h⟩

theorem canAcceptEdge_ends {dst : Nat} (h : s.canAcceptEdge edgeKind n dst = true) :
    s.canCurrentlyAcceptEdgeKind edgeKind .source n = true ∧
      s.canCurrentlyAcceptEdgeKind edgeKind .target dst = true := by
  simp only [canAcceptEdge, Bool.and_eq_true] at h
  exact h.1

theorem mem_getEdgeKinds (h : edgeKind ≠ .none) : edgeKind ∈ getEdgeKinds := by
  cases edgeKind <;> simp_all [getEdgeKinds]

/-- **A node that is accepted at one end is a candidate for it.** -/
theorem mem_index (h : s.Indexed) (hn : s.Live n) {direction : EdgeDirection}
    (haccept : s.canCurrentlyAcceptEdgeKind edgeKind direction n = true) :
    n ∈ s.getNodesWhichAcceptEdgeKinds edgeKind direction := by
  obtain ⟨node, hlookup, hnode⟩ := hn
  simp only [canCurrentlyAcceptEdgeKind, canAcceptEdgeKind, hlookup, Bool.and_eq_true,
    decide_eq_true_eq] at haccept
  refine (h direction edgeKind n).mpr ⟨mem_getEdgeKinds ?_, node, hlookup, hnode, haccept.1⟩
  rintro rfl
  cases direction <;> exact absurd haccept.2 (by simp [NodeFacts.acceptsAsSource,
    NodeFacts.acceptsAsTarget])

theorem live_of_mem_index (h : s.Indexed) {direction : EdgeDirection}
    (hn : n ∈ s.getNodesWhichAcceptEdgeKinds edgeKind direction) : s.Live n := by
  obtain ⟨-, node, hlookup, hnode, -⟩ := (h direction edgeKind n).mp hn
  exact ⟨node, hlookup, hnode⟩

/-- The two loops over the candidates. -/
theorem mem_getConnectableNodes_iff {source target : Bool}
    (hflags : s.srcsAcceptEdge edgeKind srcNodes (true, true) = (source, target))
    (hne : srcNodes ≠ []) (direction : EdgeDirection) :
    (direction, n) ∈ s.getConnectableNodes srcNodes edgeKind ↔
      (match direction with | .target => source | .source => target) = true ∧
        n ∈ s.getNodesWhichAcceptEdgeKinds edgeKind direction ∧
        s.Connectable srcNodes edgeKind n direction := by
  simp only [getConnectableNodes, hflags, allValid_eq]
  cases direction <;> cases source <;> cases target <;> simp [Connectable, hne]

/-- **The index finds the nodes that a search of all nodes finds.** -/
theorem mem_getConnectableNodes_of_ne_nil (h : s.Indexed) (hne : srcNodes ≠ [])
    (direction : EdgeDirection) : (direction, n) ∈ s.getConnectableNodes srcNodes edgeKind ↔
      s.Live n ∧ s.Connectable srcNodes edgeKind n direction := by
  obtain ⟨hsource, htarget⟩ := srcsAcceptEdge_spec s edgeKind srcNodes true true
  obtain ⟨src, hsrc⟩ := List.exists_mem_of_ne_nil _ hne
  rw [mem_getConnectableNodes_iff rfl hne]
  constructor
  · rintro ⟨-, hn, hconnectable⟩
    exact ⟨live_of_mem_index h hn, hconnectable⟩
  · rintro ⟨hlive, hconnectable⟩
    cases direction with
    | target =>
      refine ⟨?_, mem_index h hlive (canAcceptEdge_ends (hconnectable src hsrc)).2, hconnectable⟩
      show (s.srcsAcceptEdge edgeKind srcNodes (true, true)).1 = true
      rw [hsource, Bool.true_and, List.all_eq_true]
      exact fun other hother => (canAcceptEdge_ends (hconnectable other hother)).1
    | source =>
      refine ⟨?_, mem_index h hlive (canAcceptEdge_ends (hconnectable src hsrc)).1, hconnectable⟩
      show (s.srcsAcceptEdge edgeKind srcNodes (true, true)).2 = true
      by_contra hcleared
      obtain ⟨other, hother, hreject⟩ :=
        (htarget (Bool.eq_false_of_not_eq_true hcleared)).resolve_left (by simp)
      exact absurd (canAcceptEdge_ends (hconnectable other hother)).2 (by simp [hreject])

/-- Nothing is connectable with an empty selection. -/
theorem getConnectableNodes_nil : s.getConnectableNodes [] edgeKind = ∅ := by
  simp [getConnectableNodes]

end EdgeModel

/-- **What `_getConnectableNodes` returns**, in every model that can be reached. -/
theorem mem_getConnectableNodes (facts : NodeFacts) (s : EdgeModel)
    (h : (edgeModelSystem facts).Reach s) (srcNodes : List Nat) (edgeKind : EdgeKind)
    (direction : EdgeDirection) (n : Nat) :
    (direction, n) ∈ s.getConnectableNodes srcNodes edgeKind ↔
      srcNodes ≠ [] ∧ s.Live n ∧ s.Connectable srcNodes edgeKind n direction := by
  by_cases hne : srcNodes = []
  · rw [hne, EdgeModel.getConnectableNodes_nil]
    simp
  · rw [EdgeModel.mem_getConnectableNodes_of_ne_nil ((indexed_inductive facts).reach h) hne,
      and_iff_right hne]

/-! ## Small models -/

/-- Facts of a model whose nodes have nothing but the sets of edge kinds. -/
def plainFacts : NodeFacts where
  nodeKind _ := .other 0
  isNodeOfType _ _ := false
  isEdgeRuleActive _ _ := false
  definitionKinds _ := []
  instanceKinds _ := []
  implKinds _ := []
  parentNode _ := none
  definition _ := none
  implementations _ := []
  parentNodesForValidDefinition _ := []
  indirectlyConnectedTo _ _ := false
  isDataProducer _ := false
  isDataReceiver _ := false
  isMultipleDataProducer _ := false
  isMultipleDataReceiver _ := false
  edges := []
  subclassCheck _ _ _ := none

/-- Two sources of assembly edges, a target of them, and a node that accepts none. -/
def plainActions : List EdgeModelAction :=
  [.create 1 false, .create 2 false, .create 3 false, .create 4 false,
    .setAcceptsEdgeKind 1 .assembly .source true, .setAcceptsEdgeKind 3 .assembly .source true,
    .setAcceptsEdgeKind 2 .assembly .target true]

theorem mem_getConnectableNodes_plain : ∃ s, (edgeModelSystem plainFacts).Reach s ∧
    (.target, 2) ∈ s.getConnectableNodes [1, 3] .assembly ∧
    (.target, 4) ∉ s.getConnectableNodes [1, 3] .assembly := by
  have hrun : Lts.run edgeModelStep ⟨∅, fun _ _ => ∅, plainFacts⟩ plainActions = some _ := rfl
  have hmem := mem_getConnectableNodes plainFacts _ (Lts.reach_of_run hrun) [1, 3] .assembly .target
  refine ⟨_, Lts.reach_of_run hrun, (hmem 2).mpr ⟨by decide, ⟨_, rfl, rfl⟩, ?_⟩, fun hfour => ?_⟩
  · intro src hsrc
    rcases List.mem_cons.mp hsrc with rfl | hsrc
    · decide +kernel
    · obtain rfl := List.mem_singleton.mp hsrc
      decide +kernel
  · exact absurd (((hmem 4).mp hfour).2.2 1 List.mem_cons_self) (by decide +kernel)

/-- Every node of the model is connectable with an empty selection, and none of them is returned. -/
theorem not_mem_getConnectableNodes_nil : ¬ ∀ s, (edgeModelSystem plainFacts).Reach s →
    ∀ (srcNodes : List Nat) (edgeKind : EdgeKind) (direction : EdgeDirection) (n : Nat),
      (direction, n) ∈ s.getConnectableNodes srcNodes edgeKind ↔
        s.Live n ∧ s.Connectable srcNodes edgeKind n direction := by
  intro h
  have hrun : Lts.run edgeModelStep ⟨∅, fun _ _ => ∅, plainFacts⟩ [.create 1 false] = some _ := rfl
  have hiff := h _ (Lts.reach_of_run hrun) [] .assembly .target 1
  have hmem := hiff.mpr ⟨⟨_, rfl, rfl⟩, fun src hsrc => absurd hsrc (by simp)⟩
  rw [EdgeModel.getConnectableNodes_nil] at hmem
  cases hmem

end Sem.Medea

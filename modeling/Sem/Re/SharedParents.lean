import Sem.Re.Replicas

/-!
# Shared parents and index tuples

For ports in different assemblies `CalculateReplication` finds the shared parent, counts the steps
up to it and compares as many indices as there are assemblies above it. These are the assemblies
around both ports, so that it asks whether the index tuples agree on all of them.

* `shared_heights`: the heights of the ports above the shared parent.
* `connectTarget_eq`: an inter-assembly connection, in terms of the index tuples.
-/

namespace Sem.Re

open Xml (Text)

/-- The assemblies around a port, from the outermost one inwards. -/
def Model.assembliesAbove (model : Model) (portId : Text) : List Text :=
  (model.ancestors portId).reverse.filter fun id => model.kind id = some .componentAssembly

/-- The index tuples of two replicas agree on every assembly around both ports. -/
def Model.SharedAgree (model : Model) (sourceId : Text) (sourceIndices : List Nat)
    (targetId : Text) (targetIndices : List Nat) : Prop :=
  AgreeOnShared (model.assembliesAbove sourceId) sourceIndices (model.assembliesAbove targetId)
    targetIndices

instance (model : Model) (s : Text) (i : List Nat) (t : Text) (j : List Nat) :
    Decidable (model.SharedAgree s i t j) := by
  unfold Model.SharedAgree
  infer_instance

variable {model : Model} {w p q : List Node} {r r' : ComponentReplication} {m n : Node}

theorem kind_of_isPath (h : model.WellFormed) (hp : IsPath model.nodes (p ++ n :: q)) :
    model.kind n.id = some n.kind := by
  rw [Document.kind, h.identified.lookup_of_isPath hp.upTo]
  rfl

/-- The nodes above the assemblies are no assemblies. -/
structure AboveAssemblies (model : Model) (w : List Node) : Prop where
  isPath : IsPath model.nodes w
  ne_nil : w ≠ []
  kind : ∀ id ∈ idsOf w, model.kind id ≠ some .componentAssembly

theorem aboveAssemblies (h : model.WellFormed) {definitions : Node}
    (hdef : model.assemblyDefinitions = some definitions) (hw : IsPath model.nodes w)
    (hlast : w.getLast? = some definitions) : AboveAssemblies model w := by
  obtain ⟨w, rfl⟩ := List.getLast?_eq_some_iff.mp hlast
  obtain ⟨-, -, -, hkind⟩ := mem_entries_of_assemblyDefinitions hdef
  refine ⟨hw, by simp, fun id hid => ?_⟩
  rw [idsOf, List.map_append, List.mem_append] at hid
  rcases hid with hid | hid
  · refine h.outermost definitions hdef id ?_
    rw [h.identified.ancestors_of_isPath hw]
    exact List.mem_reverse.mpr hid
  · obtain rfl := List.mem_singleton.mp hid
    rw [kind_of_isPath h hw, hkind]
    nofun

/-- **The assemblies around a port** are those that its component is replicated in. -/
theorem assembliesAbove_eq (h : model.WellFormed) (hw : AboveAssemblies model w)
    (hr : ReplicaPath model w p r) (hm : IsPath model.nodes (w ++ p ++ [r.component, m])) :
    model.assembliesAbove m.id = idsOf p := by
  have hpath : IsPath model.nodes ((w ++ p ++ [r.component]) ++ [m]) := by simpa using hm
  have hassembly : ∀ id ∈ idsOf p, model.kind id = some .componentAssembly := by
    intro id hid
    obtain ⟨a, ha, rfl⟩ := List.mem_map.mp hid
    obtain ⟨p₁, p₂, rfl⟩ := List.append_of_mem ha
    have hpa : IsPath model.nodes ((w ++ p₁) ++ a :: (p₂ ++ [r.component])) := by
      simpa using hr.isPath
    rw [kind_of_isPath h hpa, hr.assemblies a ha]
  have hcomponent : model.kind r.component.id = some .componentInstance := by
    rw [kind_of_isPath h hr.isPath, hr.isInstance]
  have hwnone : (idsOf w).filter (fun id => model.kind id = some .componentAssembly) = [] :=
    List.filter_eq_nil_iff.mpr fun id hid => by simpa using hw.kind id hid
  have hpall : (idsOf p).filter (fun id => model.kind id = some .componentAssembly) = idsOf p :=
    List.filter_eq_self.mpr fun id hid => by simpa using hassembly id hid
  rw [Model.assembliesAbove, h.identified.ancestors_of_isPath hpath, List.reverse_reverse]
  simp only [idsOf, List.map_append, List.filter_append] at hwnone hpall ⊢
  rw [hwnone, hpall]
  simp [hcomponent]

/-- A component is not above another one. -/
theorem component_notMem (h : model.WellFormed) (hr : ReplicaPath model w p r)
    (hr' : ReplicaPath model w q r') : r.component.id ∉ idsOf (w ++ q) := by
  intro hid
  obtain ⟨n, hn, heq⟩ := List.mem_map.mp hid
  rcases List.mem_append.mp hn with hn | hn
  · -- it would be above itself
    obtain ⟨w₁, w₂, rfl⟩ := List.append_of_mem hn
    have hpath : IsPath model.nodes (w₁ ++ n :: (w₂ ++ p ++ [r.component])) := by
      simpa using hr.isPath
    have hids := congrArg List.length (h.identified.eq_of_id_eq hpath.upTo hr.isPath heq).2
    simp [idsOf] at hids
  · obtain ⟨q₁, q₂, rfl⟩ := List.append_of_mem hn
    have hpath : IsPath model.nodes ((w ++ q₁) ++ n :: (q₂ ++ [r'.component])) := by
      simpa using hr'.isPath
    obtain ⟨rfl, -⟩ := h.identified.eq_of_id_eq hpath.upTo hr.isPath heq
    have := hr'.assemblies _ hn
    rw [hr.isInstance] at this
    cases this

/-- Splitting the ids of a path splits the path. -/
theorem exists_append_of_idsOf {xs ys : List Text} (h : idsOf p = xs ++ ys) :
    ∃ p₁ p₂, p = p₁ ++ p₂ ∧ idsOf p₁ = xs ∧ idsOf p₂ = ys :=
  List.map_eq_append_iff.mp h

/-- The height of a port above a node around its component's assemblies. -/
theorem height_of_split (h : model.WellFormed) {c x : List Text}
    (hp : idsOf p = c ++ x) (hm : IsPath model.nodes (w ++ p ++ [n, m])) {top : Text}
    (htop : (idsOf w ++ c).getLast? = some top) :
    model.getHeightToParent m.id top - 2 = x.length := by
  obtain ⟨p₁, p₂, rfl, rfl, rfl⟩ := exists_append_of_idsOf hp
  have hids : idsOf w ++ idsOf p₁ = idsOf (w ++ p₁) := by simp [idsOf]
  rw [hids, idsOf, List.getLast?_map] at htop
  obtain ⟨node, hlast, rfl⟩ := Option.map_eq_some_iff.mp htop
  obtain ⟨u, hu⟩ := List.getLast?_eq_some_iff.mp hlast
  have hpath : IsPath model.nodes (u ++ node :: ((p₂ ++ [n]) ++ [m])) := by
    have hassoc : w ++ (p₁ ++ p₂) ++ [n, m] = (w ++ p₁) ++ (p₂ ++ [n, m]) := by simp
    rw [hassoc, hu] at hm
    simpa using hm
  rw [h.identified.getHeightToParent_path hpath]
  simp only [idsOf, List.length_append, List.length_map, List.length_singleton]
  omega

/-- **The shared parent of ports in different assemblies** ends the common part of the assemblies
around them, and the ports are as high above it as there are assemblies beside the common part. -/
theorem shared_heights (h : model.WellFormed) (hw : AboveAssemblies model w)
    (hr : ReplicaPath model w p r) (hr' : ReplicaPath model w q r')
    (hm : IsPath model.nodes (w ++ p ++ [r.component, m]))
    (hn : IsPath model.nodes (w ++ q ++ [r'.component, n]))
    (hinter : model.getParentNodeAt m.id 2 ≠ model.getParentNodeAt n.id 2) :
    ∃ c x y : List Text, idsOf p = c ++ x ∧ idsOf q = c ++ y ∧ x.Disjoint y ∧
      model.getHeightToParent m.id (model.getSharedParent m.id n.id) - 2 = x.length ∧
      model.getHeightToParent n.id (model.getSharedParent m.id n.id) - 2 = y.length := by
  have hids : ∀ l l' : List Node, idsOf (l ++ l') = idsOf l ++ idsOf l' := fun _ _ =>
    List.map_append
  have hm' : IsPath model.nodes ((w ++ p ++ [r.component]) ++ [m]) := by simpa using hm
  have hn' : IsPath model.nodes ((w ++ q ++ [r'.component]) ++ [n]) := by simpa using hn
  -- the components are different, and neither is above the other
  have hne : r.component.id ≠ r'.component.id := by
    intro heq
    refine hinter ?_
    have hparent : ∀ {l : List Node} {k c : Node}, IsPath model.nodes (l ++ [c, k]) →
        model.getParentNodeAt k.id 2 = model.getParentNode c.id := by
      intro l k c hpath
      rw [Document.getParentNodeAt, Document.getParentNodeAt, Document.getParentNodeAt,
        h.identified.getParentNode_of_isPath hpath]
    rw [hparent hm, hparent hn, heq]
  have hcq := component_notMem h hr hr'
  have hcp := component_notMem h hr' hr
  have hsame : SameTree (idsOf w ++ idsOf p) (idsOf w ++ idsOf q) := by
    rw [← hids, ← hids]
    exact h.identified.sameTree_of_isPath hr.isPath.left hr'.isPath.left
  obtain ⟨c, x, y, hpc, hqc, hdis⟩ := hsame.append_left.exists_fork
  refine ⟨c, x, y, hpc, hqc, hdis, ?_⟩
  have hne_nil : idsOf w ++ c ≠ [] := by simp [idsOf, hw.ne_nil]
  have hshared : model.getSharedParent m.id n.id = (idsOf w ++ c).getLast hne_nil := by
    have hup : ∀ {l : List Node} {k : Node} {c z : List Text} {r : ComponentReplication},
        idsOf l = c ++ z → IsPath model.nodes ((w ++ l ++ [r.component]) ++ [k]) →
        model.ancestors k.id = ((idsOf w ++ c) ++ (z ++ [r.component.id])).reverse := by
      intro l k c z r hl hk
      rw [h.identified.ancestors_of_isPath hk, hids, hids, hl]
      simp [idsOf]
    have hnd : ((idsOf w ++ c) ++ (x ++ [r.component.id])).Nodup := by
      have := h.identified.nodup_of_isPath hr.isPath
      rw [hids, hids, hpc] at this
      simpa [idsOf] using this
    have hdis' : (x ++ [r.component.id]).Disjoint (y ++ [r'.component.id]) := by
      rw [hids, hqc] at hcq
      rw [hids, hpc] at hcp
      simp only [List.mem_append, not_or] at hcp hcq
      intro a hax hay
      rcases List.mem_append.mp hax with hax | hax <;> rcases List.mem_append.mp hay with hay | hay
      · exact hdis hax hay
      · exact hcp.2.2 (List.mem_singleton.mp hay ▸ hax)
      · exact hcq.2.2 (List.mem_singleton.mp hax ▸ hay)
      · exact hne ((List.mem_singleton.mp hax).symm.trans (List.mem_singleton.mp hay))
    rw [Document.getSharedParent, hup hpc hm', hup hqc hn', 
      find?_reverse_fork (fun a => by simp [or_assoc, or_comm, or_left_comm]) hnd hdis' hne_nil]
    rfl
  have hlast : (idsOf w ++ c).getLast? = some (model.getSharedParent m.id n.id) := by
    rw [hshared, List.getLast?_eq_some_getLast]
  exact ⟨height_of_split h hpc hm hlast, height_of_split h hqc hn hlast⟩

/-- The loop over the first `n` indices finds out whether they are the same. -/
theorem nonMatchingParents_eq {i j : List Nat} {n : Nat} (hi : n ≤ i.length) (hj : n ≤ j.length) :
    Model.nonMatchingParents i j n = some (decide (i.take n ≠ j.take n)) := by
  induction n with
  | zero => simp [Model.nonMatchingParents]
  | succ n ih =>
    have hstep := ih (by omega) (by omega)
    unfold Model.nonMatchingParents at hstep ⊢
    rw [List.range_succ, List.foldlM_append, hstep]
    have hn : i[n]? = some i[n] ∧ j[n]? = some j[n] :=
      ⟨List.getElem?_eq_getElem (by omega), List.getElem?_eq_getElem (by omega)⟩
    simp only [List.foldlM_cons, List.foldlM_nil, Option.bind_eq_bind, Option.bind_some, hn.1, hn.2]
    have hsucc : i.take (n + 1) = j.take (n + 1) ↔ i.take n = j.take n ∧ i[n] = j[n] := by
      have hlen : (i.take n).length = (j.take n).length := by
        rw [List.length_take, List.length_take]
        omega
      rw [List.take_add_one, List.take_add_one, hn.1, hn.2]
      constructor
      · intro heq
        obtain ⟨htake, hlast⟩ := List.append_inj heq hlen
        exact ⟨htake, by simpa using hlast⟩
      · rintro ⟨htake, hlast⟩
        rw [htake, hlast]
    simp only [ne_eq, hsucc, not_and_or, Bool.decide_or]
    rfl

/-- **An inter-assembly connection** joins two replicas whose index tuples agree on every assembly
around both ports. The assertion holds and no index is out of bounds. -/
theorem connectTarget_eq (h : model.WellFormed) (hw : AboveAssemblies model w)
    (hr : ReplicaPath model w p r) (hr' : ReplicaPath model w q r')
    (hm : IsPath model.nodes (w ++ p ++ [r.component, m]))
    (hn : IsPath model.nodes (w ++ q ++ [r'.component, n]))
    (hinter : model.getParentNodeAt m.id 2 ≠ model.getParentNodeAt n.id 2) (messages : Model.Messages)
    {i j : List Nat} (hi : i.length = p.length) (hj : j.length = q.length) (inter : Bool) :
    model.connectTarget ⟨m.id, n.id, inter⟩ i messages j =
      some (if model.SharedAgree m.id i n.id j then
        Model.connectPorts messages (Model.portUid m.id i) (Model.portUid n.id j) else messages) := by
  obtain ⟨c, x, y, hpc, hqc, hdis, hsource, htarget⟩ := shared_heights h hw hr hr' hm hn hinter
  have hlen : ∀ {l : List Node} {k : List Nat} {z : List Text}, idsOf l = c ++ z →
      k.length = l.length → k.length = (c ++ z).length := fun hl hk => by
    rw [hk, ← hl, idsOf, List.length_map]
  have hi' := hlen hpc hi
  have hj' := hlen hqc hj
  have hshared : model.SharedAgree m.id i n.id j ↔ i.take c.length = j.take c.length := by
    have hnd : (c ++ x).Nodup := by
      have := h.identified.nodup_of_isPath hr.isPath.left
      rw [idsOf, List.map_append] at this
      exact hpc ▸ this.of_append_right
    rw [Model.SharedAgree, assembliesAbove_eq h hw hr hm, assembliesAbove_eq h hw hr' hn, hpc, hqc]
    exact agreeOnShared_fork hnd hdis hi' hj'
  rw [List.length_append] at hi' hj'
  have hindex : (i.length : Int) - x.length = c.length ∧ (j.length : Int) - y.length = c.length := by
    omega
  unfold Model.connectTarget
  simp only [hsource, htarget, hindex.1, hindex.2, ne_eq, not_true_eq_false, if_false,
    Int.toNat_natCast]
  rw [nonMatchingParents_eq (by omega) (by omega), Option.map_some]
  by_cases hagree : i.take c.length = j.take c.length
  · simp [hagree, hshared]
  · simp [hagree, hshared]

end Sem.Re

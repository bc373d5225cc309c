import Mathlib.Algebra.BigOperators.Group.List.Basic
import Mathlib.Data.List.Perm.Basic
import Sem.Medea.EdgeImport

/-!
# Every edge of an import is settled once

* `EdgeImport.work`: what the loop has left to do, which every pass makes less.
* `EdgeHost.Ready`: what the queues have between the passes.
* `edgeLoop_spec`: the loop ends with empty queues.
* `importEdges_settles`: every edge is constructed, is an edge that is there, is reported or is
  suppressed, and none of them twice.
-/

namespace Sem.Medea

/-! ## The queues -/

/-- The queue of one kind, and the others. -/
theorem exists_flatMap_update {α β : Type*} [DecidableEq α] {ks : List α} (hks : ks.Nodup) {k : α}
    (hk : k ∈ ks) (f : α → List β) : ∃ rest, ∀ l : List β,
      (ks.flatMap (Function.update f k l)).Perm (l ++ rest) := by
  obtain ⟨before, after, rfl⟩ := List.append_of_mem hk
  obtain ⟨hbefore, hafter⟩ : k ∉ before ∧ k ∉ after := by
    rw [List.nodup_middle, List.nodup_cons, List.mem_append, not_or] at hks
    exact hks.1
  have hother : ∀ l : List β, ∀ ks : List α, k ∉ ks →
      ks.flatMap (Function.update f k l) = ks.flatMap f := fun l ks hk =>
    List.flatMap_congr fun m hm => Function.update_of_ne (fun h : m = k => hk (h ▸ hm)) l f
  refine ⟨before.flatMap f ++ after.flatMap f, fun l => ?_⟩
  rw [List.flatMap_append, List.flatMap_cons, Function.update_self, hother l before hbefore,
    hother l after hafter]
  exact List.perm_append_comm_assoc _ _ _

/-- The lines of queued edges. -/
def lines (l : List QueuedEdge) : List Nat := l.map (·.edge.lineNumber)

/-- One more than the kinds that an edge may still become. -/
def QueuedEdge.weight (queued : QueuedEdge) : Nat := queued.edgeKinds.length + 1

/-- How many attempts some queued edges may still take. -/
def weights (l : List QueuedEdge) : Nat := (l.map QueuedEdge.weight).sum

namespace EdgeImport

variable {W : Type} {s : EdgeImport W}

/-- The edges that are in queues. -/
def queued (s : EdgeImport W) : List QueuedEdge := getEdgeOrderIndexes.flatMap s.queues

/-- The edges that have been dealt with, in one way or another. -/
def settled (s : EdgeImport W) : List Nat :=
  s.constructed ++ s.matched ++ s.reported ++ s.suppressed

/-- The edges that the import has to account for. -/
def accounts (s : EdgeImport W) : List Nat := s.settled ++ lines s.queued

/-- **What is left to do.** -/
def work (s : EdgeImport W) : Nat := weights s.queued

theorem queued_enqueue {kind : EdgeKind} (hkind : kind ∈ getEdgeOrderIndexes)
    (queued : QueuedEdge) : (s.enqueue kind queued).queued.Perm (queued :: s.queued) := by
  obtain ⟨rest, hrest⟩ := exists_flatMap_update (by decide) hkind s.queues
  have hold := hrest (s.queues kind)
  rw [Function.update_eq_self] at hold
  refine (hrest _).trans ?_
  rw [List.append_assoc]
  exact List.perm_middle.trans (hold.symm.cons _)

theorem accounts_enqueue {kind : EdgeKind} (hkind : kind ∈ getEdgeOrderIndexes)
    (queued : QueuedEdge) :
    (s.enqueue kind queued).accounts.Perm (queued.edge.lineNumber :: s.accounts) := by
  have hlines := (queued_enqueue (s := s) hkind queued).map (·.edge.lineNumber)
  exact (hlines.append_left _).trans List.perm_middle

theorem work_enqueue {kind : EdgeKind} (hkind : kind ∈ getEdgeOrderIndexes)
    (queued : QueuedEdge) : (s.enqueue kind queued).work = queued.weight + s.work := by
  rw [work, weights, ((queued_enqueue hkind queued).map QueuedEdge.weight).sum_eq, List.map_cons,
    List.sum_cons]
  rfl

theorem accounts_report (line : Nat) :
    (accounts { s with reported := s.reported ++ [line] }).Perm (line :: s.accounts) := by
  refine List.perm_iff_count.mpr fun n => ?_
  simp only [accounts, settled, queued, List.count_append, List.count_cons, List.count_nil]
  omega

end EdgeImport

/-! ## A pass over a queue -/

namespace EdgeHost

variable {W : Type} {host : EdgeHost W}

/-- The functions that an import calls for edges destroy no node. -/
structure KeepsNodes (host : EdgeHost W) : Prop where
  constructEdge : ∀ world kind source target n, host.gotNode world n = true →
    host.gotNode (host.constructEdge world kind source target).1 n = true
  storeEdge : ∀ world edge entity n, host.gotNode world n = true →
    host.gotNode (host.storeEdge world edge entity) n = true
  setData : ∀ world edge entity n, host.gotNode world n = true →
    host.gotNode (host.setData world edge entity) n = true

/-- The model has the ends of the edge. -/
def GotEnds (host : EdgeHost W) (world : W) (queued : QueuedEdge) : Prop :=
  host.gotNode world queued.sourceID = true ∧ host.gotNode world queued.targetID = true

/-- What a part of a pass does: the edges `done` are in the model now, the edges `rest` are not. -/
structure Passed (host : EdgeHost W) (p p' : EdgePass W) (done rest : List QueuedEdge) : Prop where
  constructedEdges : p'.constructedEdges = p.constructedEdges + done.length
  unconstructedEdges : p'.unconstructedEdges = p.unconstructedEdges ++ rest
  settled : p'.state.settled.Perm (p.state.settled ++ lines done)
  queues : p'.state.queues = p.state.queues
  nodes : ∀ n, host.gotNode p.state.world n = true → host.gotNode p'.state.world n = true

theorem Passed.trans {p p' p'' : EdgePass W} {done done' rest rest' : List QueuedEdge}
    (h : Passed host p p' done rest) (h' : Passed host p' p'' done' rest') :
    Passed host p p'' (done ++ done') (rest ++ rest') where
  constructedEdges := by
    rw [h'.constructedEdges, h.constructedEdges, List.length_append, Nat.add_assoc]
  unconstructedEdges := by
    rw [h'.unconstructedEdges, h.unconstructedEdges, List.append_assoc]
  settled := by
    rw [lines, List.map_append, ← List.append_assoc]
    exact h'.settled.trans (h.settled.append_right _)
  queues := h'.queues.trans h.queues
  nodes n hn := h'.nodes n (h.nodes n hn)

theorem settled_matched (s : EdgeImport W) (world : W) (line : Nat) :
    (EdgeImport.settled { s with world := world, matched := s.matched ++ [line] }).Perm
      (s.settled ++ [line]) := by
  refine List.perm_iff_count.mpr fun n => ?_
  simp only [EdgeImport.settled, List.count_append]
  omega

theorem settled_constructed (s : EdgeImport W) (world : W) (line : Nat) :
    (EdgeImport.settled { s with world := world, constructed := s.constructed ++ [line] }).Perm
      (s.settled ++ [line]) := by
  refine List.perm_iff_count.mpr fun n => ?_
  simp only [EdgeImport.settled, List.count_append]
  omega

/-- **One edge of a queue** is in the model afterwards, or is kept for another try. -/
theorem passed_constructQueued (hkeeps : host.KeepsNodes) (kind : EdgeKind) (p : EdgePass W)
    {queued : QueuedEdge} (hends : host.GotEnds p.state.world queued) :
    Passed host p (host.constructQueued kind p queued) [queued] [] ∨
      Passed host p (host.constructQueued kind p queued) [] [queued] := by
  unfold constructQueued
  dsimp only
  rw [if_pos (by rw [hends.1, hends.2]; rfl)]
  split
  · left
    exact ⟨rfl, (List.append_nil _).symm, settled_matched _ _ _, rfl,
      fun n hn => hkeeps.setData _ _ _ n hn⟩
  · have hconstruct := hkeeps.constructEdge p.state.world kind queued.sourceID queued.targetID
    split
    · rename_i world edge heq
      rw [heq] at hconstruct
      left
      exact ⟨rfl, (List.append_nil _).symm, settled_constructed _ _ _, rfl,
        fun n hn => hkeeps.setData _ _ _ n (hkeeps.storeEdge _ _ _ n (hconstruct n hn))⟩
    · rename_i world heq
      rw [heq] at hconstruct
      right
      refine ⟨rfl, rfl, ?_, rfl, hconstruct⟩
      rw [lines, List.map_nil, List.append_nil]
      exact List.Perm.refl _

/-- **A pass over a queue.** -/
theorem passed_foldl (hkeeps : host.KeepsNodes) (kind : EdgeKind) (l : List QueuedEdge)
    (p : EdgePass W) (hends : ∀ queued ∈ l, host.GotEnds p.state.world queued) :
    ∃ done rest, l.Perm (done ++ rest) ∧
      Passed host p (l.foldl (host.constructQueued kind) p) done rest := by
  induction l generalizing p with
  | nil =>
    refine ⟨[], [], List.Perm.refl _, rfl, (List.append_nil _).symm, ?_, rfl, fun _ hn => hn⟩
    rw [lines, List.map_nil, List.append_nil]
    exact List.Perm.refl _
  | cons queued l ih =>
    have hstep := passed_constructQueued hkeeps kind p (hends queued List.mem_cons_self)
    have hnodes : ∀ n, host.gotNode p.state.world n = true →
        host.gotNode (host.constructQueued kind p queued).state.world n = true := by
      rcases hstep with h | h <;> exact h.nodes
    obtain ⟨done, rest, hperm, hpassed⟩ := ih (host.constructQueued kind p queued)
      fun other hother => ⟨hnodes _ (hends other (List.mem_cons_of_mem _ hother)).1,
        hnodes _ (hends other (List.mem_cons_of_mem _ hother)).2⟩
    rcases hstep with h | h
    · exact ⟨queued :: done, rest, hperm.cons _, h.trans hpassed⟩
    · exact ⟨done, queued :: rest, (hperm.cons _).trans List.perm_middle.symm, h.trans hpassed⟩

/-! ## What the queues have -/

/-- An edge waits in the queue of the first of its kinds, and the model has its ends. -/
structure Waits (host : EdgeHost W) (world : W) (kind : EdgeKind) (queued : QueuedEdge) : Prop where
  first : queued.edgeKinds.head? = some kind
  ordered : queued.edgeKinds ⊆ getEdgeOrderIndexes
  ends : host.GotEnds world queued

/-- Every queued edge can be looked at. -/
def Ready (host : EdgeHost W) (s : EdgeImport W) : Prop :=
  ∀ kind, ∀ queued ∈ s.queues kind, host.Waits s.world kind queued

theorem Waits.kind_mem {world : W} {kind : EdgeKind} {queued : QueuedEdge}
    (h : host.Waits world kind queued) : kind ∈ getEdgeOrderIndexes :=
  h.ordered (List.mem_of_mem_head? h.first)

theorem Ready.enqueue {s : EdgeImport W} (h : host.Ready s) {queued : QueuedEdge}
    {kind : EdgeKind} (hwaits : host.Waits s.world kind queued) :
    host.Ready (s.enqueue kind queued) := by
  intro kind' other hother
  simp only [EdgeImport.enqueue] at hother
  by_cases hkind : kind' = kind
  · subst hkind
    rw [Function.update_self, List.mem_append, List.mem_singleton] at hother
    rcases hother with hold | rfl
    · exact h kind' other hold
    · exact hwaits
  · rw [Function.update_of_ne hkind] at hother
    exact h kind' other hother

/-- What putting back edges does: it makes the work less where they are not tried again as they
are. -/
structure Requeued (host : EdgeHost W) (retry : Bool) (l : List QueuedEdge)
    (s s' : EdgeImport W) : Prop where
  ready : host.Ready s'
  world : s'.world = s.world
  accounts : s'.accounts.Perm (s.accounts ++ lines l)
  work : s'.work + (if retry then 0 else l.length) ≤ s.work + weights l

theorem requeued_enqueue {s : EdgeImport W} (h : host.Ready s) {kind : EdgeKind}
    {queued : QueuedEdge} (hwaits : host.Waits s.world kind queued) (retry : Bool)
    {edgeKinds : List EdgeKind} (hlength : queued.weight + (if retry then 0 else 1) ≤
      edgeKinds.length + 1) :
    host.Requeued retry [{ queued with edgeKinds := edgeKinds }] s (s.enqueue kind queued) where
  ready := h.enqueue hwaits
  world := rfl
  accounts := (EdgeImport.accounts_enqueue hwaits.kind_mem queued).trans
    (List.perm_append_singleton _ _).symm
  work := by
    rw [EdgeImport.work_enqueue hwaits.kind_mem]
    simp only [weights, QueuedEdge.weight, List.map_cons, List.map_nil, List.sum_cons,
      List.sum_nil, List.length_singleton] at hlength ⊢
    omega

/-- **An edge that could not be constructed** goes back to a queue, or is reported. -/
theorem requeued_requeue {s : EdgeImport W} (h : host.Ready s) {kind : EdgeKind}
    (constructedEdges : Nat) {queued : QueuedEdge} (hwaits : host.Waits s.world kind queued) :
    host.Requeued (constructedEdges ≠ 0) [queued] s
      (EdgeImport.requeue kind constructedEdges s queued) := by
  obtain ⟨edge, source, target, edgeKinds⟩ := queued
  obtain ⟨ks, rfl⟩ : ∃ ks, edgeKinds = kind :: ks := by
    obtain ⟨ks, hks⟩ := List.head?_eq_some_iff.mp hwaits.first
    exact ⟨ks, hks⟩
  unfold EdgeImport.requeue
  by_cases hzero : constructedEdges = 0
  · have hfilter : ((kind :: ks).filter (· ≠ kind)) = ks.filter (· ≠ kind) := by simp
    have hsub : ks.filter (· ≠ kind) ⊆ getEdgeOrderIndexes := fun k hk =>
      hwaits.ordered (List.mem_cons_of_mem _ (List.mem_of_mem_filter hk))
    have hlength := List.length_filter_le (fun k => decide (k ≠ kind)) ks
    simp only [hzero, hfilter, if_true]
    cases hks : ks.filter (· ≠ kind) with
    | nil =>
      refine ⟨h, rfl, ?_, ?_⟩
      · exact (EdgeImport.accounts_report _).trans (List.perm_append_singleton _ _).symm
      · simp [EdgeImport.work, EdgeImport.queued, weights, QueuedEdge.weight]
    | cons next rest =>
      rw [hks] at hsub hlength
      have hnext : host.Waits s.world next ⟨edge, source, target, next :: rest⟩ :=
        ⟨rfl, hsub, hwaits.ends⟩
      refine requeued_enqueue h hnext _ ?_
      simp only [QueuedEdge.weight, List.length_cons] at hlength ⊢
      simp
      omega
  · simp only [hzero, if_false]
    refine requeued_enqueue h hwaits _ ?_
    simp [QueuedEdge.weight, hzero]

/-- **All edges that could not be constructed.** -/
theorem requeued_foldl {kind : EdgeKind} (constructedEdges : Nat) (l : List QueuedEdge)
    {s : EdgeImport W} (h : host.Ready s) (hwaits : ∀ queued ∈ l, host.Waits s.world kind queued) :
    host.Requeued (constructedEdges ≠ 0) l s
      (l.foldl (EdgeImport.requeue kind constructedEdges) s) := by
  induction l generalizing s with
  | nil =>
    refine ⟨h, rfl, ?_, by simp [weights]⟩
    rw [lines, List.map_nil, List.append_nil]
    exact List.Perm.refl _
  | cons queued l ih =>
    have hstep := requeued_requeue h constructedEdges (hwaits queued List.mem_cons_self)
    have hrest := ih hstep.ready fun other hother =>
      hstep.world ▸ hwaits other (List.mem_cons_of_mem _ hother)
    refine ⟨hrest.ready, hrest.world.trans hstep.world, ?_, ?_⟩
    · have hlines : lines (queued :: l) = lines [queued] ++ lines l := rfl
      rw [hlines, ← List.append_assoc]
      exact hrest.accounts.trans (hstep.accounts.append_right _)
    · have hwork := hstep.work
      have hwork' := hrest.work
      simp only [weights, List.map_cons, List.map_nil, List.sum_cons, List.sum_nil,
        List.length_cons, List.length_nil, List.foldl_cons] at hwork hwork' ⊢
      split_ifs at hwork hwork' ⊢ <;> omega

/-! ## The loop -/

theorem length_le_weights (l : List QueuedEdge) : l.length ≤ weights l := by
  induction l with
  | nil => exact Nat.le_refl 0
  | cons queued l ih =>
    rw [List.length_cons, weights, List.map_cons, List.sum_cons, QueuedEdge.weight]
    rw [weights] at ih
    omega

/-- **A pass accounts for every edge and leaves less to do.** -/
theorem edgePass_spec (hkeeps : host.KeepsNodes) {s : EdgeImport W} (h : host.Ready s)
    {kind : EdgeKind} (hkind : kind ∈ getEdgeOrderIndexes) (hne : s.queues kind ≠ []) :
    host.Ready (host.edgePass kind s) ∧ (host.edgePass kind s).accounts.Perm s.accounts ∧
      (host.edgePass kind s).work < s.work := by
  set s₀ : EdgeImport W := { s with queues := Function.update s.queues kind [] } with hs₀
  obtain ⟨done, rest, hperm, hpassed⟩ := passed_foldl hkeeps kind (s.queues kind) ⟨s₀, 0, []⟩
    fun queued hqueued => (h kind queued hqueued).ends
  set p := (s.queues kind).foldl (host.constructQueued kind) ⟨s₀, 0, []⟩ with hp
  have hqueues : p.state.queues = Function.update s.queues kind [] := hpassed.queues
  have hqueued : s.queued.Perm (s.queues kind ++ p.state.queued) := by
    obtain ⟨others, hothers⟩ := exists_flatMap_update (by decide) hkind s.queues
    have hold := hothers (s.queues kind)
    rw [Function.update_eq_self] at hold
    have hnew := hothers []
    rw [List.nil_append, ← hqueues] at hnew
    exact hold.trans (hnew.symm.append_left _)
  have hready : host.Ready p.state := by
    intro kind' queued hmem
    rw [hqueues] at hmem
    by_cases heq : kind' = kind
    · subst heq
      rw [Function.update_self] at hmem
      cases hmem
    · rw [Function.update_of_ne heq] at hmem
      have hwaits := h kind' queued hmem
      exact { hwaits with
        ends := ⟨hpassed.nodes _ hwaits.ends.1, hpassed.nodes _ hwaits.ends.2⟩ }
  have hrest : p.unconstructedEdges = rest := by
    rw [hpassed.unconstructedEdges, List.nil_append]
  have hwaits : ∀ queued ∈ rest, host.Waits p.state.world kind queued := fun queued hmem => by
    have hin : queued ∈ s.queues kind := hperm.mem_iff.mpr (List.mem_append_right _ hmem)
    have hwaits := h kind queued hin
    exact { hwaits with
      ends := ⟨hpassed.nodes _ hwaits.ends.1, hpassed.nodes _ hwaits.ends.2⟩ }
  have hresult : host.edgePass kind s =
      rest.foldl (EdgeImport.requeue kind p.constructedEdges) p.state := by
    rw [← hrest]
    rfl
  have hrequeued := requeued_foldl p.constructedEdges rest hready hwaits
  rw [← hresult] at hrequeued
  refine ⟨hrequeued.ready, ?_, ?_⟩
  · -- the edges of the queue are done or put back
    have hsettled : p.state.settled.Perm (s.settled ++ lines done) := hpassed.settled
    have hlines := (hqueued.trans (hperm.append_right _)).map (·.edge.lineNumber)
    have haccounts := hrequeued.accounts
    refine List.perm_iff_count.mpr fun n => ?_
    have h₁ := hsettled.count_eq n
    have h₂ := hlines.count_eq n
    have h₃ := haccounts.count_eq n
    simp only [EdgeImport.accounts, lines, List.map_append, List.count_append] at h₁ h₂ h₃ ⊢
    omega
  · have hwork : s.work = weights done + weights rest + p.state.work := by
      rw [EdgeImport.work, EdgeImport.work, weights, (hqueued.map QueuedEdge.weight).sum_eq,
        List.map_append, List.sum_append, (hperm.map QueuedEdge.weight).sum_eq, List.map_append,
        List.sum_append]
      rfl
    have hpos : 0 < (s.queues kind).length := List.length_pos_iff.mpr hne
    rw [hperm.length_eq, List.length_append] at hpos
    have hleft := hrequeued.work
    have hdone := length_le_weights done
    have hcount : p.constructedEdges = done.length := by
      rw [hpassed.constructedEdges, Nat.zero_add]
    rw [hcount] at hleft
    simp only [ne_eq, decide_not, Bool.not_eq_eq_eq_not, Bool.not_true, decide_eq_false_iff_not]
      at hleft
    split_ifs at hleft <;> omega

theorem queued_of_find?_none {s : EdgeImport W}
    (h : getEdgeOrderIndexes.find? (fun kind => !(s.queues kind).isEmpty) = none) :
    s.queued = [] := by
  refine List.flatMap_eq_nil_iff.mpr fun kind hkind => ?_
  simpa using List.find?_eq_none.mp h kind hkind

/-- **The loop ends**, after at most as many passes as there is work, with empty queues. -/
theorem edgeLoop_spec (hkeeps : host.KeepsNodes) (fuel : Nat) {s : EdgeImport W}
    (h : host.Ready s) (hfuel : s.work ≤ fuel) :
    ∃ s', host.edgeLoop fuel s = some s' ∧ s'.accounts.Perm s.accounts ∧ s'.queued = [] := by
  induction fuel generalizing s with
  | zero =>
    rw [edgeLoop]
    cases hfind : getEdgeOrderIndexes.find? (fun kind => !(s.queues kind).isEmpty) with
    | none => exact ⟨s, rfl, List.Perm.refl _, queued_of_find?_none hfind⟩
    | some kind =>
      have hne : s.queues kind ≠ [] := by simpa using List.find?_some hfind
      have hless := (edgePass_spec hkeeps h (List.mem_of_find?_eq_some hfind) hne).2.2
      omega
  | succ fuel ih =>
    rw [edgeLoop]
    cases hfind : getEdgeOrderIndexes.find? (fun kind => !(s.queues kind).isEmpty) with
    | none => exact ⟨s, rfl, List.Perm.refl _, queued_of_find?_none hfind⟩
    | some kind =>
      have hne : s.queues kind ≠ [] := by simpa using List.find?_some hfind
      obtain ⟨hready, haccounts, hless⟩ :=
        edgePass_spec hkeeps h (List.mem_of_find?_eq_some hfind) hne
      obtain ⟨s', hs', hperm, hempty⟩ := ih hready (by omega)
      exact ⟨s', hs', hperm.trans haccounts, hempty⟩

/-! ## The edges of the document -/

/-- An edge that has kinds and ends. -/
structure Resolved (host : EdgeHost W) (world : W) (queued : QueuedEdge) : Prop where
  kinds : queued.edgeKinds ≠ []
  ordered : queued.edgeKinds ⊆ getEdgeOrderIndexes
  ends : host.GotEnds world queued

theorem gotNode_of_findEnd {world : W} {isPartialImport : Bool} {entity : Option TempNode}
    {idInt id : Int} (h : host.findEnd world isPartialImport entity idInt = some id) :
    host.gotNode world id = true := by
  unfold findEnd at h
  split at h
  · split at h
    · rename_i hgot
      obtain rfl := Option.some.inj h
      exact hgot
    · cases h
  · split at h
    · rename_i hgot
      obtain rfl := Option.some.inj h
      exact (Bool.and_eq_true _ _ ▸ hgot).2
    · cases h

theorem resolved_resolveEdge {world : W} {isPartialImport : Bool} {edge : TempEdge}
    {queued : QueuedEdge} (h : host.resolveEdge world isPartialImport edge = some queued) :
    host.Resolved world queued ∧ queued.edge = edge := by
  unfold resolveEdge at h
  split at h
  · rename_i source target hsource htarget
    split at h
    · cases h
    · rename_i hkinds
      obtain rfl := Option.some.inj h
      refine ⟨⟨hkinds, ?_, gotNode_of_findEnd hsource, gotNode_of_findEnd htarget⟩, rfl⟩
      rw [edgeKindsOf]
      split
      · rename_i hkind
        intro kind hmem
        obtain rfl := List.mem_singleton.mp hmem
        cases hk : edge.kind <;> simp_all [getEdgeOrderIndexes]
      · exact List.filter_subset_self _
  · cases h

/-- The source of an edge is in the document, where an old version makes that necessary. -/
def HasSource (oldVersion : Bool) (edge : TempEdge) : Prop :=
  oldVersion = true → edge.sourceEntity ≠ none

theorem suppressImportEdgeError_of_hasSource {oldVersion : Bool} {edge : TempEdge}
    (h : HasSource oldVersion edge) :
    ∃ suppress, suppressImportEdgeError oldVersion edge = some suppress := by
  unfold suppressImportEdgeError
  split
  · rename_i hold
    obtain ⟨source, hsource⟩ := Option.ne_none_iff_exists'.mp (h hold)
    rw [hsource]
    exact ⟨_, rfl⟩
  · exact ⟨false, rfl⟩

/-- **The first loop** settles an edge or passes it on with its ends and kinds. -/
theorem resolveEdges_spec (isPartialImport oldVersion : Bool) (edges : List TempEdge)
    (h : ∀ edge ∈ edges, HasSource oldVersion edge) (s : EdgeImport W)
    (edgesList : List QueuedEdge)
    (hlist : ∀ queued ∈ edgesList, host.Resolved s.world queued) :
    ∃ s' edgesList', host.resolveEdges isPartialImport oldVersion edges (s, edgesList) =
        some (s', edgesList') ∧ s'.world = s.world ∧ s'.queues = s.queues ∧
      (∀ queued ∈ edgesList', host.Resolved s.world queued) ∧
      (s'.settled ++ lines edgesList').Perm
        (s.settled ++ lines edgesList ++ edges.map (·.lineNumber)) := by
  induction edges generalizing s edgesList with
  | nil =>
    refine ⟨s, edgesList, rfl, rfl, rfl, hlist, ?_⟩
    rw [List.map_nil, List.append_nil]
  | cons edge edges ih =>
    have hedges := fun edge hedge => h edge (List.mem_cons_of_mem _ hedge)
    rw [resolveEdges]
    cases hresolve : host.resolveEdge s.world isPartialImport edge with
    | some queued =>
      obtain ⟨hresolved, hedge⟩ := resolved_resolveEdge hresolve
      obtain ⟨s', edgesList', heq, hworld, hqueues, hlist', hperm⟩ := ih hedges s
        (edgesList ++ [queued]) (List.forall_mem_append.mpr
          ⟨hlist, List.forall_mem_singleton.mpr hresolved⟩)
      refine ⟨s', edgesList', heq, hworld, hqueues, hlist', hperm.trans ?_⟩
      rw [lines, List.map_append, List.map_singleton, hedge]
      simp [lines]
    | none =>
      obtain ⟨suppress, hsuppress⟩ :=
        suppressImportEdgeError_of_hasSource (h edge List.mem_cons_self)
      rw [hsuppress]
      cases suppress with
      | true =>
        obtain ⟨s', edgesList', heq, hworld, hqueues, hlist', hperm⟩ := ih hedges
          { s with suppressed := s.suppressed ++ [edge.lineNumber] } edgesList hlist
        refine ⟨s', edgesList', heq, hworld, hqueues, hlist', hperm.trans ?_⟩
        refine List.perm_iff_count.mpr fun n => ?_
        simp only [EdgeImport.settled, List.count_append, List.map_cons, List.count_cons,
          List.count_nil]
        omega
      | false =>
        obtain ⟨s', edgesList', heq, hworld, hqueues, hlist', hperm⟩ := ih hedges
          { s with reported := s.reported ++ [edge.lineNumber] } edgesList hlist
        refine ⟨s', edgesList', heq, hworld, hqueues, hlist', hperm.trans ?_⟩
        refine List.perm_iff_count.mpr fun n => ?_
        simp only [EdgeImport.settled, List.count_append, List.map_cons, List.count_cons,
          List.count_nil]
        omega

/-- The edges with ends and kinds go to their queues. -/
theorem enqueueFirst_foldl (l : List QueuedEdge) {s : EdgeImport W} (h : host.Ready s)
    (hl : ∀ queued ∈ l, host.Resolved s.world queued) :
    host.Ready (l.foldl EdgeImport.enqueueFirst s) ∧
      (l.foldl EdgeImport.enqueueFirst s).accounts.Perm (s.accounts ++ lines l) := by
  induction l generalizing s with
  | nil =>
    refine ⟨h, ?_⟩
    rw [lines, List.map_nil, List.append_nil]
    exact List.Perm.refl _
  | cons queued l ih =>
    have hresolved := hl queued List.mem_cons_self
    obtain ⟨kind, kinds, hkinds⟩ := List.exists_cons_of_ne_nil hresolved.kinds
    have hwaits : host.Waits s.world kind queued :=
      ⟨by rw [hkinds, List.head?_cons], hresolved.ordered, hresolved.ends⟩
    have henqueue : s.enqueueFirst queued = s.enqueue kind queued := by
      rw [EdgeImport.enqueueFirst, hkinds]
    rw [List.foldl_cons, henqueue]
    obtain ⟨hready, hperm⟩ := ih (h.enqueue hwaits)
      fun other hother => hl other (List.mem_cons_of_mem _ hother)
    refine ⟨hready, hperm.trans ?_⟩
    have haccounts := EdgeImport.accounts_enqueue (s := s) hwaits.kind_mem queued
    exact (haccounts.append_right _).trans List.perm_middle.symm

/-- **Every edge of the document is settled once**: the import ends, and each edge is constructed, is
an edge that was there, is reported as failed or is suppressed. -/
theorem importEdges_settles (hkeeps : host.KeepsNodes) (fold : Char → Char)
    (sort : List QueuedEdge → List QueuedEdge) (hsort : ∀ l, (sort l).Perm l)
    (isPartialImport : Bool) (version : List Char) (world : W) (edges : List TempEdge)
    (hsource : ∀ edge ∈ edges, HasSource (isOldVersion fold version) edge) :
    ∃ enough, ∀ fuel ≥ enough, ∃ s,
      host.importEdges fold sort isPartialImport version fuel world edges = some s ∧
      (s.constructed ++ s.matched ++ s.reported ++ s.suppressed).Perm
        (edges.map (·.lineNumber)) := by
  obtain ⟨s, edgesList, heq, hworld, hqueues, hlist, hperm⟩ := resolveEdges_spec isPartialImport
    (isOldVersion fold version) edges hsource ⟨world, fun _ => [], [], [], [], []⟩ []
    fun queued hmem => absurd hmem List.not_mem_nil
  have hready : host.Ready s := by
    intro kind queued hmem
    rw [hqueues] at hmem
    cases hmem
  obtain ⟨hstart, haccounts⟩ := enqueueFirst_foldl (sort edgesList) hready
    fun queued hmem => hworld ▸ hlist queued ((hsort edgesList).mem_iff.mp hmem)
  refine ⟨((sort edgesList).foldl EdgeImport.enqueueFirst s).work, fun fuel hfuel => ?_⟩
  obtain ⟨s', hs', hfinal, hempty⟩ := edgeLoop_spec hkeeps fuel hstart hfuel
  refine ⟨s', ?_, ?_⟩
  · rw [importEdges, heq]
    exact hs'
  · have hnone : s.queued = [] := by
      rw [EdgeImport.queued, hqueues]
      rfl
    have hlines : (lines (sort edgesList)).Perm (lines edgesList) := (hsort edgesList).map _
    have hleft : s'.accounts = s'.settled := by
      rw [EdgeImport.accounts, hempty, lines, List.map_nil, List.append_nil]
    have hnew : s.accounts = s.settled := by
      rw [EdgeImport.accounts, hnone, lines, List.map_nil, List.append_nil]
    rw [hleft] at hfinal
    rw [hnew] at haccounts
    exact (hfinal.trans (haccounts.trans (hlines.append_left _))).trans hperm

end EdgeHost

/-! ## A small model -/

/-- A model with the nodes 1 and 2 that accepts every edge; the edges are its state. -/
def openHost : EdgeHost (List (EdgeKind × Int × Int)) where
  gotNode _ n := n = 1 ∨ n = 2
  canCurrentlyAcceptEdgeKinds _ _ _ _ := true
  getEdgeTo edges kind source target :=
    edges.findIdx? fun e => e = (kind, source, target) ∨ e = (kind, target, source)
  constructEdge edges kind source target := (edges ++ [(kind, source, target)], some edges.length)
  storeEdge edges _ _ := edges
  setData edges _ _ := edges

/-- An assembly edge between two nodes. -/
def assemblyEdge (lineNumber : Nat) (source target : Int) : TempEdge where
  lineNumber := lineNumber
  sourceEntity := some ⟨some source, .other 0, []⟩
  targetEntity := some ⟨some target, .other 0, []⟩
  sourceIDInt := -1
  targetIDInt := -1
  kind := .assembly

/-- Another model of the nodes 1 to 4: an edge from a node is accepted when there is one from the next
node, and one from the node 3 at once. -/
def chainHost : EdgeHost (List (EdgeKind × Int × Int)) where
  gotNode _ n := decide (1 ≤ n ∧ n ≤ 4)
  canCurrentlyAcceptEdgeKinds _ _ _ _ := true
  getEdgeTo edges kind source target := edges.findIdx? fun e => e = (kind, source, target)
  constructEdge edges kind source target :=
    if source = 3 ∨ ∃ e ∈ edges, e.2.1 = source + 1 then
      (edges ++ [(kind, source, target)], some edges.length)
    else (edges, none)
  storeEdge edges _ _ := edges
  setData edges _ _ := edges

/-- Edges from the nodes 1, 2 and 3, the first of them twice, and two that fail: the model accepts
none from the node 4, and has no node 9. -/
def chainEdges : List TempEdge :=
  [assemblyEdge 5 1 4, assemblyEdge 6 2 4, assemblyEdge 7 3 4, assemblyEdge 8 1 4,
    assemblyEdge 9 4 1, assemblyEdge 10 9 1]

/-- The edge from the node 1 that is tried first fails in two passes, and is then the other one. -/
theorem EdgeHost.importEdges_settles_chainHost : (∃ enough, ∀ fuel ≥ enough, ∃ s,
    chainHost.importEdges id id false [] fuel [] chainEdges = some s ∧
      (s.constructed ++ s.matched ++ s.reported ++ s.suppressed).Perm [5, 6, 7, 8, 9, 10]) ∧
    ∃ s, chainHost.importEdges id id false [] 5 [] chainEdges = some s ∧
      s.constructed = [7, 6, 8] ∧ s.matched = [5] ∧ s.reported = [10, 9] := by
  have hkeeps : chainHost.KeepsNodes :=
    ⟨fun _ _ _ _ _ h => h, fun _ _ _ _ h => h, fun _ _ _ _ h => h⟩
  refine ⟨EdgeHost.importEdges_settles hkeeps id id (fun _ => List.Perm.refl _) false [] []
    chainEdges ?_, _, rfl, by decide +kernel, by decide +kernel, by decide +kernel⟩
  intro edge hedge hold
  cases hold

/-- The second of two edges between the same nodes is the first one: it is not constructed, and its
failure is not reported. -/
theorem EdgeHost.not_constructed_or_reported : ∃ s,
    openHost.importEdges id id false [] 2 [] [assemblyEdge 7 1 2, assemblyEdge 8 1 2] = some s ∧
      ¬ (s.constructed ++ s.reported).Perm [7, 8] :=
  ⟨_, rfl, by decide +kernel⟩

end Sem.Medea

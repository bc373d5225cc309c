import Sem.Lib.BackwardSearch
import Sem.Re.ProtobufModelParser

/-!
# Following assembly edges

`GetTerminalSourcesByEdgeKind` follows assembly edges backwards and throws when it meets a node
twice, so that no connection that it finds has one in the other direction.

* `getTerminalSources_ne_outOfFuel`: the recursion ends.
* `transGen_of_mem_connections`: a connection follows assembly edges.
* `not_cyclic_of_mem_connections`: they do not lead back.
* `assemblyConnections_nodup`: a connection is found once.
-/

namespace Sem.Re

open Xml (Text)
open Model

/-! ## Sets of ids -/

theorem mem_setInsert {s t : Text} {set : List Text} :
    t ∈ setInsert s set ↔ t = s ∨ t ∈ set := by
  unfold setInsert
  split
  · rename_i hs
    exact ⟨.inr, fun h => h.elim (fun heq => heq ▸ hs) id⟩
  · rw [List.mem_orderedInsert]

theorem setInsert_nodup {s : Text} {set : List Text} (h : set.Nodup) : (setInsert s set).Nodup := by
  unfold setInsert
  split
  · exact h
  · rename_i hs
    exact (List.perm_orderedInsert _ s set).nodup_iff.mpr (List.nodup_cons.mpr ⟨hs, h⟩)

theorem mem_foldl_setInsert {ids set : List Text} {t : Text} :
    t ∈ ids.foldl (fun set s => setInsert s set) set ↔ t ∈ ids ∨ t ∈ set := by
  induction ids generalizing set with
  | nil => simp
  | cons s ids ih =>
    rw [List.foldl_cons, ih, mem_setInsert, List.mem_cons]
    tauto

theorem foldl_setInsert_nodup {ids set : List Text} (h : set.Nodup) :
    (ids.foldl (fun set s => setInsert s set) set).Nodup := by
  induction ids generalizing set with
  | nil => exact h
  | cons s ids ih => exact ih (setInsert_nodup h)

/-! ## Terminal sources -/

/-- There is an assembly edge from `s` to `t`. -/
def Feeds (model : Model) (s t : Text) : Prop := ∃ e ∈ model.assemblyEdgesTo t, e.source = s

variable {model : Model} {fuel : Nat} {prevIds ids : List Text} {id s : Text}

/-- A successful call met no node twice and visited the source of every edge. -/
theorem getTerminalSources_cases (h : model.getTerminalSources fuel prevIds id = .ok ids) :
    id ∉ prevIds ∧ ∃ fuel', ∀ e ∈ model.assemblyEdgesTo id,
      ∃ connected, model.getTerminalSources fuel' (id :: prevIds) e.source = .ok connected := by
  cases fuel with
  | zero => cases h
  | succ fuel =>
    rw [getTerminalSources] at h
    split at h
    · cases h
    · rename_i hprev
      refine ⟨hprev, fuel, fun e he => ?_⟩
      obtain ⟨set, set', hstep⟩ := exists_of_foldlM_ok h e he
      cases hconnected : model.getTerminalSources fuel (id :: prevIds) e.source with
      | error err =>
        rw [hconnected] at hstep
        cases hstep
      | ok connected => exact ⟨connected, rfl⟩

/-- **No node that leads to the start was met before.** -/
theorem notMem_prevIds (h : model.getTerminalSources fuel prevIds id = .ok ids)
    (hs : Relation.ReflTransGen (Feeds model) s id) : s ∉ prevIds := by
  induction hs generalizing fuel prevIds ids with
  | refl => exact (getTerminalSources_cases h).1
  | tail _ hfeeds ih =>
    obtain ⟨e, he, rfl⟩ := hfeeds
    obtain ⟨-, fuel', hall⟩ := getTerminalSources_cases h
    obtain ⟨connected, hconnected⟩ := hall e he
    exact fun hmem => ih hconnected (List.mem_cons_of_mem _ hmem)

/-- Nor does the start lead back to itself. -/
theorem not_transGen_self (h : model.getTerminalSources fuel prevIds id = .ok ids) :
    ¬ Relation.TransGen (Feeds model) id id := by
  intro hcycle
  obtain ⟨b, hb, e, he, rfl⟩ := Relation.TransGen.tail'_iff.mp hcycle
  obtain ⟨-, fuel', hall⟩ := getTerminalSources_cases h
  obtain ⟨connected, hconnected⟩ := hall e he
  exact notMem_prevIds hconnected hb (List.mem_cons_self ..)

/-- What an edge adds to the set of sources. -/
theorem getTerminalSources_step {e : Edge} {set set' : List Text}
    (h : (do
      let connectedSources ← model.getTerminalSources fuel (id :: prevIds) e.source
      if model.recurseEdges e.source ∧ connectedSources ≠ [] then
        pure (connectedSources.foldl (fun set s => setInsert s set) set)
      else pure (setInsert e.source set)) = Except.ok set') :
    ∃ connected added, model.getTerminalSources fuel (id :: prevIds) e.source = .ok connected ∧
      (added = connected ∨ added = [e.source]) ∧
      set' = added.foldl (fun set s => setInsert s set) set := by
  cases hconnected : model.getTerminalSources fuel (id :: prevIds) e.source with
  | error err =>
    rw [hconnected] at h
    cases h
  | ok connected =>
    rw [hconnected] at h
    have hset : (if model.recurseEdges e.source ∧ connected ≠ [] then
        pure (connected.foldl (fun set s => setInsert s set) set)
      else pure (setInsert e.source set)) = Except.ok (ε := ParseError) set' := h
    split at hset
    · exact ⟨connected, connected, rfl, .inl rfl, (Except.ok.inj hset).symm⟩
    · exact ⟨connected, [e.source], rfl, .inr rfl, (Except.ok.inj hset).symm⟩

/-- **Terminal sources lead to the start.** -/
theorem transGen_of_mem_terminalSources
    (h : model.getTerminalSources fuel prevIds id = .ok ids) (hs : s ∈ ids) :
    Relation.TransGen (Feeds model) s id := by
  induction fuel generalizing prevIds id ids s with
  | zero => cases h
  | succ fuel ih =>
    rw [getTerminalSources] at h
    split at h
    · cases h
    · refine foldlM_ok (fun set => ∀ s ∈ set, Relation.TransGen (Feeds model) s id) h
        (fun _ hmem => nomatch hmem) (fun e he set set' hset hstep s hs => ?_) s hs
      have hedge : Feeds model e.source id := ⟨e, he, rfl⟩
      obtain ⟨connected, added, hconnected, hadded, rfl⟩ := getTerminalSources_step hstep
      rcases mem_foldl_setInsert.mp hs with hs | hs
      · rcases hadded with rfl | rfl
        · exact (ih hconnected hs).tail hedge
        · exact List.mem_singleton.mp hs ▸ .single hedge
      · exact hset s hs

theorem terminalSources_nodup (h : model.getTerminalSources fuel prevIds id = .ok ids) :
    ids.Nodup := by
  cases fuel with
  | zero => cases h
  | succ fuel =>
    rw [getTerminalSources] at h
    split at h
    · cases h
    · refine foldlM_ok List.Nodup h List.nodup_nil fun e _ set set' hset hstep => ?_
      obtain ⟨connected, added, -, -, rfl⟩ := getTerminalSources_step hstep
      exact foldl_setInsert_nodup hset

/-- **The recursion ends**: every call meets one more of the nodes that edges begin at. -/
theorem getTerminalSources_ne_outOfFuel {nodes : Finset Text}
    (hnodes : ∀ e ∈ model.edges, e.source ∈ nodes) (hid : id ∈ nodes)
    (hfuel : (nodes \ prevIds.toFinset).card < fuel) :
    model.getTerminalSources fuel prevIds id ≠ .error .outOfFuel := by
  induction fuel generalizing prevIds id with
  | zero => exact absurd hfuel (Nat.not_lt_zero _)
  | succ fuel ih =>
    rw [getTerminalSources]
    split
    · nofun
    · rename_i hprev
      refine foldlM_ne_error fun e he set => ?_
      have hsource : e.source ∈ nodes := hnodes e (List.mem_filter.mp he).1
      have hfewer : (nodes \ (id :: prevIds).toFinset).card < (nodes \ prevIds.toFinset).card := by
        refine Finset.card_lt_card ⟨?_, fun hsub => ?_⟩
        · exact Finset.sdiff_subset_sdiff (Finset.Subset.refl _) (by simp)
        · have := hsub (Finset.mem_sdiff.mpr ⟨hid, by simpa using hprev⟩)
          simp at this
      have hrec : model.getTerminalSources fuel (id :: prevIds) e.source ≠ .error .outOfFuel :=
        ih hsource (by omega)
      cases hconnected : model.getTerminalSources fuel (id :: prevIds) e.source with
      | error err =>
        rintro heq
        obtain rfl : err = .outOfFuel := Except.error.inj heq
        exact hrec hconnected
      | ok connected =>
        show (if _ then _ else _) ≠ _
        split <;> nofun

/-! ## Connections -/

theorem connectionsTo_ne_outOfFuel (targetId : Text) :
    model.connectionsTo targetId ≠ .error .outOfFuel := by
  have hsources : ∀ e ∈ model.edges,
      e.source ∈ insert targetId (model.edges.map (·.source)).toFinset := fun e he => by
    simp only [Finset.mem_insert, List.mem_toFinset, List.mem_map]
    exact .inr ⟨e, he, rfl⟩
  have hcard : (insert targetId (model.edges.map (·.source)).toFinset).card ≤
      model.edges.length + 1 := by
    refine (Finset.card_insert_le _ _).trans (Nat.succ_le_succ ?_)
    exact (List.toFinset_card_le _).trans (by simp)
  have hne : model.getTerminalSources (model.edges.length + 2) [] targetId ≠ .error .outOfFuel := by
    refine getTerminalSources_ne_outOfFuel hsources (Finset.mem_insert_self _ _) ?_
    rw [List.toFinset_nil, Finset.sdiff_empty]
    omega
  unfold connectionsTo
  cases hterminal : model.getTerminalSources (model.edges.length + 2) [] targetId with
  | error err =>
    rintro heq
    obtain rfl : err = .outOfFuel := Except.error.inj heq
    exact hne hterminal
  | ok ids => nofun

theorem mapM_cons_ok {α β ε : Type*} {f : α → Except ε β} {a : α} {l : List α} {bs : List β}
    (h : (a :: l).mapM f = .ok bs) :
    ∃ b bs', f a = .ok b ∧ l.mapM f = .ok bs' ∧ bs = b :: bs' := by
  rw [List.mapM_cons] at h
  cases hf : f a with
  | error e =>
    rw [hf] at h
    cases h
  | ok b =>
    cases hl : l.mapM f with
    | error e =>
      rw [hf, hl] at h
      cases h
    | ok bs' =>
      rw [hf, hl] at h
      exact ⟨b, bs', rfl, rfl, (Except.ok.inj h).symm⟩

/-- What `PreProcess` knows of a connection. -/
structure IsConnection (model : Model) (ac : AssemblyConnection) : Prop where
  transGen : Relation.TransGen (Feeds model) ac.sourceId ac.targetId
  acyclic : ¬ Relation.TransGen (Feeds model) ac.targetId ac.targetId
  interAssembly : ac.interAssembly = true ↔
    model.getParentNodeAt ac.sourceId 2 ≠ model.getParentNodeAt ac.targetId 2

theorem connectionsTo_spec {targetId : Text} {acs : List AssemblyConnection}
    (h : model.connectionsTo targetId = .ok acs) :
    (acs.map fun ac => (ac.sourceId, ac.targetId)).Nodup ∧
      ∀ ac ∈ acs, ac.targetId = targetId ∧ IsConnection model ac := by
  unfold connectionsTo at h
  cases hterminal : model.getTerminalSources (model.edges.length + 2) [] targetId with
  | error err =>
    rw [hterminal] at h
    cases h
  | ok ids =>
    rw [hterminal] at h
    obtain rfl := Except.ok.inj h
    constructor
    · rw [List.map_map]
      exact (terminalSources_nodup hterminal).map fun s t heq => congrArg Prod.fst heq
    · intro ac hac
      obtain ⟨s, hs, rfl⟩ := List.mem_map.mp hac
      exact ⟨rfl, transGen_of_mem_terminalSources hterminal hs, not_transGen_self hterminal,
        by simp⟩

theorem mapM_connectionsTo_spec {targets : List Text} {acss : List (List AssemblyConnection)}
    (hnd : targets.Nodup) (h : targets.mapM model.connectionsTo = .ok acss) :
    (acss.flatten.map fun ac => (ac.sourceId, ac.targetId)).Nodup ∧
      ∀ ac ∈ acss.flatten, ac.targetId ∈ targets ∧ IsConnection model ac := by
  induction targets generalizing acss with
  | nil =>
    obtain rfl := Except.ok.inj h
    exact ⟨List.nodup_nil, fun _ hac => nomatch hac⟩
  | cons t targets ih =>
    obtain ⟨acs, acss', hacs, hrest, rfl⟩ := mapM_cons_ok h
    obtain ⟨ht, hnd⟩ := List.nodup_cons.mp hnd
    obtain ⟨hndt, hspec⟩ := connectionsTo_spec hacs
    obtain ⟨hndr, hspecr⟩ := ih hnd hrest
    rw [List.flatten_cons, List.map_append]
    refine ⟨hndt.append hndr ?_, ?_⟩
    · intro key hfirst hlater
      obtain ⟨ac, hac, rfl⟩ := List.mem_map.mp hfirst
      obtain ⟨ac', hac', heq⟩ := List.mem_map.mp hlater
      have htarget : ac'.targetId = ac.targetId := congrArg Prod.snd heq
      exact ht ((hspec ac hac).1 ▸ htarget ▸ (hspecr ac' hac').1)
    · intro ac hac
      rcases List.mem_append.mp hac with hac | hac
      · exact ⟨by simp [(hspec ac hac).1], (hspec ac hac).2⟩
      · exact ⟨List.mem_cons_of_mem _ (hspecr ac hac).1, (hspecr ac hac).2⟩

theorem findNodesOfKind_nodup {doc : Document} (h : doc.Identified) (kinds : List NodeKind)
    (hkinds : kinds.Nodup) : (kinds.flatMap doc.findNodesOfKind).Nodup := by
  rw [List.nodup_flatMap]
  constructor
  · intro kind _
    exact (List.filter_sublist.map _).nodup h.nodup
  · refine hkinds.pairwise_of_forall_ne fun k _ k' _ hne id hid hid' => ?_
    obtain ⟨e, he, rfl⟩ := List.mem_map.mp hid
    obtain ⟨e', he', heq⟩ := List.mem_map.mp hid'
    obtain ⟨hmem, hk⟩ := List.mem_filter.mp he
    obtain ⟨hmem', hk'⟩ := List.mem_filter.mp he'
    obtain rfl := List.inj_on_of_nodup_map h.nodup hmem' hmem heq
    exact hne ((of_decide_eq_true hk).symm.trans (of_decide_eq_true hk'))

/-- **The connections of a model**: each is found once, and they do not lead back. -/
theorem assemblyConnections_spec (h : model.Identified) {acs : List AssemblyConnection}
    (hacs : model.assemblyConnections = .ok acs) :
    (acs.map fun ac => (ac.sourceId, ac.targetId)).Nodup ∧
      ∀ ac ∈ acs, IsConnection model ac := by
  unfold assemblyConnections at hacs
  split at hacs
  · cases hmap : model.endpointIds.mapM model.connectionsTo with
    | error err =>
      rw [hmap] at hacs
      cases hacs
    | ok acss =>
      rw [hmap] at hacs
      obtain rfl := Except.ok.inj hacs
      have hnd : model.endpointIds.Nodup := by
        have := findNodesOfKind_nodup h [.subscriberPortInstance, .replierPortInstance,
          .pubSubPortDelegate, .requestPortDelegate] (by decide)
        simpa [endpointIds] using this
      obtain ⟨hacsnd, hspec⟩ := mapM_connectionsTo_spec hnd hmap
      exact ⟨hacsnd, fun ac hac => (hspec ac hac).2⟩
  · obtain rfl := Except.ok.inj hacs
    exact ⟨List.nodup_nil, fun _ hac => nomatch hac⟩

/-- The other direction of a connection is none. -/
theorem IsConnection.not_reverse {ac ac' : AssemblyConnection} (h : IsConnection model ac)
    (h' : IsConnection model ac') : ¬ (ac'.sourceId = ac.targetId ∧ ac'.targetId = ac.sourceId) := by
  rintro ⟨hsource, htarget⟩
  have hback := h'.transGen
  rw [hsource, htarget] at hback
  exact h.acyclic (hback.trans h.transGen)

end Sem.Re

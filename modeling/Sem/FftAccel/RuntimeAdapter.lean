import Sem.FftAccel.Dispatcher
import Sem.FftAccel.IdSearch

/-!
# Runtime adapter

A submission gets an id from the request map, under which its packets and a promise are staged,
asks the dispatcher for the event of that id, keeps the future, and sends the packets. Nothing of
this is taken back when a packet cannot be sent, nor the search for an id when the vector is empty.

* `atomic_iff`: a submission that fails leaves the adapter as it was, unless it stops half way or
  passes over an id that is not found again.
* `asBefore_of_failedSubmissions`: so do any number of them.
-/

namespace Sem.FftAccel

/-- `network::adapter`, whose states are in `σ` and whose errors are in `ε`: it serializes a packet
and sends it. -/
structure NetworkAdapter (α σ ε : Type) where
  send : σ → FftDataPacket α → Except ε Unit × σ

/-- The loop that sends a group, up to the first error. -/
def NetworkAdapter.sendAll {α σ ε : Type} (net : NetworkAdapter α σ ε) :
    σ → List (FftDataPacket α) → Except ε Unit × σ
  | s, [] => (.ok (), s)
  | s, packet :: packets =>
    match net.send s packet with
    | (.error e, s) => (.error e, s)
    | (.ok (), s) => net.sendAll s packets

/-- The error that `submit_fft_calculation` returns. -/
inductive SubmitError (ε : Type)
  | noNetworkAdapter
  | construct (e : ConstructError)
  | send (e : ε)
  deriving DecidableEq, Repr

/-- How a call ends. -/
inductive SubmitOutcome (ε : Type)
  | returned (id : UInt8)
  | failed (e : SubmitError ε)
  /-- The error of `new_request_result`, which is none, is asked for. -/
  | unexpectedValueResult
  deriving DecidableEq, Repr

/-- `adapter_impl`, with callbacks in `κ`. A future is named by its promise in `π`. -/
structure RuntimeAdapter (α κ π σ : Type) where
  adapter : Option σ
  pendingRequests : FftRequestMap α
  responseFutures : Table UInt8 π
  eventDispatcher : Dispatcher UInt8 (List α) κ π

namespace RuntimeAdapter

variable {α κ π σ ε : Type}

/-- The constructor. -/
def start : RuntimeAdapter α κ π σ := ⟨none, .empty, ∅, .start⟩

/-- `submit_fft_calculation`, in which `request_event` makes `promise`. -/
def submitFftCalculation (net : NetworkAdapter α σ ε) (a : RuntimeAdapter α κ π σ) (promise : π)
    (data : List α) : SubmitOutcome ε × RuntimeAdapter α κ π σ :=
  match a.adapter with
  | none => (.failed .noNetworkAdapter, a)
  | some network =>
    match a.pendingRequests.constructPackets data with
    | (.error e, map) => (.failed (.construct e), { a with pendingRequests := map })
    | (.ok group, map) =>
      let newId := group.requestId
      match a.eventDispatcher.requestEvent newId promise with
      | (.error _, _) => (.unexpectedValueResult, { a with pendingRequests := map })
      | (.ok (), dispatcher) =>
        let a : RuntimeAdapter α κ π σ := { a with
          pendingRequests := map
          eventDispatcher := dispatcher
          responseFutures :=
            if newId ∈ a.responseFutures then a.responseFutures
            else a.responseFutures.insert newId promise }
        match net.sendAll network group.packets with
        | (.error e, network) => (.failed (.send e), { a with adapter := some network })
        | (.ok (), network) => (.returned newId, { a with adapter := some network })

/-! ## What is promised -/

/-- No request has the id. -/
def Usable (a : RuntimeAdapter α κ π σ) (id : UInt8) : Prop :=
  a.pendingRequests.Free id

/-- The requests, the futures and the ids of `a` are those of `b`, and what could be submitted to
`b` can be submitted to `a`. -/
structure AsBefore (a b : RuntimeAdapter α κ π σ) : Prop where
  staged : a.pendingRequests.stagedPacketGroups = b.pendingRequests.stagedPacketGroups
  promises : a.pendingRequests.unfulfilledPromises = b.pendingRequests.unfulfilledPromises
  futures : a.responseFutures = b.responseFutures
  dispatcher : a.eventDispatcher = b.eventDispatcher
  usable : ∀ id, a.Usable id ↔ b.Usable id
  /-- Vectors that get ids one after the other still do, wherever the tracker is now. -/
  able : ∀ vectors : List (List α), (∀ v ∈ vectors, v ≠ []) → b.pendingRequests.Admits vectors →
    a.pendingRequests.Admits vectors

/-- If the call returns an error, the adapter is as before. -/
def Atomic (net : NetworkAdapter α σ ε) (a : RuntimeAdapter α κ π σ) (promise : π)
    (data : List α) : Prop :=
  ∀ e, (a.submitFftCalculation net promise data).1 = .failed e →
    (a.submitFftCalculation net promise data).2.AsBefore a

/-- A group gets an id, and either the id has a promise already, or the dispatcher has none for it
and a packet is not sent. -/
def StopsHalfWay (net : NetworkAdapter α σ ε) (a : RuntimeAdapter α κ π σ)
    (data : List α) : Prop :=
  ∃ network newId group, a.adapter = some network ∧ a.pendingRequests.getNewId.1 = some newId ∧
    FftPacketGroup.ofVector data newId = some group ∧
    (newId ∈ a.pendingRequests.unfulfilledPromises ∨
      newId ∉ a.eventDispatcher.promiseMap ∧
        ∃ e, (net.sendAll network group.packets).1 = .error e)

/-- The vector is empty, and the id found for it is, but for the next or the last one, the only id
that is usable. -/
def PassesOver (a : RuntimeAdapter α κ π σ) (data : List α) : Prop :=
  data = [] ∧ ∃ network newId, a.adapter = some network ∧
    a.pendingRequests.getNewId.1 = some newId ∧ a.pendingRequests.Alone newId

/-- Calls that return errors, none of which stops half way or passes over an id. -/
inductive FailedSubmissions (net : NetworkAdapter α σ ε) :
    RuntimeAdapter α κ π σ → RuntimeAdapter α κ π σ → Prop
  | nil (a) : FailedSubmissions net a a
  | cons {a promise data e b} : (a.submitFftCalculation net promise data).1 = .failed e →
      ¬ a.StopsHalfWay net data → ¬ a.PassesOver data →
      FailedSubmissions net (a.submitFftCalculation net promise data).2 b →
      FailedSubmissions net a b

end RuntimeAdapter

/-! ## Submissions -/

theorem FftPacketGroup.requestId_of_ofVector {α : Type} {data : List α} {newId : UInt8}
    {group : FftPacketGroup α} (h : FftPacketGroup.ofVector data newId = some group) :
    group.requestId = newId := by
  have hdata : data ≠ [] := by
    rintro rfl
    cases h
  rw [FftPacketGroup.ofVector_eq hdata] at h
  exact (congrArg FftPacketGroup.requestId (Option.some.inj h)).symm

namespace RuntimeAdapter

variable {α κ π σ ε : Type} {net : NetworkAdapter α σ ε} {a b c : RuntimeAdapter α κ π σ}
  {promise : π} {data : List α}

theorem AsBefore.refl (a : RuntimeAdapter α κ π σ) : a.AsBefore a :=
  ⟨rfl, rfl, rfl, rfl, fun _ => Iff.rfl, fun _ _ hadmits => hadmits⟩

theorem AsBefore.trans (h : a.AsBefore b) (h' : b.AsBefore c) : a.AsBefore c :=
  ⟨h.staged.trans h'.staged, h.promises.trans h'.promises, h.futures.trans h'.futures,
    h.dispatcher.trans h'.dispatcher, fun id => (h.usable id).trans (h'.usable id),
    fun vectors hvectors hadmits => h.able vectors hvectors (h'.able vectors hvectors hadmits)⟩

/-- A request that was staged takes its id away. -/
theorem not_asBefore {newId : UInt8} {group : FftPacketGroup α}
    (hnew : newId ∉ a.pendingRequests.stagedPacketGroups)
    (h : b.pendingRequests.stagedPacketGroups =
      a.pendingRequests.stagedPacketGroups.insert newId group) : ¬ b.AsBefore a := by
  intro hsame
  rw [hsame.staged] at h
  exact hnew (h ▸ (AList.mem_insert _).mpr (.inl rfl))

theorem atomic_of_noAdapter (h : a.adapter = none) : a.Atomic net promise data := by
  intro e _
  simp only [submitFftCalculation, h]
  exact .refl a

/-- Nothing was staged, but the tracker has moved. -/
theorem atomic_of_construct_error {e : ConstructError}
    (h : a.pendingRequests.constructPackets data = (.error e, a.pendingRequests.passOver))
    (hable : ∀ vectors : List (List α), (∀ v ∈ vectors, v ≠ []) →
      a.pendingRequests.Admits vectors → a.pendingRequests.passOver.Admits vectors) :
    a.Atomic net promise data := by
  intro _ _
  cases hnetwork : a.adapter with
  | none =>
    simp only [submitFftCalculation, hnetwork]
    exact .refl a
  | some network =>
    simp only [submitFftCalculation, hnetwork, h]
    exact ⟨rfl, rfl, rfl, rfl, fun _ => Iff.rfl, hable⟩

/-- The id found for an empty vector is lost to the vectors after it. -/
theorem not_atomic_of_passesOver [Inhabited α] (net : NetworkAdapter α σ ε) (promise : π)
    (h : a.PassesOver data) : ¬ a.Atomic net promise data := by
  obtain ⟨rfl, network, newId, hnetwork, hid, halone⟩ := h
  have hconstruct := FftRequestMap.constructPackets_of_id hid ([] : List α)
  have hsubmit : a.submitFftCalculation net promise [] = (.failed (.construct .emptyVector),
      { a with pendingRequests := a.pendingRequests.passOver }) := by
    simp only [submitFftCalculation, hnetwork, hconstruct]
    rfl
  obtain ⟨n, hadmits, hrefused⟩ :=
    FftRequestMap.exists_not_admits hid halone (List.cons_ne_nil default [])
  intro hatomic
  have hbefore := hatomic (.construct .emptyVector) (by rw [hsubmit])
  rw [hsubmit] at hbefore
  refine hrefused (hbefore.able _ (fun v hv => ?_) hadmits)
  rw [List.eq_of_mem_replicate hv]
  exact List.cons_ne_nil _ _

section Staged

variable {network : σ} {newId : UInt8} {group : FftPacketGroup α}

/-- The group is staged before it turns out that the id has a promise. -/
theorem not_atomic_of_promise (net : NetworkAdapter α σ ε) (promise : π)
    (hnetwork : a.adapter = some network) (hid : a.pendingRequests.getNewId.1 = some newId)
    (hgroup : FftPacketGroup.ofVector data newId = some group)
    (hpromise : newId ∈ a.pendingRequests.unfulfilledPromises) :
    ¬ a.Atomic net promise data := by
  have hconstruct := FftRequestMap.constructPackets_of_id hid data
  simp only [hgroup, if_pos hpromise] at hconstruct
  have hfailed : (a.submitFftCalculation net promise data).1 = .failed (.construct .noPromise) := by
    simp only [submitFftCalculation, hnetwork, hconstruct]
  have hstaged : (a.submitFftCalculation net promise data).2.pendingRequests.stagedPacketGroups =
      a.pendingRequests.stagedPacketGroups.insert newId group := by
    simp only [submitFftCalculation, hnetwork, hconstruct]
  exact fun hatomic =>
    not_asBefore (FftRequestMap.getNewId_fresh hid) hstaged (hatomic _ hfailed)

/-- The dispatcher has a promise for the id: no error is returned. -/
theorem atomic_of_event (net : NetworkAdapter α σ ε) (promise : π)
    (hnetwork : a.adapter = some network) (hid : a.pendingRequests.getNewId.1 = some newId)
    (hgroup : FftPacketGroup.ofVector data newId = some group)
    (hpromise : newId ∉ a.pendingRequests.unfulfilledPromises)
    (hevent : newId ∈ a.eventDispatcher.promiseMap) : a.Atomic net promise data := by
  have hconstruct := FftRequestMap.constructPackets_of_id hid data
  simp only [hgroup, if_neg hpromise] at hconstruct
  have hrequest := FftPacketGroup.requestId_of_ofVector hgroup
  intro e hfailed
  simp only [submitFftCalculation, hnetwork, hconstruct, hrequest, Dispatcher.requestEvent,
    if_pos hevent] at hfailed
  cases hfailed

/-- Otherwise the packets are sent, after all was staged. -/
theorem submitFftCalculation_of_event (net : NetworkAdapter α σ ε) (promise : π)
    (hnetwork : a.adapter = some network) (hid : a.pendingRequests.getNewId.1 = some newId)
    (hgroup : FftPacketGroup.ofVector data newId = some group)
    (hpromise : newId ∉ a.pendingRequests.unfulfilledPromises)
    (hevent : newId ∉ a.eventDispatcher.promiseMap) :
    a.submitFftCalculation net promise data =
      (match (net.sendAll network group.packets).1 with
        | .error e => .failed (.send e)
        | .ok () => .returned newId,
      { adapter := some (net.sendAll network group.packets).2
        pendingRequests :=
          { stagedPacketGroups := a.pendingRequests.stagedPacketGroups.insert newId group
            unfulfilledPromises := a.pendingRequests.unfulfilledPromises.insert newId none
            idTracker := a.pendingRequests.getNewId.2 }
        responseFutures :=
          if newId ∈ a.responseFutures then a.responseFutures
          else a.responseFutures.insert newId promise
        eventDispatcher := { a.eventDispatcher with
          promiseMap := a.eventDispatcher.promiseMap.insert newId promise } }) := by
  have hconstruct := FftRequestMap.constructPackets_of_id hid data
  simp only [hgroup, if_neg hpromise] at hconstruct
  have hrequest := FftPacketGroup.requestId_of_ofVector hgroup
  simp only [submitFftCalculation, hnetwork, hconstruct, hrequest, Dispatcher.requestEvent,
    if_neg hevent]
  obtain ⟨result, network'⟩ := net.sendAll network group.packets
  cases result <;> rfl

end Staged

theorem not_atomic_of_stopsHalfWay (promise : π) (h : a.StopsHalfWay net data) :
    ¬ a.Atomic net promise data := by
  obtain ⟨network, newId, group, hnetwork, hid, hgroup, hcase⟩ := h
  by_cases hpromise : newId ∈ a.pendingRequests.unfulfilledPromises
  · exact not_atomic_of_promise net promise hnetwork hid hgroup hpromise
  · obtain ⟨hevent, e, hsend⟩ := hcase.resolve_left hpromise
    have hsubmit := submitFftCalculation_of_event net promise hnetwork hid hgroup hpromise hevent
    rw [hsend] at hsubmit
    intro hatomic
    have hbefore := hatomic (.send e) (by rw [hsubmit])
    rw [hsubmit] at hbefore
    exact not_asBefore (FftRequestMap.getNewId_fresh hid) rfl hbefore

theorem atomic_of_not_stopsHalfWay (promise : π) (h : ¬ a.StopsHalfWay net data)
    (hover : ¬ a.PassesOver data) : a.Atomic net promise data := by
  cases hnetwork : a.adapter with
  | none => exact atomic_of_noAdapter hnetwork
  | some network =>
    cases hid : a.pendingRequests.getNewId.1 with
    | none =>
      refine atomic_of_construct_error (FftRequestMap.constructPackets_of_noId hid data)
        fun vectors _ hadmits => ?_
      cases vectors with
      | nil => trivial
      | cons v rest =>
        obtain ⟨newId, hid'⟩ := FftRequestMap.exists_id_of_admits hadmits
        rw [hid] at hid'
        cases hid'
    | some newId =>
      have hconstruct := FftRequestMap.constructPackets_of_id hid data
      cases hgroup : FftPacketGroup.ofVector data newId with
      | none =>
        rw [hgroup] at hconstruct
        have hdata : data = [] := by
          by_contra hdata
          rw [FftPacketGroup.ofVector_eq hdata] at hgroup
          cases hgroup
        have halone : ¬ a.pendingRequests.Alone newId := fun halone =>
          hover ⟨hdata, network, newId, hnetwork, hid, halone⟩
        exact atomic_of_construct_error hconstruct fun _ hvectors hadmits =>
          FftRequestMap.admits_of_not_alone hid halone hvectors hadmits
      | some group =>
        have hcase := fun hcase => h ⟨network, newId, group, hnetwork, hid, hgroup, hcase⟩
        obtain ⟨hpromise, hsend⟩ := not_or.mp hcase
        by_cases hevent : newId ∈ a.eventDispatcher.promiseMap
        · exact atomic_of_event net promise hnetwork hid hgroup hpromise hevent
        · intro e hfailed
          rw [submitFftCalculation_of_event net promise hnetwork hid hgroup hpromise hevent]
            at hfailed
          cases hsent : (net.sendAll network group.packets).1 with
          | error e => exact absurd ⟨hevent, e, hsent⟩ hsend
          | ok _ => rw [hsent] at hfailed; cases hfailed

/-- After any number of failed submissions the adapter is as before. -/
theorem asBefore_of_failedSubmissions (h : FailedSubmissions net a b) : b.AsBefore a := by
  induction h with
  | nil a => exact .refl a
  | cons hfailed hstops hover _ ih =>
    exact ih.trans (atomic_of_not_stopsHalfWay _ hstops hover _ hfailed)

/-- **A submission that fails leaves the adapter as it was, unless it stops half way or passes over
an id.** -/
theorem atomic_iff [Inhabited α] (net : NetworkAdapter α σ ε) (a : RuntimeAdapter α κ π σ)
    (promise : π) (data : List α) :
    a.Atomic net promise data ↔ ¬ a.StopsHalfWay net data ∧ ¬ a.PassesOver data :=
  ⟨fun hatomic => ⟨fun hstops => not_atomic_of_stopsHalfWay promise hstops hatomic,
    fun hover => not_atomic_of_passesOver net promise hover hatomic⟩,
    fun ⟨hstops, hover⟩ => atomic_of_not_stopsHalfWay promise hstops hover⟩

/-- A network that is down or up. -/
def link : NetworkAdapter Int Bool Unit where
  send up _ := (if up then .ok () else .error (), up)

/-- An adapter whose network is down. -/
def offline : RuntimeAdapter Int Unit ℕ Bool :=
  ⟨some false, .empty, ∅, .start⟩

/-- `n` submissions failed and left their ids behind. -/
structure Submitted (n : ℕ) (a : RuntimeAdapter Int Unit ℕ Bool) : Prop where
  adapter : a.adapter = some false
  tracker : a.pendingRequests.idTracker = UInt8.ofNat n
  staged : ∀ id, id ∈ a.pendingRequests.stagedPacketGroups ↔ id.toNat < n
  promises : ∀ id ∈ a.pendingRequests.unfulfilledPromises, id.toNat < n
  events : ∀ id ∈ a.eventDispatcher.promiseMap, id.toNat < n

theorem Submitted.next {n : ℕ} {a : RuntimeAdapter Int Unit ℕ Bool} (h : Submitted n a)
    (hn : n < 256) (promise : ℕ) :
    (a.submitFftCalculation link promise [0]).1 = .failed (.send ()) ∧
      Submitted (n + 1) (a.submitFftCalculation link promise [0]).2 := by
  have hid : (UInt8.ofNat n).toNat = n := by
    rw [UInt8.toNat_ofNat']
    omega
  have hnew : a.pendingRequests.idTracker ∉ a.pendingRequests.stagedPacketGroups := by
    rw [h.tracker, h.staged, hid]
    omega
  have hget : a.pendingRequests.getNewId = (some (UInt8.ofNat n), UInt8.ofNat (n + 1)) := by
    rw [UInt8.ofNat_add, ← h.tracker]
    exact if_neg hnew
  obtain ⟨group, hgroup, hsend⟩ : ∃ group,
      FftPacketGroup.ofVector [(0 : Int)] (UInt8.ofNat n) = some group ∧
        link.sendAll false group.packets = (.error (), false) :=
    ⟨_, FftPacketGroup.ofVector_eq (by decide), rfl⟩
  have hless : ∀ id : UInt8, id = UInt8.ofNat n ∨ id.toNat < n ↔ id.toNat < n + 1 := by
    intro id
    rw [← UInt8.toNat_inj, hid]
    omega
  rw [submitFftCalculation_of_event link promise h.adapter (by rw [hget]) hgroup
    (fun hmem => by have := h.promises _ hmem; omega)
    (fun hmem => by have := h.events _ hmem; omega), hsend]
  refine ⟨rfl, rfl, by rw [hget], fun id => ?_, fun id hmem => ?_, fun id hmem => ?_⟩
  · rw [AList.mem_insert, h.staged, hless]
  · exact (hless id).mp (((AList.mem_insert _).mp hmem).imp_right (h.promises id))
  · exact (hless id).mp (((AList.mem_insert _).mp hmem).imp_right (h.events id))

theorem exists_submitted {n : ℕ} (hn : n ≤ 256) : ∃ a, Submitted n a := by
  induction n with
  | zero =>
    refine ⟨offline, rfl, rfl, fun id => ?_, fun id hmem => ?_, fun id hmem => ?_⟩
    · simp [offline, FftRequestMap.empty]
    · cases hmem
    · cases hmem
  | succ n ih =>
    obtain ⟨a, ha⟩ := ih (by omega)
    exact ⟨_, (ha.next (by omega) 0).2⟩

/-- A packet that is not sent leaves its group behind. After 256 of them there is no id left, also
when the network is up again. -/
theorem not_atomic :
    ¬ offline.Atomic link 0 [0] ∧
      ∃ a : RuntimeAdapter Int Unit ℕ Bool, Submitted 256 a ∧
        ({ a with adapter := some true }.submitFftCalculation link 0 [0]).1 =
          .failed (.construct .noFreeId) := by
  refine ⟨fun hatomic => ?_, ?_⟩
  · have hstaged := (hatomic (.send ()) (by decide +kernel)).staged
    exact absurd (congrArg (0 ∈ ·) hstaged) (by decide +kernel)
  · obtain ⟨a, ha⟩ := exists_submitted (Nat.le_refl 256)
    refine ⟨a, ha, ?_⟩
    have hall : ∀ id, id ∈ a.pendingRequests.stagedPacketGroups := fun id =>
      (ha.staged id).mpr id.toNat_lt
    have hnone : a.pendingRequests.getNewId.1 = none := FftRequestMap.searchId_eq_none hall
    simp only [submitFftCalculation, FftRequestMap.constructPackets_of_noId hnone]

end RuntimeAdapter

end Sem.FftAccel

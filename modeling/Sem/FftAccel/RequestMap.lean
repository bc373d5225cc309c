import Sem.FftAccel.PacketGroup
import Sem.Lib.Run
import Sem.Lib.Table

/-!
# FFT request map

Every request gets an id, a byte, under which its packet group and its promise are kept. Nothing
removes a group or a promise when its request is complete, so an id is given out once.

* `getNewId_fresh`, `exists_getNewId`: the search finds an id that was never given out, if one of
  the 254 that it examines is such.
* `lawful_of_reachBy`: in the runs in which the search can succeed, requests are created and
  promises fulfilled as they should be.
-/

namespace Sem.FftAccel

universe u

variable {α : Type u}

/-! ## The map -/

/-- A promise: its value, once it is set. -/
abbrev Promise (α : Type u) := Option (FftPacketGroup α)

/-- `fft_request_map`. -/
structure FftRequestMap (α : Type u) where
  stagedPacketGroups : Table UInt8 (FftPacketGroup α)
  unfulfilledPromises : Table UInt8 (Promise α)
  idTracker : UInt8

/-- `fft_result`. -/
structure FftResult (α : Type u) where
  id : UInt8
  data : List α

/-- Why a request is not constructed. -/
inductive ConstructError
  | noFreeId | notStaged | emptyVector | noPromise
  deriving DecidableEq, Repr

/-- Why a response is not taken. -/
inductive UpdateError
  | unknownRequest
  | rejected (e : ResponseError)
  | noPromise
  | alreadySatisfied
  deriving DecidableEq, Repr

namespace FftRequestMap

/-- The constructor. -/
def empty : FftRequestMap α := ⟨∅, ∅, 0⟩

/-- The loop of `get_new_id` with `n` ids left to examine: the id, and the tracker afterwards. -/
def searchId (staged : Table UInt8 (FftPacketGroup α)) : ℕ → UInt8 → Option UInt8 × UInt8
  | 0, tracker => (none, tracker + 1)
  | n + 1, tracker =>
    if tracker ∈ staged then searchId staged n (tracker + 1) else (some tracker, tracker + 1)

/-- `std::numeric_limits<request_id_type>::max()`. -/
def maxAttempts : ℕ := 255

/-- `get_new_id`; the last attempt fails before its id is examined. -/
def getNewId (m : FftRequestMap α) : Option UInt8 × UInt8 :=
  searchId m.stagedPacketGroups (maxAttempts - 1) m.idTracker

/-- `construct_packets`: the new group, whose promise is in the map. -/
def constructPackets (m : FftRequestMap α) (data : List α) :
    Except ConstructError (FftPacketGroup α) × FftRequestMap α :=
  match m.getNewId with
  | (none, tracker) => (.error .noFreeId, { m with idTracker := tracker })
  | (some newId, tracker) =>
    let m := { m with idTracker := tracker }
    if newId ∈ m.stagedPacketGroups then (.error .notStaged, m)
    else match FftPacketGroup.ofVector data newId with
      | none => (.error .emptyVector, m)
      | some group =>
        let m := { m with stagedPacketGroups := m.stagedPacketGroups.insert newId group }
        if newId ∈ m.unfulfilledPromises then (.error .noPromise, m)
        else
          (.ok group, { m with unfulfilledPromises := m.unfulfilledPromises.insert newId none })

/-- `update_pending_packets`: the result of the request that is complete now. -/
def updatePendingPackets (m : FftRequestMap α) (received : FftDataPacket α) :
    Except UpdateError (Option (FftResult α)) × FftRequestMap α :=
  match m.stagedPacketGroups.lookup received.requestId with
  | none => (.error .unknownRequest, m)
  | some request =>
    let (result, request) := request.updatePacketWithResponse received
    let m := { m with
      stagedPacketGroups := m.stagedPacketGroups.adjust received.requestId fun _ => request }
    match result with
    | .error e => (.error (.rejected e), m)
    | .ok () =>
      if request.numRemainingPackets = 0 then
        match m.unfulfilledPromises.lookup received.requestId with
        | none => (.error .noPromise, m)
        | some (some _) => (.error .alreadySatisfied, m)
        | some none => (.ok (some ⟨received.requestId, request.toVector⟩), { m with
            unfulfilledPromises :=
              m.unfulfilledPromises.adjust received.requestId fun _ => some request })
      else (.ok none, m)

end FftRequestMap

/-! ## Runs -/

/-- A request that was constructed, the responses with its id since, and the values that its
promise was given. -/
structure Request (α : Type u) where
  group : FftPacketGroup α
  responses : List (FftDataPacket α)
  fulfilled : List (FftPacketGroup α)

/-- Every packet of the request has a response of its own. -/
def Request.Complete (r : Request α) : Prop :=
  ∀ p ∈ r.group.packets, (r.group.packets.map FftDataPacket.sequenceNumber).count p.sequenceNumber ≤
    (r.responses.map FftDataPacket.sequenceNumber).count p.sequenceNumber

instance (r : Request α) : Decidable r.Complete :=
  inferInstanceAs (Decidable (∀ p ∈ r.group.packets, _ ≤ _))

/-- A call of `construct_packets`, the requests before it that were outstanding, and its result. -/
structure Construction (α : Type u) where
  data : List α
  outstanding : List (Request α)
  result : Except ConstructError (FftPacketGroup α)

/-- The map, with what happened to it, the newest first. -/
structure RequestRun (α : Type u) where
  map : FftRequestMap α
  requests : List (Request α)
  constructions : List (Construction α)

/-- A call on the map. -/
inductive Call (α : Type u)
  | constructPackets (data : List α)
  | updatePendingPackets (received : FftDataPacket α)

namespace RequestRun

/-- An empty map, and no requests. -/
def start : RequestRun α := ⟨.empty, [], []⟩

/-- The requests whose responses have not all come. -/
def outstanding (s : RequestRun α) : List (Request α) := s.requests.filter fun r => ¬ r.Complete

/-- The newest request with this id gets the response, and what its promise was given. -/
def respond (received : FftDataPacket α) (given : List (FftPacketGroup α)) :
    List (Request α) → List (Request α)
  | [] => []
  | r :: rs =>
    if r.group.requestId = received.requestId then
      ⟨r.group, r.responses ++ [received], r.fulfilled ++ given⟩ :: rs
    else r :: respond received given rs

/-- One call. -/
def step (s : RequestRun α) : Call α → RequestRun α
  | .constructPackets data =>
    let (result, map) := s.map.constructPackets data
    { map := map
      requests := match result with
        | .ok group => ⟨group, [], []⟩ :: s.requests
        | .error _ => s.requests
      constructions := ⟨data, s.outstanding, result⟩ :: s.constructions }
  | .updatePendingPackets received =>
    let (result, map) := s.map.updatePendingPackets received
    let given := match result with
      | .ok (some _) => ((map.unfulfilledPromises.lookup received.requestId).join).toList
      | _ => []
    { s with map := map, requests := respond received given s.requests }

/-- The runs of calls on a new map. -/
def system (α : Type u) : Lts (RequestRun α) (Call α) := .ofFun start fun s c => some (s.step c)

/-- What is promised of constructions and promises. -/
structure Lawful (s : RequestRun α) : Prop where
  /-- A vector becomes a request unless 256 of them are outstanding. -/
  succeeds : ∀ c ∈ s.constructions, c.data ≠ [] → c.outstanding.length < 256 →
    ∃ group, c.result = .ok group
  /-- No request gets the id of an outstanding one. -/
  fresh : ∀ c ∈ s.constructions, ∀ group, c.result = .ok group →
    ∀ r ∈ c.outstanding, r.group.requestId ≠ group.requestId
  /-- A promise was given one value if the last response is there, and none before. -/
  fulfilled : ∀ r ∈ s.requests,
    r.fulfilled = if r.Complete then [r.group.receive r.responses] else []

/-- A request is constructed from no more samples than a byte can number the packets of, and only
while the search has an id left that was never given out. -/
def Allowed (s : RequestRun α) : Call α → Prop
  | .constructPackets data => data.length ≤ 65536 ∧
    (data ≠ [] → s.outstanding.length < 256 →
      ∃ k < 254, s.map.idTracker + UInt8.ofNat k ∉ s.map.stagedPacketGroups)
  | .updatePendingPackets _ => True

end RequestRun

/-! ## The search for an id -/

namespace FftRequestMap

variable {m : FftRequestMap α} {staged : Table UInt8 (FftPacketGroup α)} {n : ℕ}
  {tracker newId : UInt8} {data : List α} {group : FftPacketGroup α}

theorem searchId_fresh (h : (searchId staged n tracker).1 = some newId) : newId ∉ staged := by
  induction n generalizing tracker with
  | zero => cases h
  | succ n ih =>
    rw [searchId] at h
    by_cases hmem : tracker ∈ staged
    · rw [if_pos hmem] at h
      exact ih h
    · rw [if_neg hmem] at h
      obtain rfl := Option.some.inj h
      exact hmem

theorem exists_searchId {k : ℕ} (hk : k < n) (h : tracker + UInt8.ofNat k ∉ staged) :
    ∃ newId, (searchId staged n tracker).1 = some newId := by
  induction n generalizing tracker k with
  | zero => omega
  | succ n ih =>
    rw [searchId]
    by_cases hmem : tracker ∈ staged
    · rw [if_pos hmem]
      cases k with
      | zero => exact absurd hmem (by simpa using h)
      | succ k =>
        apply ih (k := k) (by omega)
        have hnext : tracker + 1 + UInt8.ofNat k = tracker + UInt8.ofNat (k + 1) := by
          rw [UInt8.ofNat_add, UInt8.add_assoc, UInt8.add_comm 1]
          rfl
        rw [hnext]
        exact h
    · rw [if_neg hmem]
      exact ⟨_, rfl⟩

theorem searchId_eq_none (h : ∀ id, id ∈ staged) : (searchId staged n tracker).1 = none := by
  induction n generalizing tracker with
  | zero => rfl
  | succ n ih =>
    rw [searchId, if_pos (h tracker)]
    exact ih

/-- The id was never given out. -/
theorem getNewId_fresh (h : m.getNewId.1 = some newId) : newId ∉ m.stagedPacketGroups :=
  searchId_fresh h

/-- The search examines 254 ids. -/
theorem exists_getNewId {k : ℕ} (hk : k < 254)
    (h : m.idTracker + UInt8.ofNat k ∉ m.stagedPacketGroups) :
    ∃ newId, m.getNewId.1 = some newId :=
  exists_searchId hk h

/-- With all ids given out, nothing is constructed. -/
theorem constructPackets_of_all_staged (h : ∀ id, id ∈ m.stagedPacketGroups) :
    (m.constructPackets data).1 = .error .noFreeId := by
  have hnone : m.getNewId.1 = none := searchId_eq_none h
  rw [constructPackets]
  split
  · rfl
  · rename_i heq
    rw [heq] at hnone
    cases hnone

/-- What a call of `construct_packets` does: an id is lost, or gets a group and a promise. -/
theorem constructPackets_cases (hpromises : ∀ id ∈ m.unfulfilledPromises,
    id ∈ m.stagedPacketGroups) (data : List α) :
    (∃ e tracker, m.constructPackets data = (.error e, { m with idTracker := tracker })) ∨
    ∃ newId group tracker, newId ∉ m.stagedPacketGroups ∧
      FftPacketGroup.ofVector data newId = some group ∧
      m.constructPackets data = (.ok group,
        { stagedPacketGroups := m.stagedPacketGroups.insert newId group
          unfulfilledPromises := m.unfulfilledPromises.insert newId none
          idTracker := tracker }) := by
  rw [constructPackets]
  cases hid : m.getNewId with
  | mk found tracker =>
    cases found with
    | none => exact .inl ⟨_, _, rfl⟩
    | some newId =>
      have hnew : newId ∉ m.stagedPacketGroups := getNewId_fresh (by rw [hid])
      simp only [if_neg hnew]
      cases hgroup : FftPacketGroup.ofVector data newId with
      | none => exact .inl ⟨_, _, rfl⟩
      | some group =>
        have hpromise : newId ∉ m.unfulfilledPromises := fun h => hnew (hpromises _ h)
        simp only [if_neg hpromise]
        exact .inr ⟨newId, group, tracker, hnew, hgroup, rfl⟩

/-- A vector becomes a request if the search finds an id. -/
theorem exists_constructPackets (hpromises : ∀ id ∈ m.unfulfilledPromises,
    id ∈ m.stagedPacketGroups) (hdata : data ≠ []) {k : ℕ} (hk : k < 254)
    (h : m.idTracker + UInt8.ofNat k ∉ m.stagedPacketGroups) :
    ∃ group, (m.constructPackets data).1 = .ok group := by
  obtain ⟨newId, hid⟩ := exists_getNewId hk h
  have hnew := getNewId_fresh hid
  have hpromise : newId ∉ m.unfulfilledPromises := fun h => hnew (hpromises _ h)
  rw [constructPackets]
  cases hget : m.getNewId with
  | mk found tracker =>
    rw [hget] at hid
    obtain rfl : found = some newId := hid
    simp only [if_neg hnew, FftPacketGroup.ofVector_eq hdata, if_neg hpromise]
    exact ⟨_, rfl⟩

/-! ## A response -/

variable {received : FftDataPacket α} {request request' : FftPacketGroup α}

theorem updatePendingPackets_unknown
    (h : m.stagedPacketGroups.lookup received.requestId = none) :
    m.updatePendingPackets received = (.error .unknownRequest, m) := by
  rw [updatePendingPackets, h]

/-- The map after the group of the response changed. -/
def withGroup (m : FftRequestMap α) (id : UInt8) (request : FftPacketGroup α) :
    FftRequestMap α :=
  { m with stagedPacketGroups := m.stagedPacketGroups.adjust id fun _ => request }

theorem updatePendingPackets_rejected {e : ResponseError}
    (h : m.stagedPacketGroups.lookup received.requestId = some request)
    (hupdate : request.updatePacketWithResponse received = (.error e, request')) :
    m.updatePendingPackets received =
      (.error (.rejected e), m.withGroup received.requestId request') := by
  simp only [updatePendingPackets, h, hupdate, withGroup]

theorem updatePendingPackets_remaining
    (h : m.stagedPacketGroups.lookup received.requestId = some request)
    (hupdate : request.updatePacketWithResponse received = (.ok (), request'))
    (hremaining : request'.numRemainingPackets ≠ 0) :
    m.updatePendingPackets received =
      (.ok none, m.withGroup received.requestId request') := by
  simp only [updatePendingPackets, h, hupdate, withGroup, if_neg hremaining]

theorem updatePendingPackets_complete
    (h : m.stagedPacketGroups.lookup received.requestId = some request)
    (hpromise : m.unfulfilledPromises.lookup received.requestId = some none)
    (hupdate : request.updatePacketWithResponse received = (.ok (), request'))
    (hremaining : request'.numRemainingPackets = 0) :
    m.updatePendingPackets received = (.ok (some ⟨received.requestId, request'.toVector⟩),
      { m.withGroup received.requestId request' with
        unfulfilledPromises :=
          m.unfulfilledPromises.adjust received.requestId fun _ => some request' }) := by
  simp only [updatePendingPackets, h, hupdate, withGroup, if_pos hremaining, hpromise]

/-- A response gives out no id. -/
theorem updatePendingPackets_ids (m : FftRequestMap α) (received : FftDataPacket α) :
    (m.updatePendingPackets received).2.idTracker = m.idTracker ∧
      ∀ id, id ∈ (m.updatePendingPackets received).2.stagedPacketGroups ↔
        id ∈ m.stagedPacketGroups := by
  rw [updatePendingPackets]
  cases m.stagedPacketGroups.lookup received.requestId with
  | none => exact ⟨rfl, fun _ => Iff.rfl⟩
  | some request =>
    simp only
    split
    · exact ⟨rfl, fun _ => Table.mem_adjust⟩
    · split
      · split <;> exact ⟨rfl, fun _ => Table.mem_adjust⟩
      · exact ⟨rfl, fun _ => Table.mem_adjust⟩

end FftRequestMap

/-! ## Requests -/

/-- A request whose packets have different numbers. -/
structure Request.Sound (r : Request α) : Prop where
  fresh : Fresh r.group
  range : indices r.group.packets = List.range r.group.packets.length

namespace Request.Sound

variable {r : Request α} {p : FftDataPacket α}

theorem ofVector {data : List α} {requestId : UInt8} {group : FftPacketGroup α}
    (h : data ≠ []) (hle : data.length ≤ 65536)
    (hgroup : FftPacketGroup.ofVector data requestId = some group) :
    Request.Sound (⟨group, [], []⟩ : Request α) :=
  ⟨fresh_of_ofVector h hgroup, indices_eq_range h hgroup hle⟩

/-- With different numbers, a packet has a response if its number has one. -/
theorem complete_iff (h : r.Sound) :
    r.Complete ↔ (r.group.receive r.responses).numRemainingPackets = 0 := by
  have hnodup : (r.group.packets.map FftDataPacket.sequenceNumber).Nodup := by
    have hidx : (indices r.group.packets).Nodup := h.range ▸ List.nodup_range
    have hmap : indices r.group.packets =
        (r.group.packets.map FftDataPacket.sequenceNumber).map UInt8.toNat := by
      rw [List.map_map]
      rfl
    rw [hmap] at hidx
    exact hidx.of_map
  rw [h.fresh.remaining_eq_zero_iff]
  constructor
  · intro hcomplete i hi
    have hmem : i ∈ indices r.group.packets := by
      rw [h.range]
      exact List.mem_range.mpr hi
    obtain ⟨p, hp, rfl⟩ := List.mem_map.mp hmem
    have hcount := hcomplete p hp
    rw [List.count_eq_one_of_mem hnodup (List.mem_map_of_mem hp)] at hcount
    exact mem_indices.mpr (List.count_pos_iff.mp hcount)
  · intro hall p hp
    have hlt : p.sequenceNumber.toNat < r.group.packets.length := by
      rw [← List.mem_range, ← h.range]
      exact List.mem_map_of_mem hp
    rw [List.count_eq_one_of_mem hnodup (List.mem_map_of_mem hp)]
    exact List.count_pos_iff.mpr (mem_indices.mp (hall _ hlt))

/-- Only a request that waits for a response takes one. -/
theorem not_complete_of_ok (h : r.Sound)
    (hok : ((r.group.receive r.responses).updatePacketWithResponse p).1 = .ok ()) :
    ¬ r.Complete := by
  have hrec := h.fresh.received_receive r.responses
  have hnew : ¬ (p.sequenceNumber.toNat ∈ indices r.responses ∨
      r.group.packets.length ≤ p.sequenceNumber.toNat) := by
    intro hold
    obtain ⟨e, he⟩ := hrec.rejects hold
    rw [he] at hok
    cases hok
  obtain ⟨hnew, hge⟩ := not_or.mp hnew
  rw [h.complete_iff, h.fresh.remaining_eq_zero_iff]
  exact fun hall => hnew (hall _ (Nat.lt_of_not_le hge))

/-- A rejected response changes nothing. -/
theorem receive_of_error (h : r.Sound) {e : ResponseError}
    (he : ((r.group.receive r.responses).updatePacketWithResponse p).1 = .error e) :
    r.group.receive (r.responses ++ [p]) = r.group.receive r.responses := by
  have hrec := h.fresh.received_receive r.responses
  rw [FftPacketGroup.receive_concat]
  by_cases hold : p.sequenceNumber.toNat ∈ indices r.responses ∨
      r.group.packets.length ≤ p.sequenceNumber.toNat
  · obtain ⟨e', he'⟩ := hrec.rejects hold
    rw [he']
  · obtain ⟨hnew, hge⟩ := not_or.mp hold
    rw [hrec.accepts hnew (Nat.lt_of_not_le hge)] at he
    cases he

end Request.Sound

/-! ## The invariant -/

namespace RequestRun

variable {s : RequestRun α} {received : FftDataPacket α} {given : List (FftPacketGroup α)}

/-- The response and what the promise was given, if the request has this id. -/
def respondOne (received : FftDataPacket α) (given : List (FftPacketGroup α)) (r : Request α) :
    Request α :=
  if r.group.requestId = received.requestId then
    ⟨r.group, r.responses ++ [received], r.fulfilled ++ given⟩
  else r

theorem respond_of_notMem {rs : List (Request α)}
    (h : ∀ r ∈ rs, r.group.requestId ≠ received.requestId) :
    respond received given rs = rs := by
  induction rs with
  | nil => rfl
  | cons r rs ih =>
    obtain ⟨hr, hrs⟩ := List.forall_mem_cons.mp h
    rw [respond, if_neg hr, ih hrs]

/-- With different ids there is one request that a response can belong to. -/
theorem respond_eq_map {rs : List (Request α)} (h : (rs.map (·.group.requestId)).Nodup) :
    respond received given rs = rs.map (respondOne received given) := by
  induction rs with
  | nil => rfl
  | cons r rs ih =>
    obtain ⟨hr, hrs⟩ := List.nodup_cons.mp h
    rw [respond, List.map_cons, respondOne]
    by_cases hid : r.group.requestId = received.requestId
    · have hothers : rs.map (respondOne received given) = rs.map id := by
        apply List.map_congr_left
        intro q hq
        refine if_neg fun heq => hr ?_
        exact List.mem_map.mpr ⟨q, hq, heq.trans hid.symm⟩
      rw [if_pos hid, if_pos hid, hothers, List.map_id]
    · rw [if_neg hid, if_neg hid, ih hrs]

/-- The map holds the group and the promise of each request that was constructed. -/
structure Inv (s : RequestRun α) : Prop where
  nodup : (s.requests.map (·.group.requestId)).Nodup
  sound : ∀ r ∈ s.requests, r.Sound
  staged : ∀ r ∈ s.requests,
    s.map.stagedPacketGroups.lookup r.group.requestId = some (r.group.receive r.responses)
  promises : ∀ r ∈ s.requests,
    s.map.unfulfilledPromises.lookup r.group.requestId = some r.fulfilled.head?
  keys : ∀ id ∈ s.map.stagedPacketGroups, ∃ r ∈ s.requests, r.group.requestId = id
  promiseKeys : ∀ id ∈ s.map.unfulfilledPromises, id ∈ s.map.stagedPacketGroups
  lawful : s.Lawful

/-- The constructions so far keep their promises when one more does. -/
theorem Lawful.construct {s : RequestRun α} (h : s.Lawful) {map : FftRequestMap α}
    {requests : List (Request α)} {c : Construction α}
    (hsucceeds : c.data ≠ [] → c.outstanding.length < 256 → ∃ group, c.result = .ok group)
    (hfresh : ∀ group, c.result = .ok group →
      ∀ r ∈ c.outstanding, r.group.requestId ≠ group.requestId)
    (hfulfilled : ∀ r ∈ requests,
      r.fulfilled = if r.Complete then [r.group.receive r.responses] else []) :
    Lawful ⟨map, requests, c :: s.constructions⟩ where
  succeeds := List.forall_mem_cons.mpr ⟨hsucceeds, h.succeeds⟩
  fresh := List.forall_mem_cons.mpr ⟨hfresh, h.fresh⟩
  fulfilled := hfulfilled

theorem inv_start : Inv (start : RequestRun α) where
  nodup := List.nodup_nil
  sound := fun _ h => by cases h
  staged := fun _ h => by cases h
  promises := fun _ h => by cases h
  keys := fun _ h => by cases h
  promiseKeys := fun _ h => by cases h
  lawful := ⟨fun _ h => (by cases h), fun _ h => (by cases h), fun _ h => (by cases h)⟩

theorem Inv.constructPackets (h : Inv s) {data : List α} (hle : data.length ≤ 65536)
    (hfree : data ≠ [] → s.outstanding.length < 256 →
      ∃ k < 254, s.map.idTracker + UInt8.ofNat k ∉ s.map.stagedPacketGroups) :
    Inv (s.step (.constructPackets data)) := by
  have hsucceeds : data ≠ [] → s.outstanding.length < 256 →
      ∃ group, (s.map.constructPackets data).1 = .ok group := by
    intro hdata hroom
    obtain ⟨k, hk, hnew⟩ := hfree hdata hroom
    exact FftRequestMap.exists_constructPackets h.promiseKeys hdata hk hnew
  obtain ⟨e, tracker, hcall⟩ | ⟨newId, group, tracker, hnew, hgroup, hcall⟩ :=
    FftRequestMap.constructPackets_cases h.promiseKeys data
  · rw [hcall] at hsucceeds
    simp only [step, hcall]
    exact
      { nodup := h.nodup, sound := h.sound, staged := h.staged, promises := h.promises
        keys := h.keys, promiseKeys := h.promiseKeys
        lawful := h.lawful.construct hsucceeds (fun _ hok => by cases hok) h.lawful.fulfilled }
  · have hdata : data ≠ [] := by
      rintro rfl
      cases hgroup
    have hid : group.requestId = newId := by
      rw [FftPacketGroup.ofVector_eq hdata] at hgroup
      exact (congrArg FftPacketGroup.requestId (Option.some.inj hgroup)).symm
    have hother : ∀ r ∈ s.requests, r.group.requestId ≠ newId := fun r hr heq =>
      hnew (heq ▸ Table.mem_of_lookup (h.staged r hr))
    have hsound := Request.Sound.ofVector hdata hle hgroup
    rw [hcall] at hsucceeds
    simp only [step, hcall]
    refine
      { nodup := ?_, sound := ?_, staged := ?_, promises := ?_, keys := ?_, promiseKeys := ?_
        lawful := h.lawful.construct hsucceeds ?_ ?_ }
    · rw [List.map_cons, List.nodup_cons]
      refine ⟨fun hmem => ?_, h.nodup⟩
      obtain ⟨r, hr, heq⟩ := List.mem_map.mp hmem
      exact hother r hr (heq.trans hid)
    · exact List.forall_mem_cons.mpr ⟨hsound, h.sound⟩
    · refine List.forall_mem_cons.mpr ⟨?_, fun r hr => ?_⟩
      · rw [Table.lookup_insert, if_pos hid]
        rfl
      · rw [Table.lookup_insert, if_neg (hother r hr), h.staged r hr]
    · refine List.forall_mem_cons.mpr ⟨?_, fun r hr => ?_⟩
      · rw [Table.lookup_insert, if_pos hid]
        rfl
      · rw [Table.lookup_insert, if_neg (hother r hr), h.promises r hr]
    · intro id hmem
      obtain rfl | hmem := (AList.mem_insert _).mp hmem
      · exact ⟨_, List.mem_cons_self, hid⟩
      · obtain ⟨r, hr, heq⟩ := h.keys id hmem
        exact ⟨r, List.mem_cons_of_mem _ hr, heq⟩
    · intro id hmem
      exact (AList.mem_insert _).mpr (((AList.mem_insert _).mp hmem).imp_right (h.promiseKeys id))
    · rintro _ ⟨⟩ r hr
      rw [hid]
      exact hother r (List.mem_of_mem_filter hr)
    · refine List.forall_mem_cons.mpr ⟨?_, h.lawful.fulfilled⟩
      have hwaits : ¬ (⟨group, [], []⟩ : Request α).Complete := by
        rw [hsound.complete_iff]
        show ¬ group.numRemainingPackets = 0
        rw [hsound.fresh.remaining, length_packets_of_ofVector hdata hgroup]
        exact Nat.succ_ne_zero _
      rw [if_neg hwaits]

/-- One request gets a response, and its promise what it is due. -/
theorem Inv.respond (h : Inv s) {r : Request α} {m : FftRequestMap α} (hr : r ∈ s.requests)
    (hid : r.group.requestId = received.requestId)
    (hstaged : ∀ id, m.stagedPacketGroups.lookup id = if id = received.requestId then
      some (r.group.receive (r.responses ++ [received])) else s.map.stagedPacketGroups.lookup id)
    (hpromises : ∀ id, m.unfulfilledPromises.lookup id = if id = received.requestId then
      some (r.fulfilled ++ given).head? else s.map.unfulfilledPromises.lookup id)
    (hdue : r.fulfilled ++ given =
      if Request.Complete ⟨r.group, r.responses ++ [received], r.fulfilled ++ given⟩ then
        [r.group.receive (r.responses ++ [received])] else []) :
    Inv { s with map := m, requests := respond received given s.requests } := by
  -- the request that the response belongs to is `r`, so the others are as they were
  have hone : ∀ q ∈ s.requests, q.group.requestId = received.requestId → q = r := fun q hq heq =>
    List.inj_on_of_nodup_map h.nodup hq hr (heq.trans hid.symm)
  have hkeys : ∀ id ∈ m.stagedPacketGroups, id = received.requestId ∨
      id ∈ s.map.stagedPacketGroups := by
    intro id hmem
    by_cases heq : id = received.requestId
    · exact .inl heq
    · obtain ⟨g, hg⟩ := Table.mem_iff_lookup.mp hmem
      rw [hstaged, if_neg heq] at hg
      exact .inr (Table.mem_of_lookup hg)
  rw [respond_eq_map h.nodup]
  have hforall : ∀ {P : Request α → Prop},
      P ⟨r.group, r.responses ++ [received], r.fulfilled ++ given⟩ →
      (∀ q ∈ s.requests, q.group.requestId ≠ received.requestId → P q) →
      ∀ q ∈ s.requests.map (respondOne received given), P q := by
    intro P hP hothers q' hq'
    obtain ⟨q, hq, rfl⟩ := List.mem_map.mp hq'
    rw [respondOne]
    by_cases heq : q.group.requestId = received.requestId
    · obtain rfl := hone q hq heq
      rw [if_pos heq]
      exact hP
    · rw [if_neg heq]
      exact hothers q hq heq
  have hids : (s.requests.map (respondOne received given)).map (·.group.requestId) =
      s.requests.map (·.group.requestId) := by
    rw [List.map_map]
    apply List.map_congr_left
    intro q _
    by_cases heq : q.group.requestId = received.requestId <;> simp [respondOne, heq]
  refine
    { nodup := ?_, sound := ?_, staged := ?_, promises := ?_, keys := ?_, promiseKeys := ?_
      lawful := ⟨h.lawful.succeeds, h.lawful.fresh, ?_⟩ }
  · rw [hids]
    exact h.nodup
  · exact hforall ⟨(h.sound r hr).fresh, (h.sound r hr).range⟩ fun q hq _ => h.sound q hq
  · refine hforall ?_ fun q hq hne => ?_
    · rw [hstaged, if_pos hid]
    · rw [hstaged, if_neg hne, h.staged q hq]
  · refine hforall ?_ fun q hq hne => ?_
    · rw [hpromises, if_pos hid]
    · rw [hpromises, if_neg hne, h.promises q hq]
  · intro id hmem
    have hmem' : id ∈ s.map.stagedPacketGroups := by
      obtain rfl | hmem := hkeys id hmem
      · exact hid ▸ Table.mem_of_lookup (h.staged r hr)
      · exact hmem
    obtain ⟨q, hq, heq⟩ := h.keys id hmem'
    have hin : id ∈ (s.requests.map (respondOne received given)).map (·.group.requestId) := by
      rw [hids]
      exact List.mem_map.mpr ⟨q, hq, heq⟩
    exact List.mem_map.mp hin
  · intro id hmem
    obtain ⟨v, hv⟩ := Table.mem_iff_lookup.mp hmem
    rw [hpromises] at hv
    apply Table.mem_iff_lookup.mpr
    by_cases heq : id = received.requestId
    · exact ⟨_, by rw [hstaged, if_pos heq]⟩
    · rw [if_neg heq] at hv
      rw [hstaged, if_neg heq]
      exact Table.mem_iff_lookup.mp (h.promiseKeys id (Table.mem_of_lookup hv))
  · exact hforall hdue fun q hq _ => h.lawful.fulfilled q hq

theorem lookup_adjust_const {V : Type u} {t : Table UInt8 V} {k : UInt8} (hk : k ∈ t)
    (k' : UInt8) (w : V) :
    (t.adjust k fun _ => w).lookup k' = if k' = k then some w else t.lookup k' := by
  rw [Table.lookup_adjust]
  by_cases heq : k' = k
  · obtain ⟨v, hv⟩ := Table.mem_iff_lookup.mp hk
    rw [if_pos heq, if_pos heq, heq, hv]
    rfl
  · rw [if_neg heq, if_neg heq]

theorem Inv.updatePendingPackets (h : Inv s) (received : FftDataPacket α) :
    Inv (s.step (.updatePendingPackets received)) := by
  cases hlookup : s.map.stagedPacketGroups.lookup received.requestId with
  | none =>
    have hnone : ∀ r ∈ s.requests, r.group.requestId ≠ received.requestId := by
      intro r hr heq
      have hr' := h.staged r hr
      rw [heq, hlookup] at hr'
      cases hr'
    simp only [step, FftRequestMap.updatePendingPackets_unknown hlookup, respond_of_notMem hnone]
    exact h
  | some g =>
    have hmem := Table.mem_of_lookup hlookup
    obtain ⟨r, hr, hid⟩ := h.keys _ hmem
    obtain rfl : r.group.receive r.responses = g := by
      have hr' := h.staged r hr
      rw [hid, hlookup] at hr'
      exact (Option.some.inj hr').symm
    have hsound := h.sound r hr
    have hpromise := h.promises r hr
    rw [hid] at hpromise
    have hmemPromise := Table.mem_of_lookup hpromise
    have hfulfilled := h.lawful.fulfilled r hr
    -- the request with the response is complete when nothing of its group remains
    have hcomplete : ∀ given, Request.Complete ⟨r.group, r.responses ++ [received], given⟩ ↔
        (r.group.receive (r.responses ++ [received])).numRemainingPackets = 0 := fun given =>
      Request.Sound.complete_iff (r := ⟨r.group, r.responses ++ [received], given⟩)
        ⟨hsound.fresh, hsound.range⟩
    have hsame : ∀ id, s.map.unfulfilledPromises.lookup id = if id = received.requestId then
        some (r.fulfilled ++ []).head? else s.map.unfulfilledPromises.lookup id := by
      intro id
      by_cases heq : id = received.requestId
      · rw [if_pos heq, heq, hpromise, List.append_nil]
      · rw [if_neg heq]
    have hreceive := FftPacketGroup.receive_concat r.group r.responses received
    cases hupdate : (r.group.receive r.responses).updatePacketWithResponse received with
    | mk result request' =>
      rw [hupdate] at hreceive
      subst hreceive
      cases result with
      | error e =>
        have hkeep := hsound.receive_of_error (p := received) (e := e) (by rw [hupdate])
        simp only [step, FftRequestMap.updatePendingPackets_rejected hlookup hupdate]
        refine h.respond hr hid (lookup_adjust_const hmem · _) hsame ?_
        simp only [hcomplete, hkeep, ← hsound.complete_iff, List.append_nil]
        exact hfulfilled
      | ok _ =>
        have hwaits := hsound.not_complete_of_ok (p := received) (by rw [hupdate])
        rw [if_neg hwaits] at hfulfilled
        by_cases hremaining :
            (r.group.receive (r.responses ++ [received])).numRemainingPackets = 0
        · have hnone : s.map.unfulfilledPromises.lookup received.requestId = some none := by
            rw [hpromise, hfulfilled]
            rfl
          simp only [step, FftRequestMap.updatePendingPackets_complete hlookup hnone hupdate
            hremaining, lookup_adjust_const hmemPromise, if_pos]
          refine h.respond hr hid (lookup_adjust_const hmem · _) (fun id => ?_) ?_
          · rw [lookup_adjust_const hmemPromise, hfulfilled]
            rfl
          · simp only [hcomplete, if_pos hremaining, hfulfilled]
            rfl
        · simp only [step,
            FftRequestMap.updatePendingPackets_remaining hlookup hupdate hremaining]
          refine h.respond hr hid (lookup_adjust_const hmem · _) hsame ?_
          simp only [hcomplete, if_neg hremaining, hfulfilled, List.append_nil]

theorem inductive_inv : (system α).InductiveBy Allowed Inv where
  init := by
    rintro s rfl
    exact inv_start
  step := by
    rintro s (data | received) s' h hok ⟨⟩
    · exact h.constructPackets hok.1 hok.2
    · exact h.updatePendingPackets received

/-- While the search has an id left, requests are constructed and their promises fulfilled as they
should be. -/
theorem lawful_of_reachBy (h : (system α).ReachBy Allowed s) : Lawful s :=
  (inductive_inv.reach h).lawful

/-- Two of three requests are answered, the last one first. -/
theorem lawful_of_reachBy_three : ∃ s : RequestRun Int, (system Int).ReachBy Allowed s ∧
    s.outstanding.map (·.group.requestId) = [1] ∧ Lawful s := by
  have hstart : (system Int).ReachBy Allowed start := .init rfl
  have hzero := hstart.step (Call.constructPackets [0, 5])
    ⟨by decide, fun _ _ => ⟨0, by decide, by decide⟩⟩ rfl
  have hone := hzero.step (Call.constructPackets [6])
    ⟨by decide, fun _ _ => ⟨0, by decide, by decide⟩⟩ rfl
  have htwo := hone.step (Call.constructPackets [7])
    ⟨by decide, fun _ _ => ⟨0, by decide, by decide⟩⟩ rfl
  have hlast := htwo.step (Call.updatePendingPackets ⟨⟨0, 2, 0, 256⟩, [1], by decide⟩) trivial rfl
  have hfirst := hlast.step (Call.updatePendingPackets ⟨⟨0, 0, 0, 512⟩, [2, 3], by decide⟩)
    trivial rfl
  exact ⟨_, hfirst, by decide, lawful_of_reachBy hfirst⟩

/-- A run of `n` requests, each answered before the next. -/
structure Answered (n : ℕ) (s : RequestRun Int) : Prop where
  reach : (system Int).Reach s
  inv : Inv s
  tracker : s.map.idTracker = UInt8.ofNat n
  staged : ∀ id, id ∈ s.map.stagedPacketGroups ↔ id.toNat < n
  outstanding : s.outstanding = []

theorem Answered.next {n : ℕ} {s : RequestRun Int} (h : Answered n s) (hn : n < 256) :
    ∃ s', Answered (n + 1) s' := by
  have hid : (UInt8.ofNat n).toNat = n := by
    rw [UInt8.toNat_ofNat']
    omega
  have hnew : s.map.idTracker ∉ s.map.stagedPacketGroups := by
    rw [h.tracker, h.staged, hid]
    omega
  have hzero : s.map.idTracker + UInt8.ofNat 0 ∉ s.map.stagedPacketGroups := by
    simpa using hnew
  have hinv : Inv (s.step (.constructPackets [0])) :=
    h.inv.constructPackets (by decide) fun _ _ => ⟨0, by decide, hzero⟩
  have hget : s.map.getNewId = (some s.map.idTracker, s.map.idTracker + 1) := if_neg hnew
  have hpromise : s.map.idTracker ∉ s.map.unfulfilledPromises := fun hmem =>
    hnew (h.inv.promiseKeys _ hmem)
  obtain ⟨group, hgroup, hgroupId, hnumbers⟩ : ∃ group,
      FftPacketGroup.ofVector [(0 : Int)] s.map.idTracker = some group ∧
      group.requestId = s.map.idTracker ∧
      group.packets.map FftDataPacket.sequenceNumber = [0] :=
    ⟨_, FftPacketGroup.ofVector_eq (by decide), rfl, rfl⟩
  have hconstruct : s.step (.constructPackets [0]) =
      { map :=
          { stagedPacketGroups := s.map.stagedPacketGroups.insert s.map.idTracker group
            unfulfilledPromises := s.map.unfulfilledPromises.insert s.map.idTracker none
            idTracker := s.map.idTracker + 1 }
        requests := ⟨group, [], []⟩ :: s.requests
        constructions := ⟨[0], s.outstanding, .ok group⟩ :: s.constructions } := by
    simp only [step, FftRequestMap.constructPackets, hget, if_neg hnew, hgroup, if_neg hpromise]
  let received : FftDataPacket Int := ⟨⟨0, s.map.idTracker, 0, 256⟩, [1], by decide⟩
  refine ⟨(s.step (.constructPackets [0])).step (.updatePendingPackets received),
    (h.reach.next _ rfl).next _ rfl, hinv.updatePendingPackets received, ?_, fun id => ?_, ?_⟩
  · have hids := FftRequestMap.updatePendingPackets_ids
      (s.step (.constructPackets [0])).map received
    show ((s.step (.constructPackets [0])).map.updatePendingPackets received).2.idTracker = _
    rw [hids.1, hconstruct, h.tracker, UInt8.ofNat_add]
    rfl
  · have hids := FftRequestMap.updatePendingPackets_ids
      (s.step (.constructPackets [0])).map received
    show id ∈ ((s.step (.constructPackets [0])).map.updatePendingPackets
      received).2.stagedPacketGroups ↔ _
    rw [hids.2, hconstruct, AList.mem_insert, h.staged, h.tracker, ← UInt8.toNat_inj, hid]
    omega
  · have hrequests : ∃ given, ((s.step (.constructPackets [0])).step
        (.updatePendingPackets received)).requests =
          ⟨group, [received], given⟩ :: s.requests := by
      rw [hconstruct]
      exact ⟨_, if_pos hgroupId⟩
    obtain ⟨given, hrequests⟩ := hrequests
    rw [RequestRun.outstanding, hrequests, List.filter_cons_of_neg]
    · exact h.outstanding
    · rw [decide_not, Bool.not_eq_true', Bool.not_eq_false, decide_eq_true_eq]
      intro p hp
      have hzero : p.sequenceNumber = 0 :=
        List.mem_singleton.mp (hnumbers ▸ List.mem_map_of_mem hp)
      rw [hzero]
      show List.count 0 (group.packets.map FftDataPacket.sequenceNumber) ≤ 1
      rw [hnumbers]
      decide

theorem exists_answered {n : ℕ} (hn : n ≤ 256) : ∃ s, Answered n s := by
  induction n with
  | zero =>
    refine ⟨start, .init rfl, inv_start, rfl, fun id => ⟨fun h => ?_, fun h => ?_⟩, rfl⟩
    · cases h
    · omega
  | succ n ih =>
    obtain ⟨s, hs⟩ := ih (by omega)
    exact hs.next (by omega)

/-- After 256 requests nothing is outstanding, and yet no vector becomes a request any more. -/
theorem not_lawful_of_answered : ∃ s, (system Int).Reach s ∧ ¬ s.Lawful := by
  obtain ⟨s, hs⟩ := exists_answered (Nat.le_refl 256)
  have hall : ∀ id, id ∈ s.map.stagedPacketGroups := fun id => (hs.staged id).mpr id.toNat_lt
  refine ⟨s.step (.constructPackets [0]), hs.reach.next _ rfl, fun hlaw => ?_⟩
  have hroom : s.outstanding.length < 256 := by
    rw [hs.outstanding]
    decide
  obtain ⟨group, hgroup⟩ := hlaw.succeeds ⟨[0], s.outstanding, (s.map.constructPackets [0]).1⟩
    List.mem_cons_self (List.cons_ne_nil _ _) hroom
  rw [FftRequestMap.constructPackets_of_all_staged hall] at hgroup
  cases hgroup

end RequestRun

end Sem.FftAccel

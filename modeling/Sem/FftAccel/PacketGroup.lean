import Mathlib.Data.List.Perm.Basic
import Mathlib.Data.List.Forall2
import Mathlib.Data.List.Induction

/-!
# FFT packet groups

A vector of samples is split into packets of at most 256 samples, which an acceleration engine
answers one by one, in any order. A packet is named by its sequence number, a byte.

* `updatePacketWithResponse_rejects`: what was answered before, or is no packet of the group, is
  rejected.
* `groupLaw_iff`: the group collects the answers in packet order if the sequence number can name
  every packet, that is up to 65536 samples.
-/

namespace Sem.FftAccel

universe u

variable {α : Type u}

/-! ## Packets -/

/-- `fft_data_packet::max_elements`. -/
def maxElements : ℕ := 256

/-- `data_packet_header`. -/
structure DataPacketHeader where
  packetSequenceNum : UInt8
  fftRequestId : UInt8
  controlStateRegister : UInt8
  fftSize : UInt16
  deriving DecidableEq, Repr

/-- `fft_data_packet`; its constructors reject a larger payload. -/
structure FftDataPacket (α : Type u) where
  header : DataPacketHeader
  payloadData : List α
  length_le : payloadData.length ≤ maxElements

namespace FftDataPacket

/-- The place of a packet in its group. -/
def sequenceNumber (p : FftDataPacket α) : UInt8 := p.header.packetSequenceNum

/-- The request that a packet belongs to. -/
def requestId (p : FftDataPacket α) : UInt8 := p.header.fftRequestId

/-- The constructor from a range of a vector. -/
def ofRange (data : List α) (requestId sequenceNum : UInt8) : Option (FftDataPacket α) :=
  if h : data.length ≤ maxElements then
    some ⟨⟨sequenceNum, requestId, 0, UInt16.ofNat maxElements⟩, data, h⟩
  else none

end FftDataPacket

/-! ## Groups -/

/-- `fft_packet_group`. -/
structure FftPacketGroup (α : Type u) where
  requestId : UInt8
  packets : List (FftDataPacket α)
  responseReceivedList : List Bool
  numRemainingPackets : ℕ

/-- Why a response is rejected. -/
inductive ResponseError
  | alreadyReceived | outOfRange
  deriving DecidableEq, Repr

namespace FftPacketGroup

/-- The samples of packet `i`. -/
def segment (data : List α) (i : ℕ) : List α :=
  (data.take ((i + 1) * maxElements)).drop (i * maxElements)

/-- How many packets the data take; no data take one. -/
def numPackets (data : List α) : ℕ := (data.length - 1) / maxElements + 1

/-- The constructor; it throws for an empty vector. The index is cut down to a byte. -/
def ofVector (data : List α) (requestId : UInt8) : Option (FftPacketGroup α) :=
  if data = [] then none
  else do
    let packets ← (List.range (numPackets data)).mapM fun i =>
      FftDataPacket.ofRange (segment data i) requestId (UInt8.ofNat i)
    pure
      { requestId := requestId
        packets := packets
        responseReceivedList := List.replicate (numPackets data) false
        numRemainingPackets := numPackets data }

/-- `update_packet_with_response`: the result, and the group afterwards. -/
def updatePacketWithResponse (g : FftPacketGroup α) (response : FftDataPacket α) :
    Except ResponseError Unit × FftPacketGroup α :=
  let seqNum := response.sequenceNumber.toNat
  match g.responseReceivedList[seqNum]? with
  | none => (.error .outOfRange, g)
  | some true => (.error .alreadyReceived, g)
  | some false =>
    if seqNum < g.packets.length then
      (.ok (), { g with
        packets := g.packets.set seqNum response
        responseReceivedList := g.responseReceivedList.set seqNum true
        numRemainingPackets := g.numRemainingPackets - 1 })
    else (.error .outOfRange, g)

/-- `to_vector`: the payloads in the order in which the packets are stored. -/
def toVector (g : FftPacketGroup α) : List α := g.packets.flatMap FftDataPacket.payloadData

/-- The group after a sequence of responses. -/
def receive (g : FftPacketGroup α) (responses : List (FftDataPacket α)) : FftPacketGroup α :=
  responses.foldl (fun g r => (g.updatePacketWithResponse r).2) g

/-- Responses are received one after the other. -/
theorem receive_concat (g : FftPacketGroup α) (rs : List (FftDataPacket α)) (r : FftDataPacket α) :
    g.receive (rs ++ [r]) = ((g.receive rs).updatePacketWithResponse r).2 := by
  simp [receive]

end FftPacketGroup

/-! ## One response -/

section Update

variable {g : FftPacketGroup α} {r : FftDataPacket α}

/-- A sequence number beyond the packets is refused. -/
theorem update_outOfRange (hlen : g.responseReceivedList.length = g.packets.length)
    (h : g.packets.length ≤ r.sequenceNumber.toNat) :
    g.updatePacketWithResponse r = (.error .outOfRange, g) := by
  have hnone : g.responseReceivedList[r.sequenceNumber.toNat]? = none :=
    List.getElem?_eq_none (by omega)
  simp only [FftPacketGroup.updatePacketWithResponse, hnone]

/-- So is a second response. -/
theorem update_alreadyReceived
    (h : g.responseReceivedList[r.sequenceNumber.toNat]? = some true) :
    g.updatePacketWithResponse r = (.error .alreadyReceived, g) := by
  simp only [FftPacketGroup.updatePacketWithResponse, h]

/-- A first response takes the place of its packet. -/
theorem update_accepted (h : g.responseReceivedList[r.sequenceNumber.toNat]? = some false)
    (hlt : r.sequenceNumber.toNat < g.packets.length) :
    g.updatePacketWithResponse r = (.ok (), { g with
      packets := g.packets.set r.sequenceNumber.toNat r
      responseReceivedList := g.responseReceivedList.set r.sequenceNumber.toNat true
      numRemainingPackets := g.numRemainingPackets - 1 }) := by
  simp only [FftPacketGroup.updatePacketWithResponse, h, if_pos hlt]

end Update

/-! ## Any responses -/

/-- The numbers of responses, as indices. -/
def indices (rs : List (FftDataPacket α)) : List ℕ := rs.map fun r => r.sequenceNumber.toNat

theorem mem_indices {rs : List (FftDataPacket α)} {s : UInt8} :
    s.toNat ∈ indices rs ↔ s ∈ rs.map FftDataPacket.sequenceNumber := by
  simp [indices, UInt8.toNat_inj]

/-- What a fresh group is after the responses `rs`: the first response with a number counts. -/
structure Received (g₀ : FftPacketGroup α) (rs : List (FftDataPacket α)) (g : FftPacketGroup α) :
    Prop where
  length_packets : g.packets.length = g₀.packets.length
  length_received : g.responseReceivedList.length = g₀.packets.length
  received : ∀ i < g₀.packets.length, g.responseReceivedList[i]? = some (decide (i ∈ indices rs))
  packets : ∀ i < g₀.packets.length,
    g.packets[i]? = (rs.find? fun r => r.sequenceNumber.toNat = i).or g₀.packets[i]?

/-- A group that has no response yet. -/
structure Fresh (g : FftPacketGroup α) : Prop where
  received : g.responseReceivedList = List.replicate g.packets.length false
  remaining : g.numRemainingPackets = g.packets.length

variable {g₀ g : FftPacketGroup α} {rs : List (FftDataPacket α)} {r : FftDataPacket α}

/-- Before any response the packets are those sent. -/
theorem Fresh.received_nil (h : Fresh g₀) : Received g₀ [] g₀ where
  length_packets := rfl
  length_received := by rw [h.received, List.length_replicate]
  received i hi := by simp [h.received, hi, indices]
  packets i _ := by simp

/-- What was answered before, or is no packet of the group, is rejected. -/
theorem Received.rejects (h : Received g₀ rs g)
    (hr : r.sequenceNumber.toNat ∈ indices rs ∨ g₀.packets.length ≤ r.sequenceNumber.toNat) :
    ∃ e, g.updatePacketWithResponse r = (.error e, g) := by
  by_cases hlt : r.sequenceNumber.toNat < g₀.packets.length
  · have hmem : r.sequenceNumber.toNat ∈ indices rs := hr.resolve_right (by omega)
    refine ⟨_, update_alreadyReceived ?_⟩
    rw [h.received _ hlt, decide_eq_true hmem]
  · refine ⟨_, update_outOfRange ?_ ?_⟩
    · rw [h.length_received, h.length_packets]
    · rw [h.length_packets]
      omega

/-- A packet of the group that has no answer yet gets one. -/
theorem Received.accepts (h : Received g₀ rs g) (hnew : r.sequenceNumber.toNat ∉ indices rs)
    (hlt : r.sequenceNumber.toNat < g₀.packets.length) :
    g.updatePacketWithResponse r = (.ok (), { g with
      packets := g.packets.set r.sequenceNumber.toNat r
      responseReceivedList := g.responseReceivedList.set r.sequenceNumber.toNat true
      numRemainingPackets := g.numRemainingPackets - 1 }) := by
  apply update_accepted
  · rw [h.received _ hlt, decide_eq_false hnew]
  · rw [h.length_packets]
    exact hlt

/-- The first response of a number stays the first. -/
theorem find?_concat_of_mem {i : ℕ} (h : i ∈ indices rs) :
    ((rs ++ [r]).find? fun r => r.sequenceNumber.toNat = i) =
      rs.find? fun r => r.sequenceNumber.toNat = i := by
  obtain ⟨q, hq, heq⟩ := List.mem_map.mp h
  rw [List.find?_append, Option.or_of_isSome]
  exact List.find?_isSome.mpr ⟨q, hq, by simpa using heq⟩

theorem find?_eq_none_of_notMem {i : ℕ} (h : i ∉ indices rs) :
    (rs.find? fun r => r.sequenceNumber.toNat = i) = none := by
  rw [List.find?_eq_none]
  intro q hq hi
  exact h (List.mem_map.mpr ⟨q, hq, by simpa using hi⟩)

/-- One more response. -/
theorem Received.step (h : Received g₀ rs g) :
    Received g₀ (rs ++ [r]) (g.updatePacketWithResponse r).2 := by
  by_cases hold : r.sequenceNumber.toNat ∈ indices rs ∨
      g₀.packets.length ≤ r.sequenceNumber.toNat
  · obtain ⟨e, he⟩ := h.rejects hold
    rw [he]
    refine ⟨h.length_packets, h.length_received, fun i hi => ?_, fun i hi => ?_⟩
    · have hiff : i ∈ indices (rs ++ [r]) ↔ i ∈ indices rs := by
        simp only [indices, List.map_append, List.map_cons, List.map_nil, List.mem_append,
          List.mem_singleton]
        constructor
        · rintro (hi' | rfl)
          · exact hi'
          · exact hold.resolve_right (by omega)
        · exact .inl
      rw [h.received i hi]
      simp only [hiff]
    · rw [h.packets i hi]
      by_cases hmem : i ∈ indices rs
      · rw [find?_concat_of_mem hmem]
      · have hne : r.sequenceNumber.toNat ≠ i := by
          rintro rfl
          exact hmem (hold.resolve_right (by omega))
        rw [List.find?_append, find?_eq_none_of_notMem hmem]
        simp [hne]
  · obtain ⟨hnew, hge⟩ := not_or.mp hold
    have hlt := Nat.lt_of_not_le hge
    rw [h.accepts hnew hlt]
    refine ⟨?_, ?_, fun i hi => ?_, fun i hi => ?_⟩
    · simpa using h.length_packets
    · simpa using h.length_received
    · by_cases hri : r.sequenceNumber.toNat = i
      · subst hri
        simp [indices, h.length_received, hi]
      · rw [List.getElem?_set_ne hri, h.received i hi]
        simp [indices, Ne.symm hri]
    · by_cases hri : r.sequenceNumber.toNat = i
      · subst hri
        rw [List.find?_append, find?_eq_none_of_notMem hnew,
          List.getElem?_set_self (by rw [h.length_packets]; exact hi)]
        simp
      · rw [List.getElem?_set_ne hri, h.packets i hi, List.find?_append]
        simp [hri]

/-- By induction over the responses, refused ones included. -/
theorem Fresh.received_receive (h : Fresh g₀) (rs : List (FftDataPacket α)) :
    Received g₀ rs (g₀.receive rs) := by
  induction rs using List.reverseRecOn with
  | nil => exact h.received_nil
  | append_singleton rs r ih =>
    rw [FftPacketGroup.receive_concat]
    exact ih.step

/-- Responses with different numbers of the group each take one from what remains. -/
theorem Fresh.remaining_receive (h : Fresh g₀) (hnodup : (indices rs).Nodup)
    (hlt : ∀ i ∈ indices rs, i < g₀.packets.length) :
    (g₀.receive rs).numRemainingPackets + rs.length = g₀.packets.length := by
  induction rs using List.reverseRecOn with
  | nil => simpa [FftPacketGroup.receive] using h.remaining
  | append_singleton rs r ih =>
    rw [indices, List.map_append] at hnodup
    obtain ⟨hrs, -, hdisj⟩ := List.nodup_append.mp hnodup
    have hnew : r.sequenceNumber.toNat ∉ indices rs := fun hmem =>
      hdisj _ hmem _ (by simp) rfl
    have hr : r.sequenceNumber.toNat < g₀.packets.length := hlt _ (by simp [indices])
    have hcount := ih hrs fun i hi => hlt i (by
      simp only [indices, List.map_append, List.mem_append]
      exact .inl hi)
    have hroom : rs.length < g₀.packets.length := by
      have hsub : (r.sequenceNumber.toNat :: indices rs).length ≤
          (List.range g₀.packets.length).length := by
        apply List.Nodup.length_le_of_subset
        · exact List.nodup_cons.mpr ⟨hnew, hrs⟩
        · intro i hi
          rw [List.mem_range]
          obtain rfl | hi := List.mem_cons.mp hi
          · exact hr
          · exact hlt i (by
              simp only [indices, List.map_append, List.mem_append]
              exact .inl hi)
      simpa [indices, Nat.succ_le_iff] using hsub
    rw [FftPacketGroup.receive_concat, (h.received_receive rs).accepts hnew hr]
    simp only [List.length_append, List.length_cons, List.length_nil]
    omega

/-- What remains is counted in the list of received responses. -/
theorem Fresh.remaining_eq_count (h : Fresh g₀) (rs : List (FftDataPacket α)) :
    (g₀.receive rs).numRemainingPackets = (g₀.receive rs).responseReceivedList.count false := by
  induction rs using List.reverseRecOn with
  | nil =>
    show g₀.numRemainingPackets = g₀.responseReceivedList.count false
    rw [h.received, List.count_replicate_self, h.remaining]
  | append_singleton rs r ih =>
    have hrec := h.received_receive rs
    rw [FftPacketGroup.receive_concat]
    by_cases hold : r.sequenceNumber.toNat ∈ indices rs ∨
        g₀.packets.length ≤ r.sequenceNumber.toNat
    · obtain ⟨e, he⟩ := hrec.rejects hold
      rw [he]
      exact ih
    · obtain ⟨hnew, hge⟩ := not_or.mp hold
      have hlt := Nat.lt_of_not_le hge
      have hidx : r.sequenceNumber.toNat < (g₀.receive rs).responseReceivedList.length := by
        rw [hrec.length_received]
        exact hlt
      have hfalse : (g₀.receive rs).responseReceivedList[r.sequenceNumber.toNat] = false := by
        have heq := hrec.received _ hlt
        rw [List.getElem?_eq_getElem hidx] at heq
        simpa [hnew] using heq
      rw [hrec.accepts hnew hlt]
      simp only [List.count_set hidx, hfalse, ih]
      simp

/-- Nothing remains once every packet has an answer. -/
theorem Fresh.remaining_eq_zero_iff (h : Fresh g₀) (rs : List (FftDataPacket α)) :
    (g₀.receive rs).numRemainingPackets = 0 ↔ ∀ i < g₀.packets.length, i ∈ indices rs := by
  have hrec := h.received_receive rs
  rw [h.remaining_eq_count, List.count_eq_zero]
  constructor
  · intro hnone i hi
    by_contra hnew
    have hfalse := hrec.received i hi
    rw [decide_eq_false hnew] at hfalse
    exact hnone (List.mem_of_getElem? hfalse)
  · intro hall hmem
    obtain ⟨i, hi⟩ := List.mem_iff_getElem?.mp hmem
    have hlt : i < g₀.packets.length := by
      rw [← hrec.length_received]
      exact (List.getElem?_eq_some_iff.mp hi).1
    rw [hrec.received i hlt, decide_eq_true (hall i hlt)] at hi
    cases hi

/-! ## The group of a vector -/

namespace FftPacketGroup

variable {data : List α} {requestId : UInt8}

/-- No packet has more than its number of elements. -/
theorem length_segment_le (data : List α) (i : ℕ) : (segment data i).length ≤ maxElements := by
  have h : (i + 1) * maxElements = i * maxElements + maxElements := Nat.succ_mul ..
  simp only [segment, List.length_drop, List.length_take]
  omega

/-- The packet of index `i`. -/
def packetOf (data : List α) (requestId : UInt8) (i : ℕ) : FftDataPacket α :=
  ⟨⟨UInt8.ofNat i, requestId, 0, UInt16.ofNat maxElements⟩, segment data i,
    length_segment_le data i⟩

theorem ofVector_eq (h : data ≠ []) :
    ofVector data requestId = some
      { requestId := requestId
        packets := (List.range (numPackets data)).map (packetOf data requestId)
        responseReceivedList := List.replicate (numPackets data) false
        numRemainingPackets := numPackets data } := by
  have hpacket : ∀ i, FftDataPacket.ofRange (segment data i) requestId (UInt8.ofNat i) =
      some (packetOf data requestId i) := fun i => dif_pos (length_segment_le data i)
  have hpackets : (List.range (numPackets data)).mapM (fun i =>
      FftDataPacket.ofRange (segment data i) requestId (UInt8.ofNat i)) =
        some ((List.range (numPackets data)).map (packetOf data requestId)) := by
    simp only [hpacket]
    exact List.mapM_pure ..
  rw [ofVector, if_neg h, hpackets]
  rfl

/-- Consecutive segments are a beginning of the vector. -/
theorem flatMap_segment (data : List α) (n : ℕ) :
    (List.range n).flatMap (segment data) = data.take (n * maxElements) := by
  induction n with
  | zero => simp
  | succ n ih =>
    have hle : n * maxElements ≤ (n + 1) * maxElements := Nat.mul_le_mul_right _ (Nat.le_succ n)
    rw [List.range_succ, List.flatMap_append, ih, List.flatMap_cons, List.flatMap_nil,
      List.append_nil, segment]
    conv_rhs => rw [← List.take_append_drop (n * maxElements) (data.take ((n + 1) * maxElements))]
    rw [List.take_take, Nat.min_eq_left hle]

theorem length_le_numPackets (data : List α) : data.length ≤ numPackets data * maxElements := by
  simp only [numPackets, maxElements]
  omega

/-- Sequence numbers suffice for 65536 elements. -/
theorem numPackets_le_iff (h : data ≠ []) : numPackets data ≤ 256 ↔ data.length ≤ 65536 := by
  have hpos : 0 < data.length := List.length_pos_iff.mpr h
  simp only [numPackets, maxElements]
  omega

end FftPacketGroup

/-! ## The law -/

/-- A response to the packet `p`. -/
structure Answers (p r : FftDataPacket α) : Prop where
  sequenceNumber : r.sequenceNumber = p.sequenceNumber
  length : r.payloadData.length = p.payloadData.length

/-- What a group made from `data` promises, whatever the order in which the answers arrive. -/
structure GroupLaw (data : List α) (g : FftPacketGroup α) : Prop where
  /-- Before any response the group holds the input. -/
  initial : g.toVector = data
  /-- A response with a number that was answered, or of no packet, changes nothing. -/
  rejects : ∀ (rs : List (FftDataPacket α)) (r : FftDataPacket α),
    r.sequenceNumber ∈ rs.map FftDataPacket.sequenceNumber ∨
      g.packets.length ≤ r.sequenceNumber.toNat →
    ∃ e, (g.receive rs).updatePacketWithResponse r = (.error e, g.receive rs)
  /-- Each answer is accepted when it arrives. -/
  accepts : ∀ answers, List.Forall₂ Answers g.packets answers → ∀ done r rest,
    (done ++ r :: rest).Perm answers → ((g.receive done).updatePacketWithResponse r).1 = .ok ()
  /-- The packets that remain are those without an answer. -/
  remaining : ∀ answers, List.Forall₂ Answers g.packets answers → ∀ done rest,
    (done ++ rest).Perm answers → (g.receive done).numRemainingPackets = rest.length
  /-- The answers end up in packet order, with the input's length. -/
  final : ∀ answers, List.Forall₂ Answers g.packets answers → ∀ arrivals,
    arrivals.Perm answers → (g.receive arrivals).toVector =
      answers.flatMap FftDataPacket.payloadData ∧
      (g.receive arrivals).toVector.length = data.length

open FftPacketGroup

theorem indices_eq_of_forall₂ {ps answers : List (FftDataPacket α)}
    (h : List.Forall₂ Answers ps answers) : indices answers = indices ps := by
  induction h with
  | nil => rfl
  | cons hr _ ih =>
    simp only [indices, List.map_cons] at ih ⊢
    rw [hr.sequenceNumber, ih]

theorem length_flatMap_of_forall₂ {ps answers : List (FftDataPacket α)}
    (h : List.Forall₂ Answers ps answers) :
    (answers.flatMap FftDataPacket.payloadData).length =
      (ps.flatMap FftDataPacket.payloadData).length := by
  induction h with
  | nil => rfl
  | cons hr _ ih => simp [hr.length, ih]

section OfVector

variable {data : List α} {requestId : UInt8} {g : FftPacketGroup α}

/-- A group that was made has no response. -/
theorem fresh_of_ofVector (h : data ≠ []) (hg : ofVector data requestId = some g) : Fresh g := by
  rw [ofVector_eq h] at hg
  obtain rfl := Option.some.inj hg
  exact ⟨by simp, by simp⟩

/-- Without responses the data come back. -/
theorem toVector_of_ofVector (h : data ≠ []) (hg : ofVector data requestId = some g) :
    g.toVector = data := by
  rw [ofVector_eq h] at hg
  obtain rfl := Option.some.inj hg
  show ((List.range (numPackets data)).map (packetOf data requestId)).flatMap
    FftDataPacket.payloadData = data
  rw [List.flatMap_map]
  show (List.range (numPackets data)).flatMap (segment data) = data
  rw [flatMap_segment, List.take_of_length_le (length_le_numPackets data)]

theorem length_packets_of_ofVector (h : data ≠ []) (hg : ofVector data requestId = some g) :
    g.packets.length = numPackets data := by
  rw [ofVector_eq h] at hg
  obtain rfl := Option.some.inj hg
  simp

/-- The number of packet `i` is `i` cut down to a byte. -/
theorem indices_of_ofVector (h : data ≠ []) (hg : ofVector data requestId = some g) :
    indices g.packets = (List.range (numPackets data)).map (· % 256) := by
  rw [ofVector_eq h] at hg
  obtain rfl := Option.some.inj hg
  simp only [indices, List.map_map]
  apply List.map_congr_left
  intro i _
  exact UInt8.toNat_ofNat'

/-- Up to 256 packets a number names one packet. -/
theorem indices_eq_range (h : data ≠ []) (hg : ofVector data requestId = some g)
    (hle : data.length ≤ 65536) : indices g.packets = List.range g.packets.length := by
  rw [indices_of_ofVector h hg, length_packets_of_ofVector h hg]
  have hnum := (numPackets_le_iff h).mpr hle
  conv_rhs => rw [← List.map_id (List.range (numPackets data))]
  apply List.map_congr_left
  intro i hi
  exact Nat.mod_eq_of_lt (by have := List.mem_range.mp hi; omega)

end OfVector

section Law

variable {data : List α} {requestId : UInt8} {g : FftPacketGroup α}
  {done rest arrivals answers : List (FftDataPacket α)}

theorem indices_append (rs rs' : List (FftDataPacket α)) :
    indices (rs ++ rs') = indices rs ++ indices rs' := List.map_append

/-- Answers to packets with different numbers have different numbers of the group. -/
theorem indices_perm_range (hrange : indices g.packets = List.range g.packets.length)
    (hans : List.Forall₂ Answers g.packets answers) (hperm : arrivals.Perm answers) :
    (indices arrivals).Perm (List.range g.packets.length) := by
  have h : (indices arrivals).Perm (indices answers) := hperm.map _
  rwa [indices_eq_of_forall₂ hans, hrange] at h

/-- While answers are missing the group is not complete. -/
theorem remaining_of_range (hfresh : Fresh g)
    (hrange : indices g.packets = List.range g.packets.length)
    (hans : List.Forall₂ Answers g.packets answers) (hperm : (done ++ rest).Perm answers) :
    (g.receive done).numRemainingPackets = rest.length := by
  have hidx := indices_perm_range hrange hans hperm
  rw [indices_append] at hidx
  have hnodup : (indices done).Nodup :=
    (List.nodup_append.mp (hidx.nodup_iff.mpr List.nodup_range)).1
  have hlt : ∀ i ∈ indices done, i < g.packets.length := fun i hi =>
    List.mem_range.mp (hidx.mem_iff.mp (List.mem_append_left _ hi))
  have hcount := hfresh.remaining_receive hnodup hlt
  have hlen := hidx.length_eq
  simp only [indices, List.length_append, List.length_map, List.length_range] at hlen
  omega

/-- In any order each answer is accepted. -/
theorem accepts_of_range (hfresh : Fresh g)
    (hrange : indices g.packets = List.range g.packets.length)
    (hans : List.Forall₂ Answers g.packets answers) (hperm : (done ++ r :: rest).Perm answers) :
    ((g.receive done).updatePacketWithResponse r).1 = .ok () := by
  have hidx := indices_perm_range hrange hans hperm
  rw [indices_append] at hidx
  have hdisj := (List.nodup_append.mp (hidx.nodup_iff.mpr List.nodup_range)).2.2
  have hr : r.sequenceNumber.toNat ∈ indices (r :: rest) := List.mem_cons_self
  have hnew : r.sequenceNumber.toNat ∉ indices done := fun hmem => hdisj _ hmem _ hr rfl
  have hlt : r.sequenceNumber.toNat < g.packets.length :=
    List.mem_range.mp (hidx.mem_iff.mp (List.mem_append_right _ hr))
  rw [(hfresh.received_receive done).accepts hnew hlt]

/-- The first response with a number is the answer to the packet of that index. -/
theorem find?_eq_answer (hrange : indices g.packets = List.range g.packets.length)
    (hans : List.Forall₂ Answers g.packets answers) (hperm : arrivals.Perm answers)
    {i : ℕ} (hi : i < answers.length) :
    (arrivals.find? fun r => r.sequenceNumber.toNat = i) = some answers[i] := by
  have hindex : ∀ j (hj : j < answers.length), answers[j].sequenceNumber.toNat = j := by
    intro j hj
    have hlen := hans.length_eq
    have heq : (indices answers)[j]? = (List.range g.packets.length)[j]? := by
      rw [indices_eq_of_forall₂ hans, hrange]
    rw [List.getElem?_range (by omega)] at heq
    simpa [indices, hj] using heq
  have hmem : answers[i] ∈ arrivals := hperm.mem_iff.mpr (List.getElem_mem hi)
  have hfound : (arrivals.find? fun r => r.sequenceNumber.toNat = i).isSome :=
    List.find?_isSome.mpr ⟨_, hmem, by simpa using hindex i hi⟩
  obtain ⟨q, hq⟩ := Option.isSome_iff_exists.mp hfound
  obtain ⟨j, hj, rfl⟩ := List.getElem_of_mem (hperm.mem_iff.mp (List.mem_of_find?_eq_some hq))
  have hji : j = i := by
    have h := List.find?_some hq
    rw [decide_eq_true_iff, hindex j hj] at h
    exact h
  subst hji
  exact hq

/-- In the end every answer stands in its place. -/
theorem packets_of_range (hfresh : Fresh g)
    (hrange : indices g.packets = List.range g.packets.length)
    (hans : List.Forall₂ Answers g.packets answers) (hperm : arrivals.Perm answers) :
    (g.receive arrivals).packets = answers := by
  have hrec := hfresh.received_receive arrivals
  have hlen := hans.length_eq
  apply List.ext_getElem?
  intro i
  by_cases hi : i < g.packets.length
  · rw [hrec.packets i hi, find?_eq_answer hrange hans hperm (by omega),
      List.getElem?_eq_getElem (by omega), List.getElem?_eq_getElem (by omega), Option.or_some]
    rfl
  · rw [List.getElem?_eq_none (by rw [hrec.length_packets]; omega),
      List.getElem?_eq_none (by omega)]

/-- A sequence number that names every packet keeps the law. -/
theorem groupLaw_of_le (h : data ≠ []) (hg : ofVector data requestId = some g)
    (hle : data.length ≤ 65536) : GroupLaw data g := by
  have hfresh := fresh_of_ofVector h hg
  have hrange := indices_eq_range h hg hle
  refine ⟨toVector_of_ofVector h hg, fun rs r hr => ?_, fun answers hans done r rest hperm => ?_,
    fun answers hans done rest hperm => ?_, fun answers hans arrivals hperm => ?_⟩
  · exact (hfresh.received_receive rs).rejects (hr.imp_left mem_indices.mpr)
  · exact accepts_of_range hfresh hrange hans hperm
  · exact remaining_of_range hfresh hrange hans hperm
  · rw [toVector, packets_of_range hfresh hrange hans hperm]
    refine ⟨rfl, ?_⟩
    rw [length_flatMap_of_forall₂ hans]
    exact congrArg List.length (toVector_of_ofVector h hg)

theorem answers_self (ps : List (FftDataPacket α)) : List.Forall₂ Answers ps ps :=
  List.forall₂_same.mpr fun _ _ => ⟨rfl, rfl⟩

/-- Packet 256 has number 0, as packet 0 does, so its answer is rejected. -/
theorem not_groupLaw (h : data ≠ []) (hg : ofVector data requestId = some g)
    (hlt : 65536 < data.length) : ¬ GroupLaw data g := by
  intro hlaw
  have hmany : 256 < g.packets.length := by
    rw [length_packets_of_ofVector h hg]
    have := numPackets_le_iff h
    omega
  have hindex : ∀ i (hi : i < g.packets.length), g.packets[i].sequenceNumber.toNat = i % 256 := by
    intro i hi
    have heq := congrArg (·[i]?) (indices_of_ofVector h hg)
    rw [length_packets_of_ofVector h hg] at hi
    simpa [indices, length_packets_of_ofVector h hg, hi] using heq
  have hzero : g.packets[256].sequenceNumber = g.packets[0].sequenceNumber := by
    rw [← UInt8.toNat_inj, hindex 256 hmany, hindex 0 (by omega)]
  have hsplit : g.packets.take 256 ++ g.packets[256] :: g.packets.drop 257 = g.packets := by
    rw [List.getElem_cons_drop, List.take_append_drop]
  have haccept := hlaw.accepts g.packets (answers_self _) _ _ _ (.of_eq hsplit)
  have hfirst : g.packets[0] ∈ g.packets.take 256 := by
    rw [List.mem_take_iff_getElem]
    exact ⟨0, by omega, rfl⟩
  obtain ⟨e, he⟩ := hlaw.rejects (g.packets.take 256) g.packets[256]
    (.inl (by rw [hzero]; exact List.mem_map_of_mem hfirst))
  rw [he] at haccept
  cases haccept

end Law

/-- The group of a vector keeps the law exactly when a byte can name each of its packets. -/
theorem groupLaw_iff {data : List α} (h : data ≠ []) (requestId : UInt8) :
    ∃ g, ofVector data requestId = some g ∧ (GroupLaw data g ↔ data.length ≤ 65536) := by
  refine ⟨_, ofVector_eq h, fun hlaw => ?_, groupLaw_of_le h (ofVector_eq h)⟩
  by_contra hlt
  exact not_groupLaw h (ofVector_eq h) (by omega) hlaw

/-- Three packets, the last one shorter, are answered in the order 2, 0, 1; the answer to packet 0
comes twice. -/
theorem groupLaw_iff_threePackets : ∃ g, ofVector (List.range 600) 7 = some g ∧
    g.packets.length = 3 ∧ GroupLaw (List.range 600) g ∧
    ∀ a₀ a₁ a₂, List.Forall₂ Answers g.packets [a₀, a₁, a₂] →
      (∃ e, (g.receive [a₂, a₀]).updatePacketWithResponse a₀ = (.error e, g.receive [a₂, a₀])) ∧
      ((g.receive [a₂, a₀]).updatePacketWithResponse a₁).1 = .ok () ∧
      (g.receive [a₂, a₀]).numRemainingPackets = 1 ∧
      (g.receive [a₂, a₀, a₁]).numRemainingPackets = 0 ∧
      (g.receive [a₂, a₀, a₁]).toVector = a₀.payloadData ++ a₁.payloadData ++ a₂.payloadData := by
  have hne : List.range 600 ≠ [] := by simp
  obtain ⟨g, hg, hiff⟩ := groupLaw_iff hne 7
  have hlaw := hiff.mpr (by simp)
  have hthree : g.packets.length = 3 := by
    rw [length_packets_of_ofVector hne hg]
    simp [numPackets, maxElements]
  refine ⟨g, hg, hthree, hlaw, fun a₀ a₁ a₂ hanswers => ?_⟩
  have hperm : [a₂, a₀, a₁].Perm [a₀, a₁, a₂] :=
    (List.Perm.swap _ _ _).trans ((List.Perm.swap _ _ _).cons _)
  refine ⟨hlaw.rejects _ _ (.inl (by simp)), hlaw.accepts _ hanswers [a₂, a₀] a₁ [] hperm,
    hlaw.remaining _ hanswers [a₂, a₀] [a₁] hperm,
    hlaw.remaining _ hanswers [a₂, a₀, a₁] [] (by simpa using hperm), ?_⟩
  rw [(hlaw.final _ hanswers _ hperm).1]
  simp

/-- 65537 samples make 257 packets. -/
theorem groupLaw_fails :
    ∃ g, ofVector (List.replicate 65537 (0 : Int)) 0 = some g ∧
      ¬ GroupLaw (List.replicate 65537 0) g := by
  have h : List.replicate 65537 (0 : Int) ≠ [] := by
    rw [Ne, List.replicate_eq_nil_iff]
    omega
  refine ⟨_, ofVector_eq h, not_groupLaw h (ofVector_eq h) ?_⟩
  rw [List.length_replicate]
  omega

end Sem.FftAccel

import Sem.FftAccel.PacketGroup
import Sem.Lib.ObjectBytes

/-!
# FFT packet codec

A packet is written to a buffer that has room for 256 samples, and read back from it. The writer
copies 256 samples whatever the payload's length, and the reader makes a payload of 256 samples.

* `length_payload_deserialize`: a packet read back has 256 samples.
* `codecLaw_iff`: a packet survives exactly when its payload is full.
-/

namespace Sem.FftAccel

open Sem.Lib

/-! ## Byte spans -/

/-- `byte_span::subspan` to the end; it throws where nothing is left. -/
def subspanFrom (bytes : List UInt8) (byteOffset : ℕ) : Option (List UInt8) :=
  if bytes.length ≤ byteOffset then none else some (bytes.drop byteOffset)

/-- `byte_span::subspan`; it throws for a span that reaches the end. -/
def subspan (bytes : List UInt8) (byteOffset length : ℕ) : Option (List UInt8) :=
  if bytes.length ≤ byteOffset then none
  else if bytes.length < length then none
  else if bytes.length ≤ byteOffset + length then none
  else some ((bytes.drop byteOffset).take length)

/-- `byte_span::at<uint16_t>`, on a little endian machine. -/
def atUInt16 (bytes : List UInt8) (byteOffset : ℕ) : Option UInt16 := do
  let low ← bytes[byteOffset]?
  let high ← bytes[byteOffset + 1]?
  pure (UInt16.ofNat (low.toNat + 256 * high.toNat))

/-- `big_to_native`, on a little endian machine. -/
def bigToNative (w : UInt16) : UInt16 :=
  UInt16.ofNat (w.toNat / 256 + 256 * (w.toNat % 256))

/-! ## Headers -/

/-- `packet_type`. -/
inductive PacketType
  | cmdWrite | cmdRead | ack | data
  deriving DecidableEq, Repr

/-- `byte_encoding`. -/
def PacketType.byteEncoding : PacketType → UInt8
  | cmdWrite => 0xCD
  | cmdRead => 0xCE
  | ack => 0xAC
  | data => 0xDA

/-- `data_packet_header::serialized_byte_length`. -/
def headerByteLength : ℕ := 6

/-- The constructor from bytes. -/
def DataPacketHeader.ofBytes (bytes : List UInt8) : Option DataPacketHeader := do
  let packetSequenceNum ← bytes[1]?
  let fftRequestId ← bytes[2]?
  let controlStateRegister ← bytes[3]?
  let fftSize ← atUInt16 bytes 4
  pure ⟨packetSequenceNum, fftRequestId, controlStateRegister, bigToNative fftSize⟩

/-! ## Packets -/

section Codec

variable (α : Type) [ObjectBytes α]

/-- `packet_byte_size`: room for `max_elements` samples after the header. -/
def packetByteSize : ℕ := maxElements * ObjectBytes.sizeof α + headerByteLength

variable {α}

/-- The constructor of `serialized_fft_data` from a packet. Its array starts out with arbitrary
bytes, of which it leaves 3 and 5 as they are. -/
def serialize (data : List UInt8) (p : FftDataPacket α) : Option (List UInt8) :=
  let header := (((data.set 0 PacketType.data.byteEncoding).set 1 p.sequenceNumber).set
    2 p.requestId).set 4 (UInt8.ofNat p.payloadData.length)
  memcpy header headerByteLength (ObjectBytes.encodeAll p.payloadData)
    (maxElements * ObjectBytes.sizeof α)

/-- The constructor of `fft_data_packet` from bytes; `none` for a throw, or for a payload that is
no packet's. -/
def deserialize (bytes : List UInt8) : Option (FftDataPacket α) := do
  let headerData ← subspan bytes 0 headerByteLength >>= DataPacketHeader.ofBytes
  let dataSpan ← subspanFrom bytes headerByteLength
  let fftData : List α := ObjectBytes.decodeAll (dataSpan.length / ObjectBytes.sizeof α) dataSpan
  if h : fftData.length ≤ maxElements then some ⟨headerData, fftData, h⟩ else none

/-- What is read back from the bytes of `p`, whatever the array held before. -/
structure CodecLaw (p : FftDataPacket α) : Prop where
  /-- The copy stays inside the payload and inside the array. -/
  inBounds : ∀ data : List UInt8, data.length = packetByteSize α → ∃ bytes,
    serialize data p = some bytes
  /-- The packet read back is the packet written. -/
  roundTrip : ∀ data bytes : List UInt8, data.length = packetByteSize α →
    serialize data p = some bytes → ∃ q : FftDataPacket α, deserialize bytes = some q ∧
      q.requestId = p.requestId ∧ q.sequenceNumber = p.sequenceNumber ∧
      q.payloadData = p.payloadData

section Serialize

variable {data bytes : List UInt8} {p q : FftDataPacket α}

/-- A header and room for samples. -/
theorem exists_header (hdata : data.length = packetByteSize α) :
    ∃ a b c d e f rest, data = a :: b :: c :: d :: e :: f :: rest ∧
      rest.length = maxElements * ObjectBytes.sizeof α := by
  rw [packetByteSize, headerByteLength] at hdata
  match data, hdata with
  | a :: b :: c :: d :: e :: f :: rest, hdata =>
    refine ⟨a, b, c, d, e, f, rest, rfl, ?_⟩
    simp only [List.length_cons] at hdata
    omega

/-- The bytes of a full payload, after a header with the bytes `unused`. -/
def fullBytes (unused unused' : UInt8) (p : FftDataPacket α) : List UInt8 :=
  [PacketType.data.byteEncoding, p.sequenceNumber, p.requestId, unused,
    UInt8.ofNat maxElements, unused'] ++ ObjectBytes.encodeAll p.payloadData

/-- A full payload is copied as it is. -/
theorem serialize_of_full (hdata : data.length = packetByteSize α)
    (hfull : p.payloadData.length = maxElements) :
    ∃ unused unused', serialize data p = some (fullBytes unused unused' p) := by
  obtain ⟨a, b, c, d, e, f, rest, rfl, hrest⟩ := exists_header hdata
  refine ⟨d, f, memcpy_eq_some_iff.mpr ⟨⟨?_, ?_⟩, ?_⟩⟩
  · exact Nat.le_of_eq (by rw [ObjectBytes.length_encodeAll, hfull])
  · simp only [List.length_set, List.length_cons, headerByteLength]
    omega
  · have htake : (ObjectBytes.encodeAll p.payloadData).take (maxElements * ObjectBytes.sizeof α) =
        ObjectBytes.encodeAll p.payloadData :=
      List.take_of_length_le (Nat.le_of_eq (by rw [ObjectBytes.length_encodeAll, hfull]))
    have hdrop : rest.drop (maxElements * ObjectBytes.sizeof α) = [] :=
      List.drop_of_length_le (by omega)
    rw [htake, hfull, headerByteLength]
    simp [Nat.add_comm 6, hdrop, fullBytes]

/-- A shorter payload is read past its end. -/
theorem serialize_of_short (hlt : p.payloadData.length < maxElements) :
    serialize data p = none := by
  have hshort : p.payloadData.length * ObjectBytes.sizeof α <
      maxElements * ObjectBytes.sizeof α :=
    Nat.mul_lt_mul_of_pos_right hlt ObjectBytes.sizeof_pos
  rw [serialize, memcpy, if_neg]
  rw [ObjectBytes.length_encodeAll]
  omega

/-- A packet read from an array of the source's size has 256 samples. -/
theorem length_payload_deserialize (hbytes : bytes.length = packetByteSize α)
    (h : deserialize bytes = some q) : q.payloadData.length = maxElements := by
  obtain ⟨a, b, c, d, e, f, rest, rfl, hrest⟩ := exists_header hbytes
  have hspan : subspanFrom (a :: b :: c :: d :: e :: f :: rest) headerByteLength = some rest := by
    rw [subspanFrom, if_neg]
    · rfl
    · have hpos : 0 < ObjectBytes.sizeof α := ObjectBytes.sizeof_pos
      simp only [List.length_cons, headerByteLength, hrest, maxElements]
      omega
  simp only [deserialize, hspan, Option.bind_eq_bind, Option.bind_some,
    Option.bind_eq_some_iff] at h
  obtain ⟨headerData, -, h⟩ := h
  split at h
  · obtain rfl := Option.some.inj h
    rw [ObjectBytes.length_decodeAll, hrest, Nat.mul_div_cancel _ ObjectBytes.sizeof_pos]
  · cases h

/-- Reading the bytes of a full payload. -/
theorem deserialize_fullBytes (unused unused' : UInt8)
    (hfull : p.payloadData.length = maxElements) :
    ∃ q : FftDataPacket α, deserialize (fullBytes unused unused' p) = some q ∧
      q.requestId = p.requestId ∧ q.sequenceNumber = p.sequenceNumber ∧
      q.payloadData = p.payloadData := by
  have hpos : 0 < ObjectBytes.sizeof α := ObjectBytes.sizeof_pos
  have hlen : (ObjectBytes.encodeAll p.payloadData).length =
      maxElements * ObjectBytes.sizeof α := by rw [ObjectBytes.length_encodeAll, hfull]
  have hspan : subspanFrom (fullBytes unused unused' p) headerByteLength =
      some (ObjectBytes.encodeAll p.payloadData) := by
    rw [subspanFrom, if_neg]
    · rfl
    · simp only [fullBytes, List.length_append, List.length_cons, List.length_nil,
        headerByteLength, hlen, maxElements]
      omega
  have hheader : subspan (fullBytes unused unused' p) 0 headerByteLength =
      some [PacketType.data.byteEncoding, p.sequenceNumber, p.requestId, unused,
        UInt8.ofNat maxElements, unused'] := by
    have hsize : (fullBytes unused unused' p).length =
        6 + maxElements * ObjectBytes.sizeof α := by
      simp only [fullBytes, List.length_append, List.length_cons, List.length_nil, hlen]
    rw [maxElements] at hsize
    rw [subspan, if_neg (by omega), if_neg (by rw [headerByteLength]; omega),
      if_neg (by rw [headerByteLength]; omega)]
    rfl
  have hdecode : (ObjectBytes.decodeAll ((ObjectBytes.encodeAll p.payloadData).length /
      ObjectBytes.sizeof α) (ObjectBytes.encodeAll p.payloadData) : List α) = p.payloadData := by
    rw [hlen, Nat.mul_div_cancel _ hpos, ← hfull, ObjectBytes.decodeAll_encodeAll]
  have hparse : DataPacketHeader.ofBytes [PacketType.data.byteEncoding, p.sequenceNumber,
      p.requestId, unused, UInt8.ofNat maxElements, unused'] =
        some ⟨p.sequenceNumber, p.requestId, unused,
          bigToNative (UInt16.ofNat ((UInt8.ofNat maxElements).toNat + 256 * unused'.toNat))⟩ := rfl
  have hread : deserialize (fullBytes unused unused' p) = some
      (⟨⟨p.sequenceNumber, p.requestId, unused,
        bigToNative (UInt16.ofNat ((UInt8.ofNat maxElements).toNat + 256 * unused'.toNat))⟩,
        p.payloadData, p.length_le⟩ : FftDataPacket α) := by
    simp only [deserialize, hspan, hheader, hparse, Option.bind_eq_bind, Option.bind_some, hdecode]
    exact dif_pos p.length_le
  exact ⟨_, hread, rfl, rfl, rfl⟩

end Serialize

/-- A packet survives being written and read back exactly when its payload is full. -/
theorem codecLaw_iff (p : FftDataPacket α) :
    CodecLaw p ↔ p.payloadData.length = maxElements := by
  refine ⟨fun hlaw => ?_, fun hfull => ⟨fun data hdata => ?_, fun data bytes hdata hbytes => ?_⟩⟩
  · by_contra hne
    have hlt : p.payloadData.length < maxElements := by
      have := p.length_le
      omega
    obtain ⟨bytes, hbytes⟩ := hlaw.inBounds (List.replicate (packetByteSize α) 0) (by simp)
    rw [serialize_of_short hlt] at hbytes
    cases hbytes
  · obtain ⟨unused, unused', heq⟩ := serialize_of_full hdata hfull
    exact ⟨_, heq⟩
  · obtain ⟨unused, unused', heq⟩ := serialize_of_full hdata hfull
    rw [hbytes] at heq
    obtain rfl := Option.some.inj heq
    exact deserialize_fullBytes unused unused' hfull

end Codec

/-- A packet with one sample is read past its end, and 256 samples come back. -/
theorem codecLaw_fails :
    ¬ CodecLaw (⟨⟨0, 0, 0, 256⟩, [(7 : UInt32)], by decide⟩ : FftDataPacket UInt32) ∧
      ∀ bytes q, bytes.length = packetByteSize UInt32 → deserialize bytes = some q →
        q.payloadData ≠ [(7 : UInt32)] := by
  refine ⟨fun hlaw => ?_, fun bytes q hbytes hq heq => ?_⟩
  · obtain ⟨bytes, hbytes⟩ := hlaw.inBounds (List.replicate (packetByteSize UInt32) 0) (by simp)
    rw [serialize_of_short (by show 1 < 256; omega)] at hbytes
    cases hbytes
  · have hlen := length_payload_deserialize hbytes hq
    rw [heq] at hlen
    cases hlen

end Sem.FftAccel

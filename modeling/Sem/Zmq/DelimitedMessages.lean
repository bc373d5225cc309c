import Sem.Lib.Delimited
import Sem.Lib.Varint

/-!
# Delimited messages

The temporary file of a cached writer: for each message its topic, its type name and its data, each
after its size. Sizes are written as 32-bit numbers and taken as `int`s, and a coded stream reads
fewer than `2 ^ 31` bytes.

* `writeMessages_eq`: the file is the records of its messages, if each of them fits.
* `delimits_readDelimitedToStr`, `readsAll_readMessagesFromFile`: a message whose end is missing is
  not read, and the loop ends at the first message that is not.
* `readMessagesFromFile_writeDelimitedTo`: the file gives back the messages that it was given, and
  one that was cut off its first messages.
-/

namespace Sem.Zmq

open Sem.Lib

/-- `Message_Struct`; a message is here the name of its type and what it serializes to. -/
structure MessageStruct where
  topic : List UInt8
  type : List UInt8
  data : List UInt8
  deriving DecidableEq, Repr

/-! ## Writing -/

/-- `WriteVarint32` of a size that is cast to `uint32_t`, and `WriteString`, which casts the size to
an `int`. What it does is undefined where that is negative. -/
def writeString (s : List UInt8) : Option (List UInt8) :=
  let size := s.length % 2 ^ 32
  if size < 2 ^ 31 then some (Varint.write 5 size ++ s.take size) else none

/-- `WriteVarint32` of `ByteSize`, which is an `int`, and the message. -/
def writeData (s : List UInt8) : Option (List UInt8) :=
  if s.length < 2 ^ 31 then some (Varint.write 5 s.length ++ s) else none

/-- What `WriteDelimitedTo` writes to a stream that takes it. -/
def writeDelimitedTo (m : MessageStruct) : Option (List UInt8) := do
  let topic ← writeString m.topic
  let type ← writeString m.type
  let data ← writeData m.data
  some (topic ++ type ++ data)

/-- The messages one after the other. -/
def writeMessages (ms : List MessageStruct) : Option (List UInt8) :=
  (ms.mapM writeDelimitedTo).map List.flatten

/-! ## Reading -/

/-- `ReadVarint32` and `ReadString`, whose size is an `int`. -/
def readString (bytes : List UInt8) : Option (List UInt8 × List UInt8) := do
  let (value, bytes) ← Varint.read 10 bytes
  let size := value % 2 ^ 32
  if size < 2 ^ 31 ∧ size ≤ bytes.length then some (bytes.take size, bytes.drop size) else none

/-- What `ReadDelimitedToStr` reads from its coded stream. -/
def readFields (bytes : List UInt8) : Option (MessageStruct × List UInt8) := do
  let (topic, bytes) ← readString bytes
  let (type, bytes) ← readString bytes
  let (data, bytes) ← readString bytes
  some (⟨topic, type, data⟩, bytes)

/-- The total limit of a `CodedInputStream`, which is `INT_MAX`. -/
def totalBytesLimit : ℕ := 2 ^ 31 - 1

/-- `ReadDelimitedToStr`, with a coded stream of its own; it also gives what is left of the file. -/
def readDelimitedToStr (bytes : List UInt8) : Option (MessageStruct × List UInt8) :=
  (readFields (bytes.take totalBytesLimit)).map fun r => (r.1, r.2 ++ bytes.drop totalBytesLimit)

/-- The loop of `ReadMessagesFromFile`. -/
def readMessages : ℕ → List UInt8 → List MessageStruct
  | 0, _ => []
  | fuel + 1, bytes =>
    match readDelimitedToStr bytes with
    | none => []
    | some (m, rest) => m :: readMessages fuel rest

/-- A message takes at least one byte. -/
def readMessagesFromFile (bytes : List UInt8) : List MessageStruct :=
  readMessages bytes.length bytes

/-! ## Records -/

/-- A text after its size. -/
def sized (s : List UInt8) : List UInt8 := Varint.write 5 s.length ++ s

/-- The bytes of a message, with its sizes as they are. -/
def MessageStruct.record (m : MessageStruct) : List UInt8 :=
  sized m.topic ++ sized m.type ++ sized m.data

/-- The bytes of a message stay below the limit of a coded stream. -/
def MessageStruct.Fits (m : MessageStruct) : Prop := m.record.length < 2 ^ 31

instance (m : MessageStruct) : Decidable m.Fits := inferInstanceAs (Decidable (_ < _))

/-- The sizes of a message are `int`s. -/
def MessageStruct.Sized (m : MessageStruct) : Prop :=
  (m.topic.length < 2 ^ 31 ∧ m.type.length < 2 ^ 31) ∧ m.data.length < 2 ^ 31

theorem length_lt_sized (s : List UInt8) : s.length < (sized s).length := by
  have hpos : 0 < (Varint.write 5 s.length).length := Varint.length_write_pos 4 _
  unfold sized
  rw [List.length_append]
  omega

theorem MessageStruct.Fits.sized {m : MessageStruct} (h : m.Fits) : m.Sized := by
  have htopic := length_lt_sized m.topic
  have htype := length_lt_sized m.type
  have hdata := length_lt_sized m.data
  rw [MessageStruct.Fits, MessageStruct.record, List.length_append, List.length_append] at h
  unfold MessageStruct.Sized
  omega

theorem writeString_eq {s : List UInt8} (h : s.length < 2 ^ 31) : writeString s = some (sized s) := by
  have hmod : s.length % 2 ^ 32 = s.length := Nat.mod_eq_of_lt (by omega)
  simp only [writeString, hmod, if_pos h, List.take_length, sized]

/-- Nothing is cut off or undefined. -/
theorem writeDelimitedTo_eq {m : MessageStruct} (h : m.Sized) :
    writeDelimitedTo m = some m.record := by
  obtain ⟨⟨htopic, htype⟩, hdata⟩ := h
  simp only [writeDelimitedTo, writeData, writeString_eq htopic, writeString_eq htype, if_pos hdata]
  rfl

theorem writeMessages_singleton (m : MessageStruct) : writeMessages [m] = writeDelimitedTo m := by
  rw [writeMessages, List.mapM_cons]
  cases writeDelimitedTo m with
  | none => rfl
  | some bytes => exact congrArg some (List.append_nil bytes)

/-- The file is the records of its messages. -/
theorem writeMessages_eq {ms : List MessageStruct} (h : ∀ m ∈ ms, m.Fits) :
    writeMessages ms = some (ms.flatMap MessageStruct.record) := by
  have hmap : ms.mapM writeDelimitedTo = some (ms.map MessageStruct.record) := by
    induction ms with
    | nil => rfl
    | cons m ms ih =>
      rw [List.mapM_cons, writeDelimitedTo_eq (h m List.mem_cons_self).sized,
        ih fun m hm => h m (List.mem_cons_of_mem _ hm)]
      rfl
  rw [writeMessages, hmap]
  rfl

/-! ## Records are read back -/

theorem readString_sized {s : List UInt8} (h : s.length < 2 ^ 31) (rest : List UInt8) :
    readString (sized s ++ rest) = some (s, rest) := by
  have hmod : s.length % 2 ^ 32 = s.length := Nat.mod_eq_of_lt (by omega)
  have hread : Varint.read 10 (Varint.write 5 s.length ++ (s ++ rest)) =
      some (s.length, s ++ rest) := Varint.read_write (by omega) (by omega) _
  have hfits : s.length < 2 ^ 31 ∧ s.length ≤ (s ++ rest).length := by
    rw [List.length_append]
    omega
  rw [readString, sized, List.append_assoc, hread]
  show (if s.length % 2 ^ 32 < 2 ^ 31 ∧ s.length % 2 ^ 32 ≤ (s ++ rest).length then _ else none) = _
  rw [hmod, if_pos hfits, List.take_left, List.drop_left]

theorem readString_take {s : List UInt8} (h : s.length < 2 ^ 31) {k : ℕ}
    (hk : k < (sized s).length) : readString ((sized s).take k) = none := by
  have hmod : s.length % 2 ^ 32 = s.length := Nat.mod_eq_of_lt (by omega)
  rw [sized, List.length_append] at hk
  rw [sized, List.take_append]
  by_cases hsize : k < (Varint.write 5 s.length).length
  · have hzero : k - (Varint.write 5 s.length).length = 0 := by omega
    rw [hzero, List.take_zero, List.append_nil, readString, Varint.read_take_write hsize]
    rfl
  · -- the size is there, but not as many bytes
    have hread : Varint.read 10 (Varint.write 5 s.length ++
        s.take (k - (Varint.write 5 s.length).length)) =
          some (s.length, s.take (k - (Varint.write 5 s.length).length)) :=
      Varint.read_write (by omega) (by omega) _
    rw [List.take_of_length_le (by omega), readString, hread]
    show (if s.length % 2 ^ 32 < 2 ^ 31 ∧ s.length % 2 ^ 32 ≤ (s.take _).length then _ else none) = _
    rw [hmod, List.length_take, if_neg (by omega)]

theorem delimits_readString :
    Delimits (fun s : List UInt8 => s.length < 2 ^ 31) sized readString where
  read_nil := rfl
  read_write := readString_sized
  read_take := readString_take

/-- A message is its topic, its type name and its data. -/
def MessageStruct.equiv : MessageStruct ≃ (List UInt8 × List UInt8) × List UInt8 where
  toFun m := ((m.topic, m.type), m.data)
  invFun s := ⟨s.1.1, s.1.2, s.2⟩
  left_inv _ := rfl
  right_inv _ := rfl

theorem readFields_eq : readFields = fun bytes =>
    (((readString bytes).bind fun topic => (readString topic.2).map fun type =>
      ((topic.1, type.1), type.2)).bind fun r => (readString r.2).map fun data =>
        ((r.1, data.1), data.2)).map fun r => (MessageStruct.equiv.symm r.1, r.2) := by
  funext bytes
  unfold readFields
  cases readString bytes with
  | none => rfl
  | some topic =>
    obtain ⟨topic, bytes⟩ := topic
    simp only [Option.bind_eq_bind, Option.bind_some]
    cases readString bytes with
    | none => rfl
    | some type =>
      obtain ⟨type, bytes⟩ := type
      simp only [Option.bind_some, Option.map_some]
      cases readString bytes <;> rfl

theorem delimits_readFields :
    Delimits MessageStruct.Sized MessageStruct.record readFields := by
  rw [readFields_eq]
  exact ((delimits_readString.bind delimits_readString).bind delimits_readString).imap
    MessageStruct.equiv fun h => h

/-- Below the limit the coded stream is the file. -/
theorem delimits_readDelimitedToStr :
    Delimits MessageStruct.Fits MessageStruct.record readDelimitedToStr where
  read_nil := rfl
  read_write h rest :=
    (delimits_readFields.limit totalBytesLimit).read_write ⟨h.sized, Nat.le_pred_of_lt h⟩ rest
  read_take h _ hk :=
    (delimits_readFields.limit totalBytesLimit).read_take ⟨h.sized, Nat.le_pred_of_lt h⟩ hk

/-- A longer record is cut off by the limit. -/
theorem readDelimitedToStr_of_not_fits {m : MessageStruct} (hsized : m.Sized) (h : ¬ m.Fits)
    (rest : List UInt8) : readDelimitedToStr (m.record ++ rest) = none := by
  have hlimit : ¬ m.record.length ≤ totalBytesLimit := fun hle => h (Nat.lt_of_le_pred (by decide) hle)
  rw [readDelimitedToStr, delimits_readFields.read_take_append hsized, if_neg hlimit]
  rfl

/-! ## The loop -/

theorem length_of_readString {bytes rest s : List UInt8} (h : readString bytes = some (s, rest)) :
    rest.length < bytes.length := by
  unfold readString at h
  cases hread : Varint.read 10 bytes with
  | none => rw [hread] at h; cases h
  | some r =>
    obtain ⟨value, bytes'⟩ := r
    have hlt := Varint.length_of_read hread
    rw [hread] at h
    simp only [Option.bind_eq_bind, Option.bind_some] at h
    split at h
    · simp only [Option.some.injEq, Prod.mk.injEq] at h
      rw [← h.2, List.length_drop]
      omega
    · cases h

theorem length_of_readFields {bytes rest : List UInt8} {m : MessageStruct}
    (h : readFields bytes = some (m, rest)) : rest.length < bytes.length := by
  simp only [readFields, Option.bind_eq_bind, Option.bind_eq_some_iff, Option.some.injEq,
    Prod.mk.injEq] at h
  obtain ⟨⟨topic, bytes₁⟩, htopic, ⟨type, bytes₂⟩, htype, ⟨data, bytes₃⟩, hdata, -, rfl⟩ := h
  have h₁ := length_of_readString htopic
  have h₂ := length_of_readString htype
  have h₃ := length_of_readString hdata
  exact Nat.lt_trans h₃ (Nat.lt_trans h₂ h₁)

theorem length_of_readDelimitedToStr {bytes rest : List UInt8} {m : MessageStruct}
    (h : readDelimitedToStr bytes = some (m, rest)) : rest.length < bytes.length := by
  obtain ⟨⟨m', rest'⟩, hread, heq⟩ := Option.map_eq_some_iff.mp h
  cases heq
  have hlt := length_of_readFields hread
  rw [List.length_take] at hlt
  show (rest' ++ bytes.drop totalBytesLimit).length < _
  rw [List.length_append, List.length_drop]
  omega

/-- The loop ends on every file: it has read a byte for each message. -/
theorem readsAll_readMessages {bytes : List UInt8} {fuel : ℕ} (hfuel : bytes.length ≤ fuel) :
    ReadsAll readDelimitedToStr bytes (readMessages fuel bytes) := by
  induction fuel generalizing bytes with
  | zero =>
    obtain rfl := List.eq_nil_of_length_eq_zero (Nat.le_zero.mp hfuel)
    exact .stop delimits_readDelimitedToStr.read_nil
  | succ fuel ih =>
    rw [readMessages]
    cases hread : readDelimitedToStr bytes with
    | none => exact .stop hread
    | some r =>
      obtain ⟨m, rest⟩ := r
      have hlt := length_of_readDelimitedToStr hread
      exact .next hread (ih (by omega))

theorem readsAll_readMessagesFromFile (bytes : List UInt8) :
    ReadsAll readDelimitedToStr bytes (readMessagesFromFile bytes) :=
  readsAll_readMessages (Nat.le_refl _)

/-- The records are read from the file. -/
theorem readMessagesFromFile_records {ms : List MessageStruct} (h : ∀ m ∈ ms, m.Fits) :
    readMessagesFromFile (ms.flatMap MessageStruct.record) = ms := by
  obtain ⟨n, hn, hreads, -, hnext⟩ :=
    delimits_readDelimitedToStr.readsAll_take h (ms.flatMap MessageStruct.record).length
  rw [List.take_length] at hreads
  obtain rfl | hlt := Nat.eq_or_lt_of_le hn
  · rw [(readsAll_readMessagesFromFile _).unique hreads, List.take_length]
  · have hsub := List.take_append_drop (n + 1) ms
    have hlength := congrArg (fun ms => (ms.flatMap MessageStruct.record).length) hsub
    simp only [List.flatMap_append, List.length_append] at hlength
    exact absurd (hnext hlt) (by omega)

theorem readMessagesFromFile_of_none {bytes : List UInt8} (h : readDelimitedToStr bytes = none) :
    readMessagesFromFile bytes = [] := by
  unfold readMessagesFromFile
  cases bytes.length with
  | zero => rfl
  | succ fuel => rw [readMessages, h]

/-- **The file gives back the messages that it was given, and each of its starts the first of them:**
those that are whole. The loop ends on every file. -/
theorem readMessagesFromFile_writeDelimitedTo {ms : List MessageStruct} (h : ∀ m ∈ ms, m.Fits) :
    (∃ file, writeMessages ms = some file ∧ readMessagesFromFile file = ms ∧
      ∀ k, ∃ n ≤ ms.length, readMessagesFromFile (file.take k) = ms.take n ∧
        (∃ whole, writeMessages (ms.take n) = some whole ∧ whole.length ≤ k) ∧
        (n < ms.length → ∃ next, writeMessages (ms.take (n + 1)) = some next ∧ k < next.length)) ∧
      ∀ bytes, ReadsAll readDelimitedToStr bytes (readMessagesFromFile bytes) := by
  refine ⟨⟨_, writeMessages_eq h, readMessagesFromFile_records h, fun k => ?_⟩,
    readsAll_readMessagesFromFile⟩
  have htake : ∀ n, writeMessages (ms.take n) = some ((ms.take n).flatMap MessageStruct.record) :=
    fun n => writeMessages_eq fun m hm => h m (List.mem_of_mem_take hm)
  obtain ⟨n, hn, hreads, hwhole, hnext⟩ := delimits_readDelimitedToStr.readsAll_take h k
  exact ⟨n, hn, (readsAll_readMessagesFromFile _).unique hreads, ⟨_, htake n, hwhole⟩,
    fun hlt => ⟨_, htake (n + 1), hnext hlt⟩⟩

/-- Two messages, of which the second is cut off. -/
theorem readMessagesFromFile_writeDelimitedTo_two :
    let ms : List MessageStruct := [⟨[77], [69], [1, 2]⟩, ⟨[77], [69], [3]⟩]
    ∃ file, writeMessages ms = some file ∧ readMessagesFromFile file = ms ∧
      readMessagesFromFile (file.take 10) = ms.take 1 := by
  intro ms
  obtain ⟨⟨file, hfile, hall, -⟩, -⟩ :=
    @readMessagesFromFile_writeDelimitedTo ms (by decide +kernel)
  obtain rfl : [1, 77, 1, 69, 2, 1, 2, 1, 77, 1, 69, 1, 3] = file := Option.some.inj hfile
  exact ⟨_, hfile, hall, by decide +kernel⟩

/-- A message whose type name is `2 ^ 32` bytes long, which are written as none; one with a payload
of `2 ^ 31 - 1` bytes, which the coded stream does not read to its end; and one whose topic has a
size that is no `int`. -/
theorem not_readMessagesFromFile_writeDelimitedTo :
    (∃ m file, writeMessages [m] = some file ∧ m.type.length = 2 ^ 32 ∧
      (readMessagesFromFile file).map (fun m => (m.type, m.data)) ≠ [(m.type, m.data)]) ∧
    (∃ m file, writeMessages [m] = some file ∧ m.data.length = 2 ^ 31 - 1 ∧
      (readMessagesFromFile file).map (fun m => (m.type, m.data)) ≠ [(m.type, m.data)]) ∧
    ∃ m, m.topic.length = 2 ^ 31 ∧ writeMessages [m] = none := by
  refine ⟨?_, ?_, ?_⟩
  · have hlength : (List.replicate (2 ^ 32) (0 : UInt8)).length = 2 ^ 32 := List.length_replicate
    generalize List.replicate (2 ^ 32) (0 : UInt8) = type at hlength
    have hwrite : writeString type = some [0] := by
      simp only [writeString, hlength]
      rfl
    refine ⟨⟨[], type, []⟩, [0, 0, 0], ?_, hlength, fun h => ?_⟩
    · rw [writeMessages_singleton]
      simp only [writeDelimitedTo, hwrite]
      rfl
    · have hread : readMessagesFromFile [0, 0, 0] = [⟨[], [], []⟩] := by decide +kernel
      rw [hread] at h
      simp only [List.map_cons, List.cons.injEq, Prod.mk.injEq] at h
      rw [← h.1.1] at hlength
      cases hlength
  · have hlength : (List.replicate (2 ^ 31 - 1) (0 : UInt8)).length = 2 ^ 31 - 1 :=
      List.length_replicate
    generalize List.replicate (2 ^ 31 - 1) (0 : UInt8) = data at hlength
    have hsized : MessageStruct.Sized ⟨[], [], data⟩ := 
      ⟨⟨(by decide : 0 < 2 ^ 31), (by decide : 0 < 2 ^ 31)⟩, (by omega : data.length < 2 ^ 31)⟩
    have hfits : ¬ MessageStruct.Fits ⟨[], [], data⟩ := by
      have hlt := length_lt_sized data
      unfold MessageStruct.Fits MessageStruct.record
      simp only [List.length_append]
      omega
    have hnone := readDelimitedToStr_of_not_fits hsized hfits []
    rw [List.append_nil] at hnone
    refine ⟨⟨[], [], data⟩, _, (writeMessages_singleton _).trans (writeDelimitedTo_eq hsized),
      hlength, ?_⟩
    rw [readMessagesFromFile_of_none hnone]
    exact nofun
  · have hlength : (List.replicate (2 ^ 31) (0 : UInt8)).length = 2 ^ 31 := List.length_replicate
    generalize List.replicate (2 ^ 31) (0 : UInt8) = topic at hlength
    refine ⟨⟨topic, [], []⟩, hlength, ?_⟩
    have hwrite : writeString topic = none := by
      simp only [writeString, hlength]
      rfl
    rw [writeMessages_singleton]
    simp only [writeDelimitedTo, hwrite]
    rfl

end Sem.Zmq

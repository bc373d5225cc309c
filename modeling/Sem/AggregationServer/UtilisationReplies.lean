import Sem.AggregationServer.DeviceGroups
import Sem.AggregationServer.MarkerSets
import Mathlib.Data.Char
import Mathlib.Data.List.Lex

/-!
# Replies of samples

The samples of `ProcessNetworkUtilisationRequest` and `ProcessGPUMetricRequest`, which are built
from the columns that their queries select.

* `utilisationReplies_correct_iff`: when the groups of the two replies and the sets of
  `ProcessMarkerRequest` are right.
* `not_networkCorrect_interleaved`: two interfaces of a host by turns.
-/

namespace Sem.AggregationServer

open Xml (Text)

variable {Time : Type}

/-! ## Network -/

/-- What `Hardware.InterfaceStatus` has of a sample. -/
structure InterfaceStatusRow where
  bytesReceived : ℕ
  bytesTransmitted : ℕ
  packetsReceived : ℕ
  packetsTransmitted : ℕ
  deriving DecidableEq, Repr

/-- The names that `GetNetworkUtilInfo` gives its columns. -/
inductive NetworkColumn
  | bytesReceived | bytesSent | packetsSent
  deriving DecidableEq, Repr

/-- The columns of `GetNetworkUtilInfo`; two of them have one name. -/
def InterfaceStatusRow.columns (s : InterfaceStatusRow) : List (NetworkColumn × ℕ) :=
  [(.bytesReceived, s.bytesReceived), (.bytesSent, s.bytesTransmitted),
    (.bytesReceived, s.packetsReceived), (.packetsSent, s.packetsTransmitted)]

/-- `row[name]`: the first column of the name. -/
def column (name : NetworkColumn) (columns : List (NetworkColumn × ℕ)) : Except ReplierError ℕ :=
  match columns.lookup name with
  | some n => .ok n
  | none => .error .argument

/-- A sample of an interface in the reply. -/
structure NetworkUtilisationEvent (Time : Type) where
  packetsSent : ℕ
  packetsReceived : ℕ
  bytesSent : ℕ
  bytesReceived : ℕ
  time : Time
  deriving DecidableEq, Repr

/-- `TimeUtil::FromString` of the time of a row. -/
def sampleTime {M : Type} (fromString : Text → Option Time) (row : DeviceRow M) :
    Except ReplierError Time :=
  match fromString row.sampleTime with
  | some time => .ok time
  | none => .error (.sampleTime row.sampleTime)

/-- The event of a row; the counts of packets keep their default. -/
def interfaceEvent (fromString : Text → Option Time) (row : DeviceRow InterfaceStatusRow) :
    Except ReplierError (NetworkUtilisationEvent Time) := do
  let time ← sampleTime fromString row
  let bytesSent ← column .bytesSent row.measured.columns
  let bytesReceived ← column .bytesReceived row.measured.columns
  return ⟨0, 0, bytesSent, bytesReceived, time⟩

/-- Each measured value is in its own field. -/
structure InterfaceStatusRow.Measures (fromString : Text → Option Time)
    (row : DeviceRow InterfaceStatusRow) (event : NetworkUtilisationEvent Time) : Prop where
  time : fromString row.sampleTime = some event.time
  packetsSent : event.packetsSent = row.measured.packetsTransmitted
  packetsReceived : event.packetsReceived = row.measured.packetsReceived
  bytesSent : event.bytesSent = row.measured.bytesTransmitted
  bytesReceived : event.bytesReceived = row.measured.bytesReceived

/-- The reply of `ProcessNetworkUtilisationRequest` is right. -/
def NetworkCorrect (fromString : Text → Option Time) (rows : List (DeviceRow InterfaceStatusRow)) :
    Prop :=
  ∃ nodes, groupRows (interfaceEvent fromString) rows = some (.ok nodes) ∧
    GroupedBy (InterfaceStatusRow.Measures fromString) rows nodes

theorem interfaceEvent_measures_iff {fromString : Text → Option Time}
    {row : DeviceRow InterfaceStatusRow} :
    (∃ event, interfaceEvent fromString row = .ok event ∧
        InterfaceStatusRow.Measures fromString row event) ↔
      (∃ time, fromString row.sampleTime = some time) ∧
        row.measured.packetsTransmitted = 0 ∧ row.measured.packetsReceived = 0 := by
  constructor
  · rintro ⟨event, hevent, hmeasures⟩
    have hzero : event.packetsSent = 0 ∧ event.packetsReceived = 0 := by
      unfold interfaceEvent sampleTime at hevent
      rw [hmeasures.time] at hevent
      have hevent := Except.ok.inj hevent
      exact ⟨by rw [← hevent], by rw [← hevent]⟩
    exact ⟨⟨_, hmeasures.time⟩, hmeasures.packetsSent.symm.trans hzero.1,
      hmeasures.packetsReceived.symm.trans hzero.2⟩
  · rintro ⟨⟨time, htime⟩, hsent, hreceived⟩
    refine ⟨⟨0, 0, row.measured.bytesTransmitted, row.measured.bytesReceived, time⟩, ?_,
      htime, hsent.symm, hreceived.symm, rfl, rfl⟩
    unfold interfaceEvent sampleTime
    rw [htime]
    rfl

/-! ## Devices -/

/-- What `Hardware.GPUStatus` has of a sample: the texts of decimals. -/
structure GPUStatusRow where
  gpuUtilisation : Text
  memoryUtilisation : Text
  temperature : Text
  deriving DecidableEq, Repr

/-- `as<uint64_t>` -/
def asUint64 (s : Text) : Option ℕ :=
  if s ≠ [] ∧ (s.all fun c => c.isDigit) ∧ Nat.ofDigitChars 10 s 0 < 2 ^ 64 then
    some (Nat.ofDigitChars 10 s 0)
  else none

/-- A value of `row.measured`. -/
def convert (s : Text) : Except ReplierError ℕ :=
  match asUint64 s with
  | some n => .ok n
  | none => .error (.conversion s)

/-- A `uint64_t` that becomes an `int64_t`. -/
def toInt64 (n : ℕ) : Int := (BitVec.ofNat 64 n).toInt

/-- `GPUMetricSample` of the reply; its two fields of type `double` are set to whole numbers. -/
structure GPUMetric (Time : Type) where
  time : Time
  gpuUtilisation : ℕ
  memUtilisationMib : Int
  temperatureCelsius : ℕ
  deriving DecidableEq, Repr

/-- The sample of a row; `set_mem_utilisation_mib` is called twice. -/
def gpuSample (fromString : Text → Option Time) (row : DeviceRow GPUStatusRow) :
    Except ReplierError (GPUMetric Time) := do
  let time ← sampleTime fromString row
  let gpuUtilisation ← convert row.measured.gpuUtilisation
  let sample : GPUMetric Time := ⟨time, gpuUtilisation, 0, 0⟩
  let memoryUtilisation ← convert row.measured.memoryUtilisation
  let sample := { sample with memUtilisationMib := toInt64 memoryUtilisation }
  let temperature ← convert row.measured.temperature
  return { sample with memUtilisationMib := toInt64 temperature }

/-- Each measured value is in its own field. -/
structure GPUStatusRow.Measures (fromString : Text → Option Time) (row : DeviceRow GPUStatusRow)
    (sample : GPUMetric Time) : Prop where
  time : fromString row.sampleTime = some sample.time
  gpuUtilisation : asUint64 row.measured.gpuUtilisation = some sample.gpuUtilisation
  memoryUtilisation : ∃ n : ℕ, asUint64 row.measured.memoryUtilisation = some n ∧
    sample.memUtilisationMib = n
  temperature : asUint64 row.measured.temperature = some sample.temperatureCelsius

/-- The reply of `ProcessGPUMetricRequest` is right. -/
def GPUCorrect (fromString : Text → Option Time) (rows : List (DeviceRow GPUStatusRow)) : Prop :=
  ∃ nodes, groupRows (gpuSample fromString) rows = some (.ok nodes) ∧
    GroupedBy (GPUStatusRow.Measures fromString) rows nodes

theorem gpuSample_measures_iff {fromString : Text → Option Time} {row : DeviceRow GPUStatusRow} :
    (∃ sample, gpuSample fromString row = .ok sample ∧
        GPUStatusRow.Measures fromString row sample) ↔
      (∃ time, fromString row.sampleTime = some time) ∧
        (∃ n, asUint64 row.measured.gpuUtilisation = some n) ∧
        asUint64 row.measured.memoryUtilisation = some 0 ∧
        asUint64 row.measured.temperature = some 0 := by
  constructor
  · rintro ⟨sample, hsample, htime, hgpu, ⟨n, hmemory, hn⟩, htemperature⟩
    unfold gpuSample sampleTime convert at hsample
    rw [htime, hgpu, hmemory, htemperature] at hsample
    have hfields : sample.temperatureCelsius = 0 ∧
        sample.memUtilisationMib = toInt64 sample.temperatureCelsius := by
      have hsample := Except.ok.inj hsample
      constructor
      · rw [← hsample]
      · conv_lhs => rw [← hsample]
    have hzero : (n : Int) = 0 := by
      rw [← hn, hfields.2, hfields.1]
      rfl
    refine ⟨⟨_, htime⟩, ⟨_, hgpu⟩, ?_, ?_⟩
    · rw [hmemory]
      exact congrArg some (by omega)
    · rw [htemperature, hfields.1]
  · rintro ⟨⟨time, htime⟩, ⟨n, hgpu⟩, hmemory, htemperature⟩
    refine ⟨⟨time, n, 0, 0⟩, ?_, htime, hgpu, ⟨0, hmemory, rfl⟩, htemperature⟩
    unfold gpuSample sampleTime convert
    rw [htime, hgpu, hmemory, htemperature]
    rfl

/-! ## Markers -/

/-- The reply of `ProcessMarkerRequest` is right. -/
def MarkersCorrect (fromString : Text → Option Time) (rows : List MarkerRow) : Prop :=
  ∃ sets, markerSets fromString rows = .ok sets ∧ MarkersBy (MarkerRow.Event fromString) rows sets

/-! ## The replies -/

/-- The rows of a host are together if the rows are sorted by it. -/
theorem together_of_sorted {M : Type} {le : Text → Text → Prop}
    (hle : ∀ a b, le a b → le b a → a = b) {rows : List (DeviceRow M)}
    (hsorted : (rows.map DeviceRow.nodeHostname).Pairwise le) :
    Together DeviceRow.nodeHostname rows := by
  intro a b c hsub hac
  have hsorted := hsorted.sublist (hsub.map DeviceRow.nodeHostname)
  simp only [List.map_cons, List.pairwise_cons, List.mem_cons, List.map_nil] at hsorted
  have hab := hsorted.1 b.nodeHostname (.inl rfl)
  have hbc := hsorted.2.1 c.nodeHostname (.inl rfl)
  exact hle _ _ (hac ▸ hbc) hab

/-- **The replies to requests for samples and markers are right exactly if** the rows of each device
of a host are together, the device changes with the host, the first names are not empty, and what
is not in its own field is 0. -/
theorem utilisationReplies_correct_iff {le : Text → Text → Prop}
    (hle : ∀ a b, le a b → le b a → a = b) (fromString : Text → Option Time)
    {network : List (DeviceRow InterfaceStatusRow)} {gpu : List (DeviceRow GPUStatusRow)}
    (hnetwork : (network.map DeviceRow.nodeHostname).Pairwise le)
    (hgpu : (gpu.map DeviceRow.nodeHostname).Pairwise le) (markers : List MarkerRow) :
    (NetworkCorrect fromString network ↔ Separate network ∧
      ∀ r ∈ network, (∃ time, fromString r.sampleTime = some time) ∧
        r.measured.packetsTransmitted = 0 ∧ r.measured.packetsReceived = 0) ∧
    (GPUCorrect fromString gpu ↔ Separate gpu ∧
      ∀ r ∈ gpu, (∃ time, fromString r.sampleTime = some time) ∧
        (∃ n, asUint64 r.measured.gpuUtilisation = some n) ∧
        asUint64 r.measured.memoryUtilisation = some 0 ∧
        asUint64 r.measured.temperature = some 0) ∧
    (MarkersCorrect fromString markers ↔
      ∀ r ∈ markers, ∃ time, fromString r.sampleTime = some time) := by
  refine ⟨?_, ?_, markerSets_correct_iff⟩
  · refine (groupRows_correct_iff (together_of_sorted hle hnetwork)).trans ?_
    exact and_congr_right fun _ => forall₂_congr fun r _ => interfaceEvent_measures_iff
  · refine (groupRows_correct_iff (together_of_sorted hle hgpu)).trans ?_
    exact and_congr_right fun _ => forall₂_congr fun r _ => gpuSample_measures_iff

/-- A row of these names. -/
def deviceRow {M : Type} (host device time : String) (measured : M) : DeviceRow M :=
  ⟨host.toList, "10.0.0.1".toList, device.toList, time.toList, measured⟩

/-- Times that are their texts. -/
def anyTime (s : Text) : Option Text := some s

/-- Two hosts with two interfaces and with one, whose rows are together. -/
def separateRows : List (DeviceRow InterfaceStatusRow) :=
  [deviceRow "A" "m1" "1" ⟨5, 6, 0, 0⟩, deviceRow "A" "m2" "2" ⟨7, 8, 0, 0⟩,
    deviceRow "A" "m2" "3" ⟨9, 9, 0, 0⟩, deviceRow "B" "m1" "1" ⟨1, 2, 0, 0⟩]

/-- A device that is idle. -/
def idleRows : List (DeviceRow GPUStatusRow) :=
  [deviceRow "A" "gpu" "1" ⟨['0'], ['0'], ['0']⟩, deviceRow "A" "gpu" "2" ⟨['5'], ['0'], ['0']⟩]

/-- A marker of a label. -/
def markerRow (label : String) (workloadID : Int) (time : String) : MarkerRow :=
  ⟨label.toList, workloadID, time.toList, ⟨['c'], ['p'], ['n'], ['t']⟩, ⟨['w'], ['p'], ['m'], ['t']⟩⟩

/-- Two labels, by turns, with an id that both have. -/
def markerRows : List MarkerRow :=
  [markerRow "start" 1 "1", markerRow "stop" 1 "2", markerRow "start" 2 "3", markerRow "start" 1 "4"]

theorem utilisationReplies_correct_separate :
    NetworkCorrect anyTime separateRows ∧ GPUCorrect anyTime idleRows ∧
      MarkersCorrect anyTime markerRows := by
  obtain ⟨hnetwork, hgpu, hmarkers⟩ := utilisationReplies_correct_iff
    (fun _ _ h h' => le_antisymm h h') anyTime
    (show (separateRows.map DeviceRow.nodeHostname).Pairwise (· ≤ ·) by decide +kernel)
    (show (idleRows.map DeviceRow.nodeHostname).Pairwise (· ≤ ·) by decide +kernel) markerRows
  have hseparate : Separate separateRows :=
    ⟨by decide +kernel, by decide +kernel, by decide +kernel⟩
  have hidle : Separate idleRows := ⟨by decide +kernel, by decide +kernel, by decide +kernel⟩
  refine ⟨hnetwork.mpr ⟨hseparate, fun r hr => ⟨⟨_, rfl⟩, ?_⟩⟩,
    hgpu.mpr ⟨hidle, fun r hr => ⟨⟨_, rfl⟩, ?_⟩⟩, hmarkers.mpr fun r _ => ⟨_, rfl⟩⟩
  · revert r
    decide +kernel
  · have hconvert : ∀ r ∈ idleRows, (asUint64 r.measured.gpuUtilisation).isSome ∧
        asUint64 r.measured.memoryUtilisation = some 0 ∧
        asUint64 r.measured.temperature = some 0 := by
      decide +kernel
    obtain ⟨hgpu, hrest⟩ := hconvert r hr
    exact ⟨Option.isSome_iff_exists.mp hgpu, hrest⟩

/-- Two interfaces of a host, by turns: there are two groups of the first one. -/
theorem not_networkCorrect_interleaved :
    ¬ NetworkCorrect anyTime [deviceRow "A" "m1" "1" ⟨5, 6, 0, 0⟩,
      deviceRow "A" "m2" "1" ⟨7, 8, 0, 0⟩, deviceRow "A" "m1" "2" ⟨5, 6, 0, 0⟩] := by
  rintro ⟨nodes, hnodes, hgrouped⟩
  have hreply : (groupRows (interfaceEvent anyTime) [deviceRow "A" "m1" "1" ⟨5, 6, 0, 0⟩,
      deviceRow "A" "m2" "1" ⟨7, 8, 0, 0⟩, deviceRow "A" "m1" "2" ⟨5, 6, 0, 0⟩]) =
      some (.ok [⟨['A'], "10.0.0.1".toList,
        [⟨['m', '1'], [⟨0, 0, 6, 5, ['1']⟩]⟩, ⟨['m', '2'], [⟨0, 0, 8, 7, ['1']⟩]⟩,
          ⟨['m', '1'], [⟨0, 0, 6, 5, ['2']⟩]⟩]⟩]) := by
    decide +kernel
  rw [hreply] at hnodes
  cases hnodes
  have hnodup := hgrouped.devices _ List.mem_cons_self
  revert hnodup
  decide +kernel

end Sem.AggregationServer

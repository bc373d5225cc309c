import Sem.Lib.Run
import Sem.Lib.Table
import Sem.Lib.Xml

/-!
# Aggregation of GPU samples (`device_sample_aggregator.hpp`)

The client of the log system receives one chart for each metric of a device and a point in time. The
aggregator puts the metrics of one device at one time into one sample, and the samples of a host
into one group, which a retrieval moves out of the table.

A slot of the table is a `unique_ptr`, `none` where it is null. A field of a sample is `none` until
it is set; it then reads 0. How a value is converted to the `double` of its field is a parameter.
-/

namespace Sem.Netdata

open Xml (Text)

/-! ## Charts -/

/-- `chart_type_enum`, with the numbers that it does not name. -/
inductive ChartType
  | netdata | system | disk | diskOps | diskMops | diskIotime | diskBacklog | diskUtil | diskSpace
  | diskInodes | diskAwait | diskAvgsz | diskSvctm | diskQops | postfixLocal | apps | users | groups
  | cpu | mem | netPackets | net | ip | ipv4 | ipv6 | nvidiaSmi
  | other (value : Int)
  deriving DecidableEq

/-- The text of a chart type. -/
def ChartType.chartTypeEnumName : ChartType → String
  | .netdata => "netdata"
  | .system => "system"
  | .disk => "disk"
  | .diskOps => "disk_ops"
  | .diskMops => "disk_mops"
  | .diskIotime => "disk_iotime"
  | .diskBacklog => "disk_backlog"
  | .diskUtil => "disk_util"
  | .diskSpace => "disk_space"
  | .diskInodes => "disk_inodes"
  | .diskAwait => "disk_await"
  | .diskAvgsz => "disk_avgsz"
  | .diskSvctm => "disk_svctm"
  | .diskQops => "disk_qops"
  | .postfixLocal => "postfix_local"
  | .apps => "apps"
  | .users => "users"
  | .groups => "groups"
  | .cpu => "cpu"
  | .mem => "mem"
  | .netPackets => "net_packets"
  | .net => "net"
  | .ip => "ip"
  | .ipv4 => "ipv4"
  | .ipv6 => "ipv6"
  | .nvidiaSmi => "nvidia_smi"
  | .other _ => ""

/-- What is read of a `chart` message. -/
structure Chart where
  hostname : Text
  chartFamily : Text
  chartContext : Text
  chartType : ChartType
  value : Int
  timestamp : BitVec 64
  deriving DecidableEq

/-! ## Samples -/

/-- The fields of a sample that are measured. -/
inductive Metric
  | processorUtilisationPerc
  | memoryUtilisationPerc
  | temperatureCel
  deriving DecidableEq

/-- `GPUMetricSample`; `seconds` are the bits of its time stamp. -/
structure GPUMetricSample (F : Type) where
  deviceName : Text
  seconds : BitVec 64
  processorUtilisationPerc : Option F
  memoryUtilisationPerc : Option F
  temperatureCel : Option F

/-- The samples of the devices of one host. -/
structure DeviceMetricSamples (F : Type) where
  hostname : Text
  gpuSamples : List (GPUMetricSample F)

/-- The aggregator, without the descriptions of the devices, which no chart reaches. -/
structure DeviceSampleAggregator (F : Type) where
  deviceSamples : Table Text (Option (DeviceMetricSamples F))

variable {F : Type}

/-- A metric of a sample is written. -/
def GPUMetricSample.set (s : GPUMetricSample F) (v : F) : Metric → GPUMetricSample F
  | .processorUtilisationPerc => { s with processorUtilisationPerc := some v }
  | .memoryUtilisationPerc => { s with memoryUtilisationPerc := some v }
  | .temperatureCel => { s with temperatureCel := some v }

/-- A metric of a sample, where it has been written. -/
def GPUMetricSample.get (s : GPUMetricSample F) : Metric → Option F
  | .processorUtilisationPerc => s.processorUtilisationPerc
  | .memoryUtilisationPerc => s.memoryUtilisationPerc
  | .temperatureCel => s.temperatureCel

/-- `add_gpu_samples`, with the name and the time stamp set. -/
def GPUMetricSample.new (deviceName : Text) (timestamp : BitVec 64) : GPUMetricSample F :=
  ⟨deviceName, timestamp, none, none, none⟩

/-- The group with a sample for the device and the time, and the place of that sample in it. -/
def DeviceMetricSamples.getSample (group : DeviceMetricSamples F) (deviceName : Text)
    (timestamp : BitVec 64) : DeviceMetricSamples F × Nat :=
  match group.gpuSamples.findIdx? fun s => s.deviceName = deviceName ∧ s.seconds = timestamp with
  | some i => (group, i)
  | none => ({ group with gpuSamples := group.gpuSamples ++ [.new deviceName timestamp] },
      group.gpuSamples.length)

namespace DeviceSampleAggregator

variable (a : DeviceSampleAggregator F)

/-- The group of a host in `get_sample`: a new one where there is no slot or the slot is null. -/
def sampleGroup (hostname : Text) : DeviceMetricSamples F :=
  match a.deviceSamples.lookup hostname with
  | some (some group) => group
  | _ => ⟨hostname, []⟩

/-- `get_sample`, and a change of the sample that it points to. -/
def withSample (chart : Chart) (change : GPUMetricSample F → GPUMetricSample F) :
    DeviceSampleAggregator F :=
  let (group, i) := (a.sampleGroup chart.hostname).getSample chart.chartFamily chart.timestamp
  ⟨a.deviceSamples.insert chart.hostname
    (some { group with gpuSamples := group.gpuSamples.modify i change })⟩

/-- The error is the text of the `std::invalid_argument`. -/
def receiveChartData (perc cel : Int → F) (chart : Chart) :
    Except String (DeviceSampleAggregator F) :=
  if chart.chartType ≠ .nvidiaSmi then
    .error ("Received an unexpected netdata chart when nvidia_smi was expected: " ++
      chart.chartType.chartTypeEnumName)
  else if chart.chartContext = "nvidia_smi.gpu_utilization".toList then
    .ok (a.withSample chart (·.set (perc chart.value) .processorUtilisationPerc))
  else if chart.chartContext = "nvidia_smi.mem_utilization".toList then
    .ok (a.withSample chart (·.set (perc chart.value) .memoryUtilisationPerc))
  else if chart.chartContext = "nvidia_smi.temperature".toList then
    .ok (a.withSample chart (·.set (cel chart.value) .temperatureCel))
  else
    .ok a

/-- The moved pointer, and the table with the null pointer that is left behind. A host without a
slot is given an empty group. -/
def retrieveDeviceMetrics (hostname : Text) :
    Option (DeviceMetricSamples F) × DeviceSampleAggregator F :=
  match a.deviceSamples.lookup hostname with
  | some slot => (slot, ⟨a.deviceSamples.insert hostname none⟩)
  | none => (some ⟨[], []⟩, a)

end DeviceSampleAggregator

/-! ## The system -/

/-- One value of one metric that belongs to a host, a device and a time. -/
structure Reading (F : Type) where
  hostname : Text
  deviceName : Text
  seconds : BitVec 64
  metric : Metric
  value : F
  deriving DecidableEq

/-- What a chart measures, if it is one of the three contexts. -/
def Chart.metric (chart : Chart) : Option Metric :=
  if chart.chartType ≠ .nvidiaSmi then none
  else if chart.chartContext = "nvidia_smi.gpu_utilization".toList then
    some .processorUtilisationPerc
  else if chart.chartContext = "nvidia_smi.mem_utilization".toList then
    some .memoryUtilisationPerc
  else if chart.chartContext = "nvidia_smi.temperature".toList then
    some .temperatureCel
  else
    none

/-- A value in the unit of its metric. -/
def Metric.convert (perc cel : Int → F) (value : Int) : Metric → F
  | .temperatureCel => cel value
  | _ => perc value

/-- The aggregator with the values that it has received and the results that it has given. -/
structure Aggregation (F : Type) where
  aggregator : DeviceSampleAggregator F
  received : List (Reading F)
  retrieved : List (Text × Option (DeviceMetricSamples F))

/-- The two calls. -/
inductive AggregatorCall
  | receiveChartData (chart : Chart)
  | retrieveDeviceMetrics (hostname : Text)
  deriving DecidableEq

/-- A call; an exception leaves the aggregator as it is. -/
def aggregatorStep (perc cel : Int → F) (s : Aggregation F) :
    AggregatorCall → Option (Aggregation F)
  | .receiveChartData chart => some
    { s with
      aggregator := (s.aggregator.receiveChartData perc cel chart).toOption.getD s.aggregator
      received := s.received ++ chart.metric.toList.map fun metric =>
        ⟨chart.hostname, chart.chartFamily, chart.timestamp, metric,
          metric.convert perc cel chart.value⟩ }
  | .retrieveDeviceMetrics hostname => some
    { s with
      aggregator := (s.aggregator.retrieveDeviceMetrics hostname).2
      retrieved :=
        s.retrieved ++ [(hostname, (s.aggregator.retrieveDeviceMetrics hostname).1)] }

/-- The runs of calls, from an empty aggregator. -/
def aggregatorSystem (perc cel : Int → F) : Lts (Aggregation F) AggregatorCall :=
  Lts.ofFun ⟨⟨∅⟩, [], []⟩ (aggregatorStep perc cel)

/-! ## The purpose -/

/-- The values in a sample. -/
def GPUMetricSample.readings (hostname : Text) (s : GPUMetricSample F) : List (Reading F) :=
  [Metric.processorUtilisationPerc, .memoryUtilisationPerc, .temperatureCel].flatMap fun metric =>
    (s.get metric).toList.map fun v => ⟨hostname, s.deviceName, s.seconds, metric, v⟩

/-- The values in a group, none in a null pointer. -/
def readings : Option (DeviceMetricSamples F) → List (Reading F)
  | some group => group.gpuSamples.flatMap (·.readings group.hostname)
  | none => []

/-- A group has at most one sample for a device and a time. -/
def DeviceMetricSamples.Merged (group : DeviceMetricSamples F) : Prop :=
  (group.gpuSamples.map fun s => (s.deviceName, s.seconds)).Nodup

/-- **What is received is held or was retrieved, once and in the sample that it belongs to**, and
every retrieval gives a group. -/
structure Aggregation.Conserved (s : Aggregation F) : Prop where
  readings : s.received.Perm (s.retrieved.flatMap (fun r => readings r.2) ++
    s.aggregator.deviceSamples.values.flatMap Netdata.readings)
  held : ∀ hostname group, s.aggregator.deviceSamples.lookup hostname = some (some group) →
    group.Merged ∧ group.hostname = hostname
  valid : ∀ r ∈ s.retrieved, ∃ group, r.2 = some group ∧ group.Merged ∧
    (group.gpuSamples = [] ∨ group.hostname = r.1)

end Sem.Netdata

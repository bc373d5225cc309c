import Sem.AggregationServer.DatabaseClient

/-!
# Information and status of the hosts

An `InfoEvent` announces a host with its file systems, interfaces and GPUs; the handler keeps the
ids that the database gives them. A `StatusEvent` has a sample of each, and of processes, which it
may announce itself. A statement that fails ends the processing of its event; what was stored
before stays.

* `processStatusEvent`, `processInfoEvent`: the two callbacks; `step`: one event.
-/

namespace Sem.AggregationServer

open Xml (Text)

/-- A number with a fraction, by the text that is printed for it. -/
structure Double where
  text : Text
  deriving DecidableEq, Repr

/-! ## Events -/

/-- The counters of a network interface. -/
structure InterfaceStatus where
  name : Text
  rxPackets : ℕ
  rxBytes : ℕ
  txPackets : ℕ
  txBytes : ℕ

/-- The use of a file system. -/
structure FileSystemStatus where
  name : Text
  utilization : Double

/-- `ProcessStatus::State`; a message may have a number that is none of them. -/
inductive ProcessState
  | procError | procRunning | procSleeping | procIdle | procStopped | procZombie | procDead
  | unknown (number : Int)
  deriving DecidableEq, Repr

/-- `State_Name` -/
def ProcessState.name : ProcessState → Text
  | .procError => "PROC_ERROR".toList
  | .procRunning => "PROC_RUNNING".toList
  | .procSleeping => "PROC_SLEEPING".toList
  | .procIdle => "PROC_IDLE".toList
  | .procStopped => "PROC_STOPPED".toList
  | .procZombie => "PROC_ZOMBIE".toList
  | .procDead => "PROC_DEAD".toList
  | .unknown _ => []

/-- A duration, by the text that `TimeUtil` makes of it. -/
structure Duration where
  text : Text
  deriving DecidableEq, Repr

/-- What a process uses; it is known by its pid and its start. -/
structure ProcessStatus (Time : Type) where
  pid : ℕ
  cpuCoreId : ℕ
  cpuUtilization : Double
  physMemUtilization : Double
  physMemUsedKb : ℕ
  threadCount : ℕ
  diskReadKilobytes : ℕ
  diskWrittenKilobytes : ℕ
  diskTotalKilobytes : ℕ
  cpuTime : Duration
  state : ProcessState
  startTime : Time

/-- The announcement of a process. -/
structure ProcessInfo (Time : Type) where
  pid : ℕ
  cwd : Text
  name : Text
  args : Text
  startTime : Time

/-- A sample of a GPU, with a time of its own. -/
structure GPUMetricSample (Time : Type) where
  deviceName : Text
  timestamp : Time
  processorUtilisationPerc : Double
  memoryUtilisationPerc : Double
  temperatureCel : Double

/-- The samples of the devices of one host. -/
structure DeviceMetricSamples (Time : Type) where
  hostname : Text
  gpuSamples : List (GPUMetricSample Time)

/-- `SystemEvent::StatusEvent`: announcements of processes, and samples at one time. -/
structure StatusEvent (Time : Type) where
  hostname : Text
  timestamp : Time
  cpuUtilization : Double
  physMemUtilization : Double
  processInfo : List (ProcessInfo Time)
  processes : List (ProcessStatus Time)
  interfaces : List InterfaceStatus
  fileSystems : List FileSystemStatus
  deviceSamples : List (DeviceMetricSamples Time)

/-- The announcement of a file system. -/
structure FileSystemInfo where
  name : Text
  /-- `Type_Name` of the type. -/
  type : Text
  sizeKilobytes : ℕ

/-- The announcement of a network interface. -/
structure InterfaceInfo where
  name : Text
  type : Text
  description : Text
  ipv4Addr : Text
  ipv6Addr : Text
  macAddr : Text
  speed : ℕ

/-- The announcement of a GPU. -/
structure GPUDescriptor where
  name : Text

/-- The GPUs of a host. -/
structure DeviceInfo where
  hostname : Text
  gpus : List GPUDescriptor

/-- `SystemEvent::InfoEvent`: a host, and the items of which it will send samples. -/
structure InfoEvent where
  hostname : Text
  osName : Text
  osArch : Text
  osDescription : Text
  osVersion : Text
  osVendor : Text
  osVendorName : Text
  cpuModel : Text
  cpuVendor : Text
  cpuFrequencyHz : ℕ
  physicalMemoryKilobytes : ℕ
  fileSystemInfo : List FileSystemInfo
  interfaceInfo : List InterfaceInfo
  deviceInfo : List DeviceInfo

/-! ## The handler -/

/-- `SystemEventProtoHandler`, with what it changes in the database and how many questions it has
asked. -/
structure SystemEventProtoHandler (Time : Type) where
  systemIdCache : Table Text Int
  filesystemIdCache : Table Text Int
  interfaceIdCache : Table Text Int
  processIdCache : Table Text Int
  gpuIdCache : Table Text Int
  /-- The rows of the status tables. -/
  rows : List Row
  /-- `LastUpdated` of the run, with `⊥` for `NULL`. -/
  lastUpdated : WithBot Time
  questions : ℕ

namespace SystemEventProtoHandler

variable {Time : Type}

/-- A handler before its first event; the run may have been updated by the other handlers. -/
def start (lastUpdated : WithBot Time) : SystemEventProtoHandler Time where
  systemIdCache := ∅
  filesystemIdCache := ∅
  interfaceIdCache := ∅
  processIdCache := ∅
  gpuIdCache := ∅
  rows := []
  lastUpdated := lastUpdated
  questions := 0

/-- What a handler does with an event. -/
abbrev Handling (Time : Type) := Throwing (SystemEventProtoHandler Time) DatabaseError

/-- Keys of the caches, but for processes. -/
def getKey (hostname name : Text) : Text := hostname ++ '/' :: name

/-- The key of an interface in its cache. -/
def getInterfaceKey := getKey
/-- The key of a file system in its cache. -/
def getFileSystemKey := getKey
/-- The key of a GPU in its cache. -/
def getGPUKey := getKey

/-- The conversion of a `uint32` to an `int`. -/
def toInt (pid : ℕ) : Int := (BitVec.ofNat 32 pid).toInt

/-- The key of a process: a pid may be used again by a process that starts later. -/
def getProcessKey (hostname : Text) (pid : Int) (starttime : Text) : Text :=
  hostname ++ '/' :: intText pid ++ '_' :: starttime

/-- `emplace` -/
def emplace (cache : Table Text Int) (key : Text) (id : Int) : Table Text Int :=
  if key ∈ cache then cache else cache.insert key id

/-- `at` -/
def cached (cache : SystemEventProtoHandler Time → Table Text Int) (key : Text) :
    Handling Time Int := do
  match (cache (← Throwing.read)).lookup key with
  | some id => return id
  | none => throw .outOfRange

variable (time : TimeUtil Time) (answers : Answers)

/-- `DatabaseClient::InsertValues`, of which an exception ends the event. -/
def insertValues (table : TableName) (columns : List Column) (values : List Text) :
    Handling Time PUnit :=
  match insert time table columns values with
  | .ok row => Throwing.update fun h => { h with rows := h.rows ++ [row] }
  | .error e => throw e

/-- `ExperimentTracker`'s update of `LastUpdated`. -/
def updateLastSampleTime [LinearOrder Time] (sampleTime : Text) : Handling Time PUnit := do
  match update time sampleTime (← Throwing.read).lastUpdated with
  | .ok lastUpdated => Throwing.update fun h => { h with lastUpdated := lastUpdated }
  | .error e => throw e

/-- A question to the rest of the system. -/
def ask (answer : ℕ → Option Int) : Handling Time Int := do
  let questions := (← Throwing.read).questions
  Throwing.update fun h => { h with questions := questions + 1 }
  match answer questions with
  | some id => return id
  | none => throw .notAnswered

/-- `DatabaseClient::InsertValuesUnique`; its answer is the id of a row. -/
def insertValuesUnique (query : UniqueQuery) : Handling Time Int :=
  ask fun n => answers.insertValuesUnique n query

/-- `ExperimentTracker::GetNodeIDFromHostname`. -/
def getNodeIDFromHostname (hostname : Text) : Handling Time Int :=
  ask fun n => answers.getNodeIDFromHostname n hostname

/-! ## Status events -/

/-- What is done with the sample of an item: a row, under the item's id, and the time of it. -/
def processSample [LinearOrder Time] (cache : SystemEventProtoHandler Time → Table Text Int)
    (key : Text) (table : TableName) (columns : List Column) (values : Text → List Text)
    (timestamp : Text) : Handling Time PUnit := do
  let id ← cached cache key
  insertValues time table columns (values (quote (intText id)))
  updateLastSampleTime time timestamp

/-- `ProcessInterfaceStatus`. -/
def processInterfaceStatus [LinearOrder Time] (ifStatus : InterfaceStatus)
    (hostname timestamp : Text) : Handling Time PUnit :=
  processSample time (·.interfaceIdCache) (getInterfaceKey hostname ifStatus.name)
    .interfaceStatus
    [.interfaceID, .packetsReceived, .bytesReceived, .packetsTransmitted, .bytesTransmitted,
      .sampleTime]
    (fun interfaceId => [interfaceId, quote (decimal ifStatus.rxPackets),
      quote (decimal ifStatus.rxBytes), quote (decimal ifStatus.txPackets),
      quote (decimal ifStatus.txBytes), timestamp])
    timestamp

/-- `ProcessFileSystemStatus`. -/
def processFileSystemStatus [LinearOrder Time] (fsStatus : FileSystemStatus)
    (hostname timestamp : Text) : Handling Time PUnit :=
  processSample time (·.filesystemIdCache) (getFileSystemKey hostname fsStatus.name)
    .filesystemStatus
    [.filesystemID, .utilisation, .sampleTime]
    (fun filesystemId => [filesystemId, quote fsStatus.utilization.text, timestamp])
    timestamp

/-- `ProcessProcessStatus`. -/
def processProcessStatus [LinearOrder Time] (pStatus : ProcessStatus Time)
    (hostname timestamp : Text) : Handling Time PUnit :=
  processSample time (·.processIdCache)
    (getProcessKey hostname (toInt pStatus.pid) (time.toString pStatus.startTime))
    .processStatus
    [.processID, .coreID, .cpuUtilisation, .physMemUtilisation, .physMemUsedKB, .threadCount,
      .diskRead, .diskWritten, .diskTotal, .cpuTime, .state, .sampleTime]
    (fun processId => [processId, quote (decimal pStatus.cpuCoreId),
      quote pStatus.cpuUtilization.text, quote pStatus.physMemUtilization.text,
      quote (decimal pStatus.physMemUsedKb), quote (decimal pStatus.threadCount),
      quote (decimal pStatus.diskReadKilobytes), quote (decimal pStatus.diskWrittenKilobytes),
      quote (decimal pStatus.diskTotalKilobytes), quote pStatus.cpuTime.text,
      quote pStatus.state.name, timestamp])
    timestamp

/-- The id is that of a GPU, the column that of a file system. -/
def processGPUMetricSample [LinearOrder Time] (gpuSample : GPUMetricSample Time)
    (hostname : Text) : Handling Time PUnit :=
  let timestamp := quote (time.toString gpuSample.timestamp)
  processSample time (·.gpuIdCache) (getGPUKey hostname gpuSample.deviceName)
    .gpuStatus
    [.filesystemID, .gpuUtilisation, .memoryUtilisation, .temperature, .sampleTime]
    (fun gpuId => [gpuId, quote gpuSample.processorUtilisationPerc.text,
      quote gpuSample.memoryUtilisationPerc.text, quote gpuSample.temperatureCel.text, timestamp])
    timestamp

/-- `ProcessDeviceMetricSamples`. -/
def processDeviceMetricSamples [LinearOrder Time] (devSamples : DeviceMetricSamples Time) :
    Handling Time PUnit :=
  devSamples.gpuSamples.forM fun gpuSample =>
    processGPUMetricSample time gpuSample devSamples.hostname

/-- The query of `processProcessInfo`. -/
def processQuery (pInfo : ProcessInfo Time) (nodeId : Int) : UniqueQuery :=
  ⟨"Hardware.Process", ["NodeID", "pID", "WorkingDirectory", "ProcessName", "Args", "StartTime"],
    [intText nodeId, decimal pInfo.pid, pInfo.cwd, pInfo.name, pInfo.args,
      time.toString pInfo.startTime],
    ["NodeID", "pID", "StartTime"]⟩

/-- `ProcessProcessInfo`: the id of the process goes to the cache. -/
def processProcessInfo (pInfo : ProcessInfo Time) (hostname : Text) : Handling Time PUnit := do
  let nodeId ← getNodeIDFromHostname answers hostname
  let processId ← insertValuesUnique answers (processQuery time pInfo nodeId)
  Throwing.update fun h => { h with
    processIdCache := emplace h.processIdCache
      (getProcessKey hostname (toInt pInfo.pid) (time.toString pInfo.startTime)) processId }

/-- `ProcessStatusEvent`: the host's row first, then the announcements and the samples. -/
def processStatusEvent [LinearOrder Time] (event : StatusEvent Time) : Handling Time PUnit := do
  let hostname := event.hostname
  let timeStr := quote (time.toString event.timestamp)
  let systemId ← cached (·.systemIdCache) hostname
  insertValues time .systemStatus [.systemID, .sampleTime, .cpuUtilisation, .physMemUtilisation]
    [quote (intText systemId), timeStr, quote event.cpuUtilization.text,
      quote event.physMemUtilization.text]
  event.interfaces.forM fun iface => processInterfaceStatus time iface hostname timeStr
  event.fileSystems.forM fun fs => processFileSystemStatus time fs hostname timeStr
  event.processInfo.forM fun pInfo => processProcessInfo time answers pInfo hostname
  event.processes.forM fun p => processProcessStatus time p hostname timeStr
  event.deviceSamples.forM fun d => processDeviceMetricSamples time d

/-! ## Information events -/

/-- `ProcessFileSystemInfo`: the id of the file system goes to the cache. -/
def processFileSystemInfo (fsInfo : FileSystemInfo) (hostname : Text) (nodeId : Int) :
    Handling Time PUnit := do
  let filesystemId ← insertValuesUnique answers
    ⟨"Hardware.Filesystem", ["Name", "Type", "Size", "NodeID"],
      [fsInfo.name, fsInfo.type, decimal fsInfo.sizeKilobytes, intText nodeId],
      ["NodeID", "Name"]⟩
  Throwing.update fun h => { h with
    filesystemIdCache := emplace h.filesystemIdCache (getFileSystemKey hostname fsInfo.name)
      filesystemId }

/-- `ProcessInterfaceInfo`: the id of the interface goes to the cache. -/
def processInterfaceInfo (iInfo : InterfaceInfo) (hostname : Text) (nodeId : Int) :
    Handling Time PUnit := do
  let interfaceId ← insertValuesUnique answers
    ⟨"Hardware.Interface",
      ["NodeID", "Name", "Type", "Description", "IPv4", "IPv6", "MAC", "Speed"],
      [intText nodeId, iInfo.name, iInfo.type, iInfo.description, iInfo.ipv4Addr, iInfo.ipv6Addr,
        iInfo.macAddr, intText (BitVec.ofNat 64 iInfo.speed).toInt],
      ["NodeID", "Name"]⟩
  Throwing.update fun h => { h with
    interfaceIdCache := emplace h.interfaceIdCache (getInterfaceKey hostname iInfo.name)
      interfaceId }

/-- `ProcessGPUDescriptor`: the id of the GPU goes to the cache. -/
def processGPUDescriptor (gpuInfo : GPUDescriptor) (hostname : Text) (nodeId : Int) :
    Handling Time PUnit := do
  let gpuId ← insertValuesUnique answers
    ⟨"Hardware.GPU", ["NodeID", "Name"], [intText nodeId, gpuInfo.name], ["NodeID", "Name"]⟩
  Throwing.update fun h => { h with
    gpuIdCache := emplace h.gpuIdCache (getGPUKey hostname gpuInfo.name) gpuId }

/-- `ProcessDeviceInfo`. -/
def processDeviceInfo (dInfo : DeviceInfo) (nodeId : Int) : Handling Time PUnit :=
  dInfo.gpus.forM fun gpuInfo => processGPUDescriptor answers gpuInfo dInfo.hostname nodeId

/-- `ProcessInfoEvent`: the host, and then all that it announces. -/
def processInfoEvent (info : InfoEvent) : Handling Time PUnit := do
  let nodeId ← getNodeIDFromHostname answers info.hostname
  let systemId ← insertValuesUnique answers
    ⟨"Hardware.System",
      ["NodeID", "OSName", "OSArch", "OSDescription", "OSVersion", "OSVendor", "OSVendorName",
        "CPUModel", "CPUVendor", "CPUFrequencyHZ", "PhysicalMemoryKB"],
      [intText nodeId, info.osName, info.osArch, info.osDescription, info.osVersion,
        info.osVendor, info.osVendorName, info.cpuModel, info.cpuVendor,
        decimal info.cpuFrequencyHz, decimal info.physicalMemoryKilobytes],
      ["NodeID"]⟩
  Throwing.update fun h => { h with
    systemIdCache := emplace h.systemIdCache info.hostname systemId }
  info.fileSystemInfo.forM fun fsInfo => processFileSystemInfo answers fsInfo info.hostname nodeId
  info.interfaceInfo.forM fun iInfo => processInterfaceInfo answers iInfo info.hostname nodeId
  info.deviceInfo.forM fun dInfo => processDeviceInfo answers dInfo nodeId

/-- The messages that the handler is registered for. -/
inductive Event (Time : Type)
  | info (info : InfoEvent)
  | status (event : StatusEvent Time)

/-- The handler after an event, whether or not it threw. -/
def step [LinearOrder Time] (h : SystemEventProtoHandler Time) : Event Time →
    SystemEventProtoHandler Time
  | .info info => ((processInfoEvent answers info h).map (·.2)).getD h
  | .status event => ((processStatusEvent time answers event h).map (·.2)).getD h

end SystemEventProtoHandler

end Sem.AggregationServer

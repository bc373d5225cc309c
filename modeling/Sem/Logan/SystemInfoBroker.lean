import Sem.AggregationServer.SystemEventProtoHandler

/-!
# The broker of a host's state

What is known of a host is read once (`Host`) or again at every update (`SystemInfo`). For each of
its listeners the broker makes the events that are sent on: an information event has the file
systems and the interfaces that are up; a status has the samples of these and of the monitored
processes that were refreshed since the last one. A process is announced by the first status after
one at which its pid was not monitored.

The number of a message and the utilization of each core are left out, which no handler reads.
-/

namespace Sem.Logan

open AggregationServer
open Xml (Text)

/-- `FileSystem::Type`. -/
inductive FileSystemType
  | unknown | localDisk | network | ramDisk | cdrom | swap
  deriving DecidableEq, Repr

/-- `Type_Name` of the same number. -/
def FileSystemType.name : FileSystemType → Text
  | .unknown => "FS_UNKNOWN".toList
  | .localDisk => "FS_LOCAL_DISK".toList
  | .network => "FS_NETWORK".toList
  | .ramDisk => "FS_RAM_DISK".toList
  | .cdrom => "FS_CDROM".toList
  | .swap => "FS_SWAP".toList

/-- What `SystemInfo` says of a file system. -/
structure FileSystem where
  name : Text
  type : FileSystemType
  sizeKB : ℕ
  utilization : Double

/-- What `SystemInfo` says of a network interface. -/
structure Interface where
  name : Text
  type : Text
  description : Text
  ipv4 : Text
  ipv6 : Text
  mac : Text
  speed : ℕ
  /-- `InterfaceState::UP` -/
  up : Bool
  rxBytes : ℕ
  rxPackets : ℕ
  txBytes : ℕ
  txPackets : ℕ

/-- What `SystemInfo` says of a process. -/
structure Process (Time : Type) where
  fullName : Text
  arguments : Text
  cwd : Text
  state : ProcessState
  cpu : Int32
  cpuUtilization : Double
  physMemUsedKB : ℕ
  physMemUtilization : Double
  threadCount : Int32
  startTime : Time
  cpuTime : AggregationServer.Duration
  updateTime : Time
  diskWrittenKB : ℕ
  diskReadKB : ℕ
  diskTotalKB : ℕ

/-- What is read when the program starts. -/
structure Host where
  hostname : Text
  osName : Text
  osArch : Text
  osDescription : Text
  osVersion : Text
  osVendor : Text
  osVendorName : Text
  cpuModel : Text
  cpuVendor : Text
  cpuFrequency : Int32

/-- What an update reads. -/
structure SystemInfo (Time : Type) where
  updateTimestamp : Time
  cpuOverallUtilization : Double
  physMemKB : ℕ
  physMemUtilization : Double
  fileSystems : List FileSystem
  interfaces : List Interface
  /-- The elements of the set, in its order. -/
  monitoredPids : List Int32
  ascending : monitoredPids.Pairwise (· < ·)
  process : Int32 → Process Time

/-- The conversion of an `int` to a `uint32`. -/
def toUInt (n : Int32) : ℕ := n.toUInt32.toNat

variable {Time : Type}

/-- `SystemInfoBroker` -/
structure SystemInfoBroker (Time : Type) where
  host : Host
  systemInfo : SystemInfo Time
  /-- The pids that were monitored at the last status of a listener. -/
  pidLookups : Table ℕ (List Int32)
  listenerUpdatedTimes : Table ℕ Time

namespace SystemInfoBroker

/-- A broker that no listener has asked yet. -/
def start (host : Host) (systemInfo : SystemInfo Time) : SystemInfoBroker Time :=
  ⟨host, systemInfo, ∅, ∅⟩

/-- The sample of a process; the pid is sent unsigned. -/
def processStatus (pid : Int32) (p : Process Time) : ProcessStatus Time where
  pid := toUInt pid
  cpuCoreId := toUInt p.cpu
  cpuUtilization := p.cpuUtilization
  physMemUtilization := p.physMemUtilization
  physMemUsedKb := p.physMemUsedKB
  threadCount := toUInt p.threadCount
  diskReadKilobytes := p.diskReadKB
  diskWrittenKilobytes := p.diskWrittenKB
  diskTotalKilobytes := p.diskTotalKB
  cpuTime := p.cpuTime
  state := p.state
  startTime := p.startTime

/-- The announcement of a process. -/
def processInfo (pid : Int32) (p : Process Time) : ProcessInfo Time where
  pid := toUInt pid
  cwd := p.cwd
  name := p.fullName
  args := p.arguments
  startTime := p.startTime

/-- The sample of a file system. -/
def fileSystemStatus (fs : FileSystem) : FileSystemStatus := ⟨fs.name, fs.utilization⟩

/-- The announcement of a file system. -/
def fileSystemInfo (fs : FileSystem) : FileSystemInfo := ⟨fs.name, fs.type.name, fs.sizeKB⟩

/-- The sample of an interface. -/
def interfaceStatus (i : Interface) : InterfaceStatus where
  name := i.name
  rxPackets := i.rxPackets
  rxBytes := i.rxBytes
  txPackets := i.txPackets
  txBytes := i.txBytes

/-- The announcement of an interface. -/
def interfaceInfo (i : Interface) : InterfaceInfo where
  name := i.name
  type := i.type
  description := i.description
  ipv4Addr := i.ipv4
  ipv6Addr := i.ipv6
  macAddr := i.mac
  speed := i.speed

/-- `last_update_sent` -/
def lastUpdateSent [Zero Time] (broker : SystemInfoBroker Time) (listenerId : ℕ) : Time :=
  match broker.listenerUpdatedTimes.lookup listenerId with
  | some time => time
  | none => 0

/-- The pid was monitored at the last status of the listener. -/
def seen (broker : SystemInfoBroker Time) (listenerId : ℕ) (pid : Int32) : Bool :=
  match broker.pidLookups.lookup listenerId with
  | some pids => pid ∈ pids
  | none => false

/-- `GetSystemStatus` -/
def getSystemStatus [LinearOrder Time] [Zero Time] (broker : SystemInfoBroker Time)
    (listenerId : ℕ) : SystemInfoBroker Time × Option (StatusEvent Time) :=
  let info := broker.systemInfo
  let lastUpdateSent := broker.lastUpdateSent listenerId
  if lastUpdateSent = info.updateTimestamp then (broker, none)
  else
    let updated := info.monitoredPids.filter fun pid =>
      lastUpdateSent < (info.process pid).updateTime
    let announced := updated.filter fun pid => !broker.seen listenerId pid
    ({ broker with
        pidLookups := broker.pidLookups.insert listenerId info.monitoredPids
        listenerUpdatedTimes :=
          broker.listenerUpdatedTimes.insert listenerId info.updateTimestamp },
      some {
        hostname := broker.host.hostname
        timestamp := info.updateTimestamp
        cpuUtilization := info.cpuOverallUtilization
        physMemUtilization := info.physMemUtilization
        processInfo := announced.map fun pid => processInfo pid (info.process pid)
        processes := updated.map fun pid => processStatus pid (info.process pid)
        interfaces := (info.interfaces.filter (·.up)).map interfaceStatus
        fileSystems := info.fileSystems.map fileSystemStatus
        deviceSamples := [] })

/-- `GetSystemInfo` -/
def getSystemInfo (broker : SystemInfoBroker Time) : InfoEvent where
  hostname := broker.host.hostname
  osName := broker.host.osName
  osArch := broker.host.osArch
  osDescription := broker.host.osDescription
  osVersion := broker.host.osVersion
  osVendor := broker.host.osVendor
  osVendorName := broker.host.osVendorName
  cpuModel := broker.host.cpuModel
  cpuVendor := broker.host.cpuVendor
  cpuFrequencyHz := (BitVec.ofInt 64 broker.host.cpuFrequency.toInt).toNat
  physicalMemoryKilobytes := broker.systemInfo.physMemKB
  fileSystemInfo := broker.systemInfo.fileSystems.map fileSystemInfo
  interfaceInfo := (broker.systemInfo.interfaces.filter (·.up)).map interfaceInfo
  deviceInfo := []

/-- `Update`, with what it reads. -/
def update (broker : SystemInfoBroker Time) (systemInfo : SystemInfo Time) :
    SystemInfoBroker Time :=
  { broker with systemInfo := systemInfo }

/-! ## Runs -/

/-- The calls of the broker, and the updates of what it reads. -/
inductive Call (Time : Type)
  | update (systemInfo : SystemInfo Time)
  | getSystemInfo (listenerId : ℕ)
  | getSystemStatus (listenerId : ℕ)

open SystemEventProtoHandler (Event)

/-- The events of one listener. -/
def events [LinearOrder Time] [Zero Time] (listenerId : ℕ) :
    SystemInfoBroker Time → List (Call Time) → List (Event Time)
  | _, [] => []
  | broker, .update systemInfo :: calls => events listenerId (broker.update systemInfo) calls
  | broker, .getSystemInfo caller :: calls =>
    if caller = listenerId then .info broker.getSystemInfo :: events listenerId broker calls
    else events listenerId broker calls
  | broker, .getSystemStatus caller :: calls =>
    if caller = listenerId then
      ((broker.getSystemStatus caller).2.map Event.status).toList ++
        events listenerId (broker.getSystemStatus caller).1 calls
    else events listenerId (broker.getSystemStatus caller).1 calls

end SystemInfoBroker

end Sem.Logan

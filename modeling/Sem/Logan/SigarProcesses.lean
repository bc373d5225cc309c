import Mathlib.Data.Finset.Erase
import Mathlib.Data.Finset.Insert
import Sem.Lib.Run
import Sem.Lib.Table
import Sem.Lib.Xml

/-!
# Monitored processes (`sigarsysteminfo.cpp`)

`update_processes` reads the list of the processes that are alive, keeps the name of each one that
it has not seen before, and decides for new processes, or for all of them if the flag is set,
whether a tracked name is in the process' name. It then drops the processes that have ended.

The names of processes are paths with `/`, and `std::toupper` is that of the C locale. What sigar
reads of a process that is monitored is left out. The purge passes the key of an entry to
`ignore_process` after it has erased the entry: what the freed key reads as is up to the environment.
-/

namespace Sem.Logan

open Xml (Text)

/-! ## Names -/

/-- A text begins with the other one, up to case. -/
def startsWith : Text → Text → Bool
  | _, [] => true
  | [], _ :: _ => false
  | c :: haystack, d :: needle => c.toUpper == d.toUpper && startsWith haystack needle

/-- `std::search`: the text from the first match on, or the end. -/
def search : Text → Text → Text
  | [], _ => []
  | c :: haystack, needle =>
    if startsWith (c :: haystack) needle then c :: haystack else search haystack needle

/-- `stringInString`: a text is found in the other one, up to case. -/
def stringInString (haystack needle : Text) : Bool := search haystack needle ≠ []

/-- The part of an executable's path behind the last slash. -/
def processName (exeName : Text) : Text :=
  (exeName.reverse.takeWhile (· ≠ '/')).reverse

/-! ## The state -/

/-- `processes` has the names of the processes. -/
structure SigarSystemInfo where
  processes : Table Int Text
  currentPids : Finset Int
  trackedPids : Finset Int
  trackedProcessNames : Finset Text
  forceProcessNameCheck : Bool

/-- What sigar says of the processes in one update: the pids that are alive, the path of each one's
executable, and what the key of an erased entry reads as. -/
structure ProcessList where
  pids : List Int
  exeName : Int → Text
  freedPid : Int → Int

namespace SigarSystemInfo

variable (s : SigarSystemInfo)

/-- `monitor_process`. -/
def monitorProcess (pid : Int) : SigarSystemInfo :=
  { s with trackedPids := insert pid s.trackedPids }

/-- `ignore_process`. -/
def ignoreProcess (pid : Int) : SigarSystemInfo :=
  { s with trackedPids := s.trackedPids.erase pid }

/-- `monitor_processes`: a new name forces a look at the names of all processes. -/
def monitorProcesses (processName : Text) : SigarSystemInfo :=
  if processName ∈ s.trackedProcessNames then s
  else { s with
    trackedProcessNames := insert processName s.trackedProcessNames
    forceProcessNameCheck := true }

/-- `ignore_processes`. -/
def ignoreProcesses (processName : Text) : SigarSystemInfo :=
  if processName ∈ s.trackedProcessNames then
    { s with
      trackedProcessNames := s.trackedProcessNames.erase processName
      forceProcessNameCheck := true }
  else s

/-- `clear_monitored_processes`. -/
def clearMonitoredProcesses : SigarSystemInfo :=
  { s with trackedProcessNames := ∅ }

/-- Whether a tracked name is in a process' name. -/
def matchesName (name : Text) : Bool :=
  decide (∃ query ∈ s.trackedProcessNames, stringInString name query)

/-- There are data of the process. -/
def gotProcess (pid : Int) : Bool := (s.processes.lookup pid).isSome

/-- The name that a process of the list has been given when it was first seen, or is given now. -/
def nameOf (exeName : Int → Text) (s : SigarSystemInfo) (pid : Int) : Text :=
  (s.processes.lookup pid).getD (processName (exeName pid))

/-- One process of the list. -/
def updateProcess (exeName : Int → Text) (s : SigarSystemInfo) (pid : Int) : SigarSystemInfo :=
  let name := nameOf exeName s pid
  let seenPid := s.gotProcess pid
  let s := { s with
    processes := if seenPid then s.processes else s.processes.insert pid name
    currentPids := insert pid s.currentPids }
  if !seenPid || s.forceProcessNameCheck then
    if s.matchesName name then s.monitorProcess pid else s.ignoreProcess pid
  else
    s

/-- One entry of the loop that purges. -/
def purgeProcess (freedPid : Int → Int) (s : SigarSystemInfo) (pid : Int) : SigarSystemInfo :=
  if pid ∈ s.currentPids then s
  else { s with processes := s.processes.erase pid }.ignoreProcess (freedPid pid)

/-- `none` where the list of the processes cannot be read. -/
def updateProcesses : Option ProcessList → SigarSystemInfo
  | none => s
  | some list =>
    let s := list.pids.foldl (updateProcess list.exeName) { s with currentPids := ∅ }
    let s := s.processes.keys.foldl (purgeProcess list.freedPid) s
    { s with forceProcessNameCheck := false }

end SigarSystemInfo

/-! ## The system -/

/-- The calls from outside, and the updates with what sigar lists. -/
inductive ProcessCall
  | monitorProcesses (processName : Text)
  | ignoreProcesses (processName : Text)
  | clearMonitoredProcesses
  | updateProcesses (list : Option ProcessList)

/-- The state, with the list that the last call has read, if it was an update. -/
structure Monitor where
  info : SigarSystemInfo
  updated : Option ProcessList

/-- One call. -/
def monitorStep (s : Monitor) : ProcessCall → Option Monitor
  | .monitorProcesses processName => some ⟨s.info.monitorProcesses processName, none⟩
  | .ignoreProcesses processName => some ⟨s.info.ignoreProcesses processName, none⟩
  | .clearMonitoredProcesses => some ⟨s.info.clearMonitoredProcesses, none⟩
  | .updateProcesses list => some ⟨s.info.updateProcesses list, list⟩

/-- The runs of calls, from a new `SigarSystemInfo`. -/
def monitorSystem : Lts Monitor ProcessCall :=
  Lts.ofFun ⟨⟨∅, ∅, ∅, ∅, false⟩, none⟩ monitorStep

/-! ## The purpose -/

/-- The text contains the other one, ignoring case. -/
def ContainsName (haystack needle : Text) : Prop :=
  needle.map Char.toUpper <:+: haystack.map Char.toUpper

instance (haystack needle : Text) : Decidable (ContainsName haystack needle) :=
  inferInstanceAs (Decidable (needle.map Char.toUpper <:+: haystack.map Char.toUpper))

/-- **After an update** the monitored processes are those alive that have a tracked name in theirs. -/
def Monitor.Exact (s : Monitor) : Prop :=
  ∀ list, s.updated = some list → ∀ pid, pid ∈ s.info.trackedPids ↔
    pid ∈ list.pids ∧
      ∃ query ∈ s.info.trackedProcessNames, ContainsName (processName (list.exeName pid)) query

end Sem.Logan

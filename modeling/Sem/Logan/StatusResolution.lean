import Mathlib.Data.ZMod.Defs
import Sem.Logan.SystemInfoBroker
import Sem.AggregationServer.StatusEvents

/-!
# Which statuses can be resolved

The handler looks up each item of a status in what earlier events announced.

* `Resolved`: every item of every status of a sequence is announced, and no lookup of the handler
  fails.
* `History`: what the calls of the broker have announced so far, and `Announceable`: what each of
  them may mention.
* `resolved_iff_announceable`: for every sequence of calls these are the same.
* `not_resolved`: an interface that comes up after the information event, and a pid used again.
-/

namespace Sem.Logan

open AggregationServer SystemEventProtoHandler
open Xml (Text)
open Throwing (bind_ok bind_error forM_of_eq_nil)

variable {Time : Type} [LinearOrder Time]

namespace SystemInfoBroker

/-- A lookup fails while the handler processes the status. -/
def Misses (time : TimeUtil Time) (answers : Answers) (h : SystemEventProtoHandler Time)
    (event : StatusEvent Time) : Prop :=
  ∃ h', processStatusEvent time answers event h = some (.error .outOfRange, h')

/-- No lookup fails in any status of the sequence. -/
def NeverMisses (time : TimeUtil Time) (answers : Answers) :
    SystemEventProtoHandler Time → List (Event Time) → Prop
  | _, [] => True
  | h, .info info :: events => NeverMisses time answers (h.step time answers (.info info)) events
  | h, .status event :: events => ¬ Misses time answers h event ∧
      NeverMisses time answers (h.step time answers (.status event)) events

/-- The items of the statuses are announced, and a handler that processes the events finds them. -/
def Resolved (time : TimeUtil Time) (answers : Answers) (events : List (Event Time)) : Prop :=
  Announced time [] events ∧ ∀ lastUpdated, NeverMisses time answers (.start lastUpdated) events

/-! ## What is announced when -/

/-- What the calls of a listener have announced. -/
structure History (Time : Type) where
  systemInfo : SystemInfo Time
  /-- There was an information event. -/
  informed : Bool
  /-- The interfaces that were up at an information event. -/
  interfaceNames : List Text
  fileSystemNames : List Text
  /-- The state of the host at the last status. -/
  sent : Option (SystemInfo Time)
  /-- The processes that were announced, with their start times. -/
  processes : List (Int32 × Time)
  /-- Those announced by statuses without an interface or a file system. -/
  storedProcesses : List (Int32 × Time)

namespace History

/-- Before the first call. -/
def start (systemInfo : SystemInfo Time) : History Time :=
  ⟨systemInfo, false, [], [], none, [], []⟩

variable [Zero Time] (history : History Time)

/-- The names of the interfaces that are up. -/
def interfacesUp (info : SystemInfo Time) : List Text :=
  (info.interfaces.filter (·.up)).map (·.name)

/-- The time of the last status. -/
def lastSent : Time := (history.sent.map (·.updateTimestamp)).getD 0

/-- The monitored processes that were refreshed since the last status. -/
def refreshed : List Int32 :=
  history.systemInfo.monitoredPids.filter fun pid =>
    history.lastSent < (history.systemInfo.process pid).updateTime

/-- The pid is monitored since the last status. -/
def New (pid : Int32) : Prop := ∀ info, history.sent = some info → pid ∉ info.monitoredPids

instance (pid : Int32) : Decidable (history.New pid) :=
  decidable_of_iff (history.sent.all fun info => pid ∉ info.monitoredPids) (by
    cases h : history.sent <;> simp [New, h])

/-- A pid with the start time that it has now. -/
def process (pid : Int32) : Int32 × Time := (pid, (history.systemInfo.process pid).startTime)

/-- There is no interface that is up and no file system. -/
def Quiet : Prop :=
  interfacesUp history.systemInfo = [] ∧ history.systemInfo.fileSystems = []

instance : Decidable history.Quiet := inferInstanceAs (Decidable (_ ∧ _))

/-- After an information event. -/
def inform : History Time :=
  { history with
    informed        := true
    interfaceNames  := history.interfaceNames ++ interfacesUp history.systemInfo
    fileSystemNames := history.fileSystemNames ++ history.systemInfo.fileSystems.map (·.name) }

/-- The processes that a status announces. -/
def introduced : List (Int32 × Time) :=
  (history.refreshed.filter fun pid => history.New pid).map history.process

/-- After a status. -/
def send : History Time :=
  { history with
    sent            := some history.systemInfo
    processes       := history.processes ++ history.introduced
    storedProcesses := history.storedProcesses ++
      if history.Quiet then history.introduced else [] }

/-- The first item of a status, with which the handler ends, is one that it has kept. -/
def FirstKnown : Prop :=
  match interfacesUp history.systemInfo, history.systemInfo.fileSystems, history.refreshed with
  | name :: _, _, _ => name ∈ history.interfaceNames
  | [], fs :: _, _ => fs.name ∈ history.fileSystemNames
  | [], [], pid :: _ => history.New pid ∨ history.process pid ∈ history.storedProcesses
  | [], [], [] => True

instance : Decidable history.FirstKnown := by
  unfold FirstKnown
  split <;> infer_instance

/-- What a status may have: known interfaces and file systems, and processes that are new or were
announced with the same start time. If its first item is a process, that has to be announced by a
quiet status. -/
structure Sendable : Prop where
  informed : history.informed
  interfaces : ∀ name ∈ interfacesUp history.systemInfo, name ∈ history.interfaceNames
  fileSystems : ∀ fs ∈ history.systemInfo.fileSystems, fs.name ∈ history.fileSystemNames
  processes : ∀ pid ∈ history.refreshed,
    history.New pid ∨ history.process pid ∈ history.processes
  first : history.FirstKnown

instance : Decidable history.Sendable :=
  -- along the list, not over all pids
  have : Decidable (∀ pid ∈ history.refreshed,
      history.New pid ∨ history.process pid ∈ history.processes) :=
    List.decidableBAll (fun pid => history.New pid ∨ history.process pid ∈ history.processes)
      history.refreshed
  decidable_of_iff (history.informed = true ∧
      (∀ name ∈ interfacesUp history.systemInfo, name ∈ history.interfaceNames) ∧
      (∀ fs ∈ history.systemInfo.fileSystems, fs.name ∈ history.fileSystemNames) ∧
      (∀ pid ∈ history.refreshed,
        history.New pid ∨ history.process pid ∈ history.processes) ∧ history.FirstKnown)
    ⟨fun ⟨h₁, h₂, h₃, h₄, h₅⟩ => ⟨h₁, h₂, h₃, h₄, h₅⟩,
      fun h => ⟨h.informed, h.interfaces, h.fileSystems, h.processes, h.first⟩⟩

end History

/-- Every status that is sent meets the condition. -/
def Announceable [Zero Time] (listenerId : ℕ) : History Time → List (Call Time) → Prop
  | _, [] => True
  | history, .update systemInfo :: calls =>
    Announceable listenerId { history with systemInfo := systemInfo } calls
  | history, .getSystemInfo caller :: calls =>
    Announceable listenerId (if caller = listenerId then history.inform else history) calls
  | history, .getSystemStatus caller :: calls =>
    if caller = listenerId ∧ history.lastSent ≠ history.systemInfo.updateTimestamp then
      history.Sendable ∧ Announceable listenerId history.send calls
    else Announceable listenerId history calls

instance decidableAnnounceable [Zero Time] (listenerId : ℕ) : (history : History Time) →
    (calls : List (Call Time)) → Decidable (Announceable listenerId history calls)
  | _, [] => isTrue trivial
  | history, .update systemInfo :: calls =>
    decidableAnnounceable listenerId { history with systemInfo := systemInfo } calls
  | history, .getSystemInfo caller :: calls =>
    decidableAnnounceable listenerId (if caller = listenerId then history.inform else history) calls
  | history, .getSystemStatus caller :: calls =>
    have := decidableAnnounceable listenerId history.send calls
    have := decidableAnnounceable listenerId history calls
    inferInstanceAs (Decidable (
      if caller = listenerId ∧ history.lastSent ≠ history.systemInfo.updateTimestamp then
        history.Sendable ∧ Announceable listenerId history.send calls
      else Announceable listenerId history calls))

/-! ## Keys -/

/-- Keys of one host differ with the names. -/
theorem getKey_inj {hostname name name' : Text} :
    getKey hostname name = getKey hostname name' ↔ name = name' := by
  simp [getKey]

theorem underscore_notMem_intText (n : Int) : '_' ∉ intText n := by
  have hdigit : ∀ k : ℕ, '_' ∉ decimal k := fun k hm =>
    absurd (toNat_of_mem_decimal hm).2 (by decide)
  match n with
  | .ofNat n => exact hdigit n
  | .negSucc n =>
    intro h
    obtain h | h := List.mem_cons.mp h
    · exact absurd h (by decide)
    · exact hdigit _ h

/-- A pid survives the two casts. -/
theorem toInt_toUInt (pid : Int32) : toInt (toUInt pid) = pid.toInt := by
  show (BitVec.ofNat 32 pid.toBitVec.toNat).toInt = pid.toBitVec.toInt
  rw [BitVec.ofNat_toNat, BitVec.setWidth_eq]

omit [LinearOrder Time] in
/-- The key of a process determines its pid and its start time. -/
theorem getProcessKey_inj {time : TimeUtil Time} (htime : ∀ t, time.parse (time.toString t) = some t)
    {hostname : Text} {pid pid' : Int32} {t t' : Time} :
    getProcessKey hostname (toInt (toUInt pid)) (time.toString t) =
        getProcessKey hostname (toInt (toUInt pid')) (time.toString t') ↔
      (pid, t) = (pid', t') := by
  constructor
  · intro h
    rw [toInt_toUInt, toInt_toUInt, getProcessKey, getProcessKey, List.append_assoc,
      List.append_assoc, List.append_cancel_left_eq] at h
    obtain ⟨hpid, hstart⟩ := append_separated_inj (underscore_notMem_intText pid.toInt)
      (underscore_notMem_intText pid'.toInt) (.inr rfl) (.inr rfl) (List.cons.inj h).2
    have ht : some t = some t' := by
      rw [← htime t, ← htime t', (List.cons.inj hstart).2]
    rw [Int32.toInt_inj.mp (intText_injective hpid), Option.some.inj ht]
  · intro h
    rw [(Prod.mk.inj h).1, (Prod.mk.inj h).2]

/-! ## The events of a history -/

variable [Zero Time] {listenerId : ℕ} {broker : SystemInfoBroker Time} {history : History Time}

/-- The broker has kept what the history says of the last status. -/
structure Follows (listenerId : ℕ) (broker : SystemInfoBroker Time) (history : History Time) :
    Prop where
  systemInfo : broker.systemInfo = history.systemInfo
  pids : broker.pidLookups.lookup listenerId = history.sent.map (·.monitoredPids)
  times : broker.listenerUpdatedTimes.lookup listenerId = history.sent.map (·.updateTimestamp)

/-- The status is the one that is sent. -/
structure Reports (hostname : Text) (history : History Time) (event : StatusEvent Time) :
    Prop where
  hostname : event.hostname = hostname
  interfaces : event.interfaces =
    (history.systemInfo.interfaces.filter (·.up)).map interfaceStatus
  fileSystems : event.fileSystems = history.systemInfo.fileSystems.map fileSystemStatus
  processes : event.processes =
    history.refreshed.map fun pid => processStatus pid (history.systemInfo.process pid)
  processInfo : event.processInfo =
    (history.refreshed.filter fun pid => history.New pid).map fun pid =>
      processInfo pid (history.systemInfo.process pid)
  deviceSamples : event.deviceSamples = []

omit [LinearOrder Time] in
theorem Follows.lastUpdateSent (h : Follows listenerId broker history) :
    broker.lastUpdateSent listenerId = history.lastSent := by
  rw [SystemInfoBroker.lastUpdateSent, h.times, History.lastSent]
  cases history.sent <;> rfl

omit [LinearOrder Time] [Zero Time] in
/-- The broker has seen the processes that are not new. -/
theorem Follows.seen (h : Follows listenerId broker history) (pid : Int32) :
    (!broker.seen listenerId pid) = decide (history.New pid) := by
  rw [SystemInfoBroker.seen, h.pids]
  cases hsent : history.sent <;> simp [History.New, hsent]

/-- A status is sent if the time has changed, and reports what is due. -/
theorem Follows.getSystemStatus (h : Follows listenerId broker history)
    (hsent : history.lastSent ≠ history.systemInfo.updateTimestamp) :
    ∃ event, (broker.getSystemStatus listenerId).2 = some event ∧
      Reports broker.host.hostname history event ∧
      Follows listenerId (broker.getSystemStatus listenerId).1 history.send := by
  rw [← h.systemInfo, ← h.lastUpdateSent] at hsent
  rw [SystemInfoBroker.getSystemStatus, if_neg hsent]
  refine ⟨_, rfl, ⟨rfl, ?_, ?_, ?_, ?_, rfl⟩, ⟨h.systemInfo, ?_, ?_⟩⟩
  · rw [← h.systemInfo]
  · rw [← h.systemInfo]
  · unfold History.refreshed
    rw [← h.systemInfo, ← h.lastUpdateSent]
  · unfold History.refreshed
    rw [← h.systemInfo, ← h.lastUpdateSent]
    exact congrArg _ (List.filter_congr fun pid _ => h.seen pid)
  · rw [Table.lookup_insert, if_pos rfl, h.systemInfo]
    rfl
  · rw [Table.lookup_insert, if_pos rfl, h.systemInfo]
    rfl

/-- Nothing is sent if nothing was read since the last status. -/
theorem Follows.getSystemStatus_same (h : Follows listenerId broker history)
    (hsent : history.lastSent = history.systemInfo.updateTimestamp) :
    broker.getSystemStatus listenerId = (broker, none) := by
  rw [← h.systemInfo, ← h.lastUpdateSent] at hsent
  rw [SystemInfoBroker.getSystemStatus, if_pos hsent]

/-- The other listeners' statuses change nothing for this one. -/
theorem Follows.other (h : Follows listenerId broker history) {caller : ℕ}
    (hcaller : caller ≠ listenerId) :
    Follows listenerId (broker.getSystemStatus caller).1 history := by
  unfold SystemInfoBroker.getSystemStatus
  by_cases hsame : broker.lastUpdateSent caller = broker.systemInfo.updateTimestamp
  · rw [if_pos hsame]
    exact h
  · rw [if_neg hsame]
    refine ⟨h.systemInfo, ?_, ?_⟩
    · rw [Table.lookup_insert, if_neg (Ne.symm hcaller)]
      exact h.pids
    · rw [Table.lookup_insert, if_neg (Ne.symm hcaller)]
      exact h.times

theorem host_getSystemStatus (broker : SystemInfoBroker Time) (caller : ℕ) :
    (broker.getSystemStatus caller).1.host = broker.host := by
  unfold SystemInfoBroker.getSystemStatus
  by_cases hsame : broker.lastUpdateSent caller = broker.systemInfo.updateTimestamp
  · rw [if_pos hsame]
  · rw [if_neg hsame]

/-! ## What the events announce -/

/-- The key of a process. -/
def processKey (time : TimeUtil Time) (hostname : Text) (p : Int32 × Time) : Text :=
  getProcessKey hostname (toInt (toUInt p.1)) (time.toString p.2)

/-- The items are those that the history has announced. -/
structure Known (time : TimeUtil Time) (hostname : Text) (known : List (TableName × Text))
    (history : History Time) : Prop where
  interfaces : ∀ name, (.interfaceStatus, getInterfaceKey hostname name) ∈ known ↔
    name ∈ history.interfaceNames
  fileSystems : ∀ name, (.filesystemStatus, getFileSystemKey hostname name) ∈ known ↔
    name ∈ history.fileSystemNames
  processes : ∀ p, (.processStatus, processKey time hostname p) ∈ known ↔ p ∈ history.processes

variable {time : TimeUtil Time} {known : List (TableName × Text)} {hostname : Text}
  {event : StatusEvent Time}

omit [LinearOrder Time] [Zero Time] in
theorem Known.start (systemInfo : SystemInfo Time) :
    Known time hostname [] (.start systemInfo) :=
  ⟨by simp [History.start], by simp [History.start], by simp [History.start]⟩

omit [LinearOrder Time] [Zero Time] in
/-- What the system information announces is known. -/
theorem Known.inform (h : Known time broker.host.hostname known history)
    (hinfo : broker.systemInfo = history.systemInfo) :
    Known time broker.host.hostname
      (known ++ announces time (.info broker.getSystemInfo)) history.inform := by
  refine ⟨fun name => ?_, fun name => ?_, fun p => ?_⟩
  · rw [List.mem_append, h.interfaces]
    simp [announces, SystemInfoBroker.getSystemInfo, interfaceInfo, History.inform, hinfo,
      History.interfacesUp, getInterfaceKey, getKey_inj]
  · rw [List.mem_append, h.fileSystems]
    simp [announces, SystemInfoBroker.getSystemInfo, fileSystemInfo, History.inform, hinfo,
      getFileSystemKey, getKey_inj]
  · rw [List.mem_append, h.processes]
    simp [announces, SystemInfoBroker.getSystemInfo, History.inform]

theorem process_mem_introduced {pid : Int32} (hpid : pid ∈ history.refreshed) :
    history.process pid ∈ history.introduced ↔ history.New pid := by
  rw [History.introduced, List.mem_map]
  constructor
  · rintro ⟨pid', hpid', heq⟩
    obtain rfl := (Prod.mk.inj heq).1
    exact of_decide_eq_true (List.mem_filter.mp hpid').2
  · intro hnew
    exact ⟨pid, List.mem_filter.mpr ⟨hpid, decide_eq_true hnew⟩, rfl⟩

/-- A status announces the new processes that it reports. -/
theorem exists_processInfo_iff (htime : ∀ t, time.parse (time.toString t) = some t)
    (hevent : Reports hostname history event) (p : Int32 × Time) :
    (∃ pInfo ∈ event.processInfo, processKey time hostname p =
        getProcessKey hostname (toInt pInfo.pid) (time.toString pInfo.startTime)) ↔
      p ∈ history.introduced := by
  rw [hevent.processInfo, History.introduced, List.mem_map]
  constructor
  · rintro ⟨pInfo, hpInfo, hkey⟩
    obtain ⟨pid, hpid, rfl⟩ := List.mem_map.mp hpInfo
    exact ⟨pid, hpid, ((getProcessKey_inj htime).mp hkey).symm⟩
  · rintro ⟨pid, hpid, rfl⟩
    exact ⟨_, List.mem_map.mpr ⟨pid, hpid, rfl⟩, rfl⟩

/-- These are the processes that a status announces. -/
theorem mem_announces_status (htime : ∀ t, time.parse (time.toString t) = some t)
    (hevent : Reports hostname history event) (p : Int32 × Time) :
    (.processStatus, processKey time hostname p) ∈ announces time (.status event) ↔
      p ∈ history.introduced := by
  rw [← exists_processInfo_iff htime hevent, announces, hevent.hostname, List.mem_map]
  refine exists_congr fun pInfo => and_congr_right fun _ => ?_
  rw [Prod.mk.injEq, and_iff_right rfl, eq_comm]

/-- After a status its processes are known. -/
theorem Known.send (h : Known time hostname known history)
    (htime : ∀ t, time.parse (time.toString t) = some t)
    (hevent : Reports hostname history event) :
    Known time hostname (known ++ announces time (.status event)) history.send := by
  refine ⟨fun name => ?_, fun name => ?_, fun p => ?_⟩
  · rw [List.mem_append, h.interfaces]
    simp [announces, History.send]
  · rw [List.mem_append, h.fileSystems]
    simp [announces, History.send]
  · rw [List.mem_append, h.processes, mem_announces_status htime hevent, ← List.mem_append]
    rfl

/-- The items of a status are announced if the history has announced each, or the status does. -/
theorem mentions_iff (h : Known time hostname known history)
    (htime : ∀ t, time.parse (time.toString t) = some t)
    (hevent : Reports hostname history event) :
    (∀ item ∈ mentions time event, item ∈ known ++ announces time (.status event)) ↔
      (∀ name ∈ History.interfacesUp history.systemInfo, name ∈ history.interfaceNames) ∧
        (∀ fs ∈ history.systemInfo.fileSystems, fs.name ∈ history.fileSystemNames) ∧
        ∀ pid ∈ history.refreshed,
          history.New pid ∨ history.process pid ∈ history.processes := by
  have hknown := h.send htime hevent
  have hprocess : ∀ pid ∈ history.refreshed, history.process pid ∈ history.send.processes ↔
      history.New pid ∨ history.process pid ∈ history.processes := by
    intro pid hpid
    rw [History.send, List.mem_append, process_mem_introduced hpid, or_comm]
  unfold mentions
  rw [hevent.deviceSamples, hevent.interfaces, hevent.fileSystems, hevent.processes,
    hevent.hostname, List.flatMap_nil, List.append_nil, List.forall_mem_append,
    List.forall_mem_append, and_assoc]
  refine and_congr ?_ (and_congr ?_ ?_)
  · simp only [List.forall_mem_map, History.interfacesUp, interfaceStatus, hknown.interfaces]
    rfl
  · simp only [List.forall_mem_map, fileSystemStatus, hknown.fileSystems]
    rfl
  · simp only [List.forall_mem_map]
    refine forall₂_congr fun pid hpid => ?_
    exact (hknown.processes (history.process pid)).trans (hprocess pid hpid)

/-! ## What the handler keeps -/

/-- Every question is answered. -/
structure Answering (answers : Answers) : Prop where
  insertValuesUnique : ∀ n query, (answers.insertValuesUnique n query).isSome
  getNodeIDFromHostname : ∀ n hostname, (answers.getNodeIDFromHostname n hostname).isSome

/-- The caches have the items that were announced, but for the processes of statuses with an
interface or a file system, which end before. -/
structure Caches (time : TimeUtil Time) (hostname : Text) (history : History Time)
    (h : SystemEventProtoHandler Time) : Prop where
  system : hostname ∈ h.systemIdCache ↔ history.informed
  interfaces : ∀ name, getInterfaceKey hostname name ∈ h.interfaceIdCache ↔
    name ∈ history.interfaceNames
  fileSystems : ∀ name, getFileSystemKey hostname name ∈ h.filesystemIdCache ↔
    name ∈ history.fileSystemNames
  processes : ∀ p, processKey time hostname p ∈ h.processIdCache ↔ p ∈ history.storedProcesses

variable {answers : Answers} {h : SystemEventProtoHandler Time}

omit [LinearOrder Time] [Zero Time] in
/-- A question that is answered leaves its id in the cache. -/
theorem question_triple (hanswers : Answering answers) {I : SystemEventProtoHandler Time → Prop}
    {query : UniqueQuery} (hI : ∀ h n, I h → I { h with questions := n }) :
    Throwing.Triple I (insertValuesUnique answers query) (fun _ => I) fun _ => False := by
  intro h hh
  obtain ⟨id, hid⟩ := Option.isSome_iff_exists.mp (hanswers.insertValuesUnique h.questions query)
  exact ⟨.ok id, _, ask_some hid, hI h _ hh⟩

omit [LinearOrder Time] [Zero Time] in
theorem Caches.questions (hcaches : Caches time hostname history h) (n : ℕ) :
    Caches time hostname history { h with questions := n } :=
  ⟨hcaches.system, hcaches.interfaces, hcaches.fileSystems, hcaches.processes⟩

omit [LinearOrder Time] [Zero Time] in
/-- File systems are asked for one by one. -/
theorem fileSystems_triple (hanswers : Answering answers) (nodeId : Int) (l : List FileSystem) :
    Throwing.Triple (Caches time hostname history)
      ((l.map fileSystemInfo).forM fun fsInfo =>
        processFileSystemInfo answers fsInfo hostname nodeId)
      (fun _ => Caches time hostname
        { history with fileSystemNames := history.fileSystemNames ++ l.map (·.name) })
      fun _ => False := by
  induction l generalizing history with
  | nil =>
    refine .pure fun h hh => ?_
    rw [List.map_nil, List.append_nil]
    exact hh
  | cons fs l ih =>
    have hstep := @ih { history with fileSystemNames := history.fileSystemNames ++ [fs.name] }
    rw [List.append_assoc, List.singleton_append] at hstep
    refine .bind (.bind (question_triple hanswers fun h n hh => hh.questions n) fun id =>
      .update fun h hh => ?_) fun _ => hstep
    refine ⟨hh.system, hh.interfaces, fun name => ?_, hh.processes⟩
    rw [mem_emplace, hh.fileSystems, getFileSystemKey, getKey_inj, List.mem_append,
      List.mem_singleton]
    rfl

omit [LinearOrder Time] [Zero Time] in
/-- So are interfaces. -/
theorem interfaces_triple (hanswers : Answering answers) (nodeId : Int) (l : List Interface) :
    Throwing.Triple (Caches time hostname history)
      ((l.map interfaceInfo).forM fun iInfo => processInterfaceInfo answers iInfo hostname nodeId)
      (fun _ => Caches time hostname
        { history with interfaceNames := history.interfaceNames ++ l.map (·.name) })
      fun _ => False := by
  induction l generalizing history with
  | nil =>
    refine .pure fun h hh => ?_
    rw [List.map_nil, List.append_nil]
    exact hh
  | cons i l ih =>
    have hstep := @ih { history with interfaceNames := history.interfaceNames ++ [i.name] }
    rw [List.append_assoc, List.singleton_append] at hstep
    refine .bind (.bind (question_triple hanswers fun h n hh => hh.questions n) fun id =>
      .update fun h hh => ?_) fun _ => hstep
    refine ⟨hh.system, fun name => ?_, hh.fileSystems, hh.processes⟩
    rw [mem_emplace, hh.interfaces, getInterfaceKey, getKey_inj, List.mem_append,
      List.mem_singleton]
    rfl

omit [LinearOrder Time] [Zero Time] in
theorem Caches.start (hostname : Text) (systemInfo : SystemInfo Time) (lastUpdated : WithBot Time) :
    Caches time hostname (.start systemInfo) (.start lastUpdated) :=
  ⟨by simp [History.start, SystemEventProtoHandler.start],
    by simp [History.start, SystemEventProtoHandler.start],
    by simp [History.start, SystemEventProtoHandler.start],
    by simp [History.start, SystemEventProtoHandler.start]⟩

omit [Zero Time] in
/-- An information event is kept. -/
theorem Caches.inform (hcaches : Caches time broker.host.hostname history h)
    (hanswers : Answering answers) (hinfo : broker.systemInfo = history.systemInfo) :
    Caches time broker.host.hostname history.inform
      (h.step time answers (.info broker.getSystemInfo)) := by
  have htriple : Throwing.Triple (Caches time broker.host.hostname history)
      (processInfoEvent answers broker.getSystemInfo)
      (fun _ => Caches time broker.host.hostname history.inform) fun _ => False := by
    unfold processInfoEvent
    refine .bind (R := fun _ => Caches time broker.host.hostname history) ?_ fun nodeId => ?_
    · intro h hh
      obtain ⟨id, hid⟩ := Option.isSome_iff_exists.mp
        (hanswers.getNodeIDFromHostname h.questions broker.host.hostname)
      exact ⟨.ok id, _, ask_some hid, hh.questions _⟩
    · refine .bind (question_triple hanswers fun h n hh => hh.questions n) fun systemId => ?_
      refine .bind (R := fun _ => Caches time broker.host.hostname { history with informed := true })
        (.update fun h hh => ?_) fun _ => ?_
      · refine ⟨?_, hh.interfaces, hh.fileSystems, hh.processes⟩
        rw [mem_emplace]
        simp [SystemInfoBroker.getSystemInfo]
      · refine (fileSystems_triple hanswers nodeId broker.systemInfo.fileSystems).bind fun _ =>
          (interfaces_triple hanswers nodeId (broker.systemInfo.interfaces.filter (·.up))).bind
            fun _ => .pure fun h hh => ?_
        rw [hinfo] at hh
        exact hh
  obtain ⟨r, h', hrun, hpost⟩ := htriple hcaches
  cases r with
  | error e => exact hpost.elim
  | ok =>
    show Caches time _ _ (((processInfoEvent answers broker.getSystemInfo h).map (·.2)).getD h)
    rw [hrun]
    exact hpost

omit [LinearOrder Time] [Zero Time] in
/-- If all questions are answered, those of a status are. -/
theorem infosAnswered_of_answering (hanswers : Answering answers) (hostname : Text) (n : ℕ)
    (pInfos : List (ProcessInfo Time)) : InfosAnswered time answers hostname n pInfos := by
  induction pInfos generalizing n with
  | nil => trivial
  | cons pInfo pInfos ih =>
    obtain ⟨nodeId, hnodeId⟩ := Option.isSome_iff_exists.mp
      (hanswers.getNodeIDFromHostname n hostname)
    exact ⟨⟨nodeId, hnodeId, hanswers.insertValuesUnique _ _⟩, ih (n + 2)⟩

omit [LinearOrder Time] [Zero Time] in
/-- Samples leave the caches alone. -/
theorem Sampled.caches {h' : SystemEventProtoHandler Time} {sample : Sample Time}
    (hsampled : Sampled time h h' sample) (hcaches : Caches time hostname history h) :
    Caches time hostname history h' := by
  obtain ⟨-, rfl⟩ | ⟨row, -, -, rfl⟩ := hsampled
  · exact hcaches
  · exact ⟨hcaches.system, hcaches.interfaces, hcaches.fileSystems, hcaches.processes⟩

/-- A status that is not quiet announces nothing that is kept. -/
theorem Caches.send_of_not_quiet (hcaches : Caches time hostname history h)
    (hquiet : ¬ history.Quiet) : Caches time hostname history.send h := by
  refine ⟨hcaches.system, hcaches.interfaces, hcaches.fileSystems, fun p => ?_⟩
  rw [hcaches.processes, History.send, if_neg hquiet, List.append_nil]

section Status

variable (hcaches : Caches time hostname history h) (hanswers : Answering answers)
  (htime : ∀ t, time.parse (time.toString t) = some t)
  (hquote : ∀ s, time.parse ('\'' :: s) = none) (hevent : Reports hostname history event)

include hcaches hanswers htime hquote hevent

/-- How a status ends after an information event. -/
theorem processStatusEvent_known (hinformed : history.informed) :
    ∃ r h', processStatusEvent time answers event h = some (r, h') ∧
      (r = .error .outOfRange ↔ ¬ history.FirstKnown) ∧ Caches time hostname history.send h' := by
  obtain ⟨id, hid⟩ := Table.mem_iff_lookup.mp (hcaches.system.mpr hinformed)
  rw [← hevent.hostname] at hid
  have hrow : Caches time hostname history
      { h with rows := h.rows ++ [systemRow time event id] } :=
    ⟨hcaches.system, hcaches.interfaces, hcaches.fileSystems, hcaches.processes⟩
  have hinterfaces := hevent.interfaces
  have hfileSystems := hevent.fileSystems
  have hprocesses := hevent.processes
  unfold History.FirstKnown
  cases hup : history.systemInfo.interfaces.filter (·.up) with
  | cons i is =>
    have hquiet : ¬ history.Quiet := by
      intro hq
      simp [History.Quiet, History.interfacesUp, hup] at hq
    rw [hup, List.map_cons] at hinterfaces
    obtain ⟨e, h', hrun, hmissed, hsampled⟩ := @processInterfaceStatus_sampled Time time _ event _
      htime hquote (interfaceStatus i)
    refine ⟨.error e, h', processStatusEvent_interface htime hid hinterfaces hrun, ?_,
      (Sampled.caches hsampled hrow).send_of_not_quiet hquiet⟩
    rw [Except.error.injEq, hmissed, hevent.hostname, hrow.interfaces]
    simp [History.interfacesUp, hup, interfaceStatus]
  | nil =>
    rw [hup, List.map_nil] at hinterfaces
    cases hfs : history.systemInfo.fileSystems with
    | cons fs fss =>
      have hquiet : ¬ history.Quiet := by
        intro hq
        simp [History.Quiet, hfs] at hq
      rw [hfs, List.map_cons] at hfileSystems
      obtain ⟨e, h', hrun, hmissed, hsampled⟩ := @processFileSystemStatus_sampled Time time _ event
        _ htime hquote (fileSystemStatus fs)
      refine ⟨.error e, h',
        processStatusEvent_fileSystem htime hid hinterfaces hfileSystems hrun, ?_,
        (Sampled.caches hsampled hrow).send_of_not_quiet hquiet⟩
      rw [Except.error.injEq, hmissed, hevent.hostname, hrow.fileSystems]
      simp [History.interfacesUp, hup, fileSystemStatus]
    | nil =>
      have hquiet : history.Quiet := ⟨by rw [History.interfacesUp, hup]; rfl, hfs⟩
      rw [hfs, List.map_nil] at hfileSystems
      obtain ⟨cache, n, hinfos, hcache⟩ := processInfos_answered
        (h := { h with rows := h.rows ++ [systemRow time event id] })
        (infosAnswered_of_answering hanswers event.hostname h.questions event.processInfo)
      have hsend : Caches time hostname history.send { h with
          rows := h.rows ++ [systemRow time event id]
          processIdCache := cache
          questions := n } := by
        refine ⟨hcaches.system, hcaches.interfaces, hcaches.fileSystems, fun p => ?_⟩
        show processKey time hostname p ∈ cache ↔ _
        rw [hcache, hevent.hostname, exists_processInfo_iff htime hevent, History.send,
          if_pos hquiet, List.mem_append]
        exact or_congr_left (hcaches.processes p)
      cases hrefreshed : history.refreshed with
      | cons pid pids =>
        rw [hrefreshed, List.map_cons] at hprocesses
        obtain ⟨e, h', hrun, hmissed, hsampled⟩ := @processProcessStatus_sampled Time time _ event _
          htime hquote (processStatus pid (history.systemInfo.process pid))
        refine ⟨.error e, h', processStatusEvent_process htime hid hinterfaces hfileSystems hinfos
          hprocesses hrun, ?_, Sampled.caches hsampled hsend⟩
        rw [Except.error.injEq, hmissed, hevent.hostname]
        simp only [hquiet.1]
        refine not_congr ((hsend.processes (history.process pid)).trans ?_)
        rw [History.send, if_pos hquiet, List.mem_append,
          process_mem_introduced (hrefreshed ▸ List.mem_cons_self), or_comm]
      | nil =>
        rw [hrefreshed, List.map_nil] at hprocesses
        refine ⟨.ok ⟨⟩, _, processStatusEvent_devices htime hid hinterfaces hfileSystems hinfos
          hprocesses (forM_of_eq_nil hevent.deviceSamples), ?_, hsend⟩
        simp [hquiet.1]

include known in
/-- One status is resolved if it is sendable, and then it is kept as the history says. -/
theorem sendable_iff (hknown : Known time hostname known history) :
    ((∀ item ∈ mentions time event, item ∈ known ++ announces time (.status event)) ∧
        ¬ Misses time answers h event ↔ history.Sendable) ∧
      (history.Sendable →
        Caches time hostname history.send (h.step time answers (.status event))) := by
  by_cases hinformed : history.informed
  · obtain ⟨r, h', hrun, hmissed, hsend⟩ :=
      processStatusEvent_known hcaches hanswers htime hquote hevent hinformed
    have hmisses : ¬ Misses time answers h event ↔ history.FirstKnown := by
      rw [← not_not (a := history.FirstKnown), ← hmissed]
      refine not_congr ⟨?_, ?_⟩
      · rintro ⟨h'', hrun'⟩
        rw [hrun] at hrun'
        exact (Prod.mk.inj (Option.some.inj hrun')).1
      · rintro rfl
        exact ⟨h', hrun⟩
    refine ⟨?_, fun _ => by rw [step_eq_of_run hrun]; exact hsend⟩
    rw [mentions_iff hknown htime hevent, hmisses]
    constructor
    · rintro ⟨⟨hinterfaces, hfileSystems, hprocesses⟩, hfirst⟩
      exact ⟨hinformed, hinterfaces, hfileSystems, hprocesses, hfirst⟩
    · rintro ⟨-, hinterfaces, hfileSystems, hprocesses, hfirst⟩
      exact ⟨⟨hinterfaces, hfileSystems, hprocesses⟩, hfirst⟩
  · have hhost : event.hostname ∉ h.systemIdCache := by
      rw [hevent.hostname, hcaches.system]
      exact hinformed
    have hmisses : Misses time answers h event :=
      ⟨h, bind_error (cached_none (AList.lookup_eq_none.mpr hhost))⟩
    exact ⟨iff_of_false (fun hc => hc.2 hmisses) fun hc => hinformed hc.informed,
      fun hc => absurd hc.informed hinformed⟩

end Status

/-! ## Runs -/

/-- The run lemma: from any state that the history describes. -/
theorem resolved_iff_of_history (hanswers : Answering answers)
    (htime : ∀ t, time.parse (time.toString t) = some t)
    (hquote : ∀ s, time.parse ('\'' :: s) = none) (calls : List (Call Time)) (hfollows : Follows listenerId broker history)
    (hknown : Known time broker.host.hostname known history)
    (hcaches : Caches time broker.host.hostname history h) :
    Announced time known (events listenerId broker calls) ∧
        NeverMisses time answers h (events listenerId broker calls) ↔
      Announceable listenerId history calls := by
  induction calls generalizing broker history known h with
  | nil => exact ⟨fun _ => trivial, fun _ => ⟨trivial, trivial⟩⟩
  | cons call calls ih =>
    cases call with
    | update systemInfo =>
      have hfollows' : Follows listenerId (broker.update systemInfo)
          { history with systemInfo := systemInfo } := ⟨rfl, hfollows.pids, hfollows.times⟩
      exact ih hfollows' ⟨hknown.interfaces, hknown.fileSystems, hknown.processes⟩
        ⟨hcaches.system, hcaches.interfaces, hcaches.fileSystems, hcaches.processes⟩
    | getSystemInfo caller =>
      by_cases hcaller : caller = listenerId
      · rw [events, if_pos hcaller, Announceable, if_pos hcaller]
        have hfollows' : Follows listenerId broker history.inform :=
          ⟨hfollows.systemInfo, hfollows.pids, hfollows.times⟩
        exact ih hfollows' (hknown.inform hfollows.systemInfo)
          (hcaches.inform hanswers hfollows.systemInfo)
      · rw [events, if_neg hcaller, Announceable, if_neg hcaller]
        exact ih hfollows hknown hcaches
    | getSystemStatus caller =>
      by_cases hcaller : caller = listenerId
      · subst hcaller
        by_cases hsame : history.lastSent = history.systemInfo.updateTimestamp
        · rw [events, if_pos rfl, hfollows.getSystemStatus_same hsame, Announceable,
            if_neg fun hc => hc.2 hsame]
          exact ih hfollows hknown hcaches
        · obtain ⟨event, hsent, hevent, hfollows'⟩ := hfollows.getSystemStatus hsame
          obtain ⟨hiff, hsend⟩ := sendable_iff hcaches hanswers htime hquote hevent hknown
          have hhost := host_getSystemStatus broker caller
          rw [events, if_pos rfl, hsent, Announceable, if_pos ⟨rfl, hsame⟩]
          show (_ ∧ Announced time _ _) ∧ ¬ _ ∧ NeverMisses time answers _ _ ↔ _
          rw [and_and_and_comm, hiff]
          refine and_congr_right fun hsendable => ?_
          have hknown' := hknown.send htime hevent
          have hcaches' := hsend hsendable
          rw [← hhost] at hknown' hcaches'
          exact ih hfollows' hknown' hcaches'
      · have hhost := host_getSystemStatus broker caller
        rw [← hhost] at hknown hcaches
        rw [events, if_neg hcaller, Announceable, if_neg fun hc => hcaller hc.1]
        exact ih (hfollows.other hcaller) hknown hcaches

/-- The statuses of a run are resolved exactly if each is sendable when it is sent. -/
theorem resolved_iff_announceable (hanswers : Answering answers)
    (htime : ∀ t, time.parse (time.toString t) = some t)
    (hquote : ∀ s, time.parse ('\'' :: s) = none) (listenerId : ℕ) (host : Host)
    (systemInfo : SystemInfo Time) (calls : List (Call Time)) :
    Resolved time answers (events listenerId (.start host systemInfo) calls) ↔
      Announceable listenerId (.start systemInfo) calls := by
  have hfollows : Follows listenerId (.start host systemInfo) (.start systemInfo) :=
    ⟨rfl, rfl, rfl⟩
  have hiff := fun lastUpdated => resolved_iff_of_history hanswers htime hquote calls hfollows
    (Known.start systemInfo) (Caches.start host.hostname systemInfo lastUpdated)
  constructor
  · rintro ⟨hannounced, hmisses⟩
    exact (hiff ⊥).mp ⟨hannounced, hmisses ⊥⟩
  · intro h
    exact ⟨((hiff ⊥).mpr h).1, fun lastUpdated => ((hiff lastUpdated).mpr h).2⟩

/-! ## Two hosts -/

/-- The seconds after the epoch. -/
def seconds : TimeUtil (Fin 10) where
  toString t := "1970-01-01T00:00:0".toList ++ decimal t ++ ['Z']
  parse s := (List.finRange 10).find? fun t =>
    s = "1970-01-01T00:00:0".toList ++ decimal t ++ ['Z']

theorem seconds_parse_toString (t : Fin 10) : seconds.parse (seconds.toString t) = some t := by
  revert t
  decide

theorem seconds_parse_quote (s : Text) : seconds.parse ('\'' :: s) = none := by
  refine List.find?_eq_none.mpr fun t _ => ?_
  simp

theorem answering_numbered : Answering numbered := ⟨fun _ _ => rfl, fun _ _ => rfl⟩

/-- A host. -/
def node : Host := ⟨['h'], [], [], [], [], [], [], [], [], 0⟩

/-- An interface. -/
def eth (up : Bool) : Interface := ⟨"eth0".toList, [], [], [], [], [], 0, up, 0, 0, 0, 0⟩

/-- A process that started and was read at these times. -/
def processAt (startTime updateTime : Fin 10) : Process (Fin 10) :=
  ⟨[], [], [], .procRunning, 0, ⟨['0']⟩, 0, ⟨['0']⟩, 1, startTime, ⟨['0']⟩, updateTime, 0, 0, 0⟩

/-- A host without processes. -/
def withInterface (time : Fin 10) (up : Bool) : SystemInfo (Fin 10) :=
  ⟨time, ⟨['0']⟩, 0, ⟨['0']⟩, [], [eth up], [], .nil, fun _ => processAt 0 0⟩

/-- A host with one monitored process. -/
def withProcess (time startTime : Fin 10) : SystemInfo (Fin 10) :=
  ⟨time, ⟨['0']⟩, 0, ⟨['0']⟩, [], [], [7], List.pairwise_singleton _ _,
    fun _ => processAt startTime time⟩

/-- A host whose interface stays up, and one with a process that the first status announces and the
second mentions. -/
theorem resolved_iff_announceable_up :
    Resolved seconds numbered (events 1 (.start node (withInterface 1 true))
      [.getSystemInfo 1, .update (withInterface 2 true), .getSystemStatus 1]) ∧
    Resolved seconds numbered (events 1 (.start node (withProcess 1 1))
      [.getSystemInfo 1, .update (withProcess 2 1), .getSystemStatus 1, .update (withProcess 4 1),
        .getSystemStatus 1]) := by
  have hiff := fun systemInfo => resolved_iff_announceable answering_numbered
    seconds_parse_toString seconds_parse_quote 1 node systemInfo
  exact ⟨(hiff (withInterface 1 true) _).mpr (by decide +kernel),
    (hiff (withProcess 1 1) _).mpr (by decide +kernel)⟩

/-- An interface that comes up after the information event is not announced, and neither is a
process that takes the pid of one that ended. -/
theorem not_resolved :
    ¬ Resolved seconds numbered (events 1 (.start node (withInterface 1 false))
        [.getSystemInfo 1, .update (withInterface 2 true), .getSystemStatus 1]) ∧
      ¬ Resolved seconds numbered (events 1 (.start node (withProcess 1 1))
        [.getSystemInfo 1, .update (withProcess 2 1), .getSystemStatus 1,
          .update (withProcess 4 3), .getSystemStatus 1]) := by
  refine ⟨fun h => absurd h.1 ?_, fun h => absurd h.1 ?_⟩
  · decide +kernel
  · decide +kernel

end SystemInfoBroker

end Sem.Logan

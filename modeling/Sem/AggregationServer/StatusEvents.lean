import Sem.AggregationServer.SystemEventProtoHandler

/-!
# What becomes of a status

Every sample of an item is followed by an update of the run with a time that is quoted twice, which
fails; so at most one item of a status is stored, and the run is never updated.

* `sampled`: what one sample does to the database; `outcome`: where a status ends.
* `complete_iff_clean`: one status, for a run that is up to date.
* `stored_iff_cleanRun`: any sequence of events.
-/

namespace Sem.AggregationServer

open Xml (Text)
open Throwing (bind_ok bind_error forM_cons_error forM_of_eq_nil)

variable {Time : Type}

/-! ## The law of the status tables -/

/-- The column with the id of the item that a row is about. -/
def TableName.idColumn : TableName → Column
  | .systemStatus => .systemID
  | .interfaceStatus => .interfaceID
  | .filesystemStatus => .filesystemID
  | .processStatus => .processID
  | .gpuStatus => .gpuID

/-- The time of a row. -/
def Row.sampleTime (time : TimeUtil Time) (row : Row) : WithBot Time :=
  (row.values.lookup .sampleTime).bind time.parse

/-- A sample: the table, the id of the item and the time. -/
abbrev Sample (Time : Type) := TableName × Option Text × WithBot Time

/-- The row as a sample: its table, the item it refers to and its time. -/
def Row.sample (time : TimeUtil Time) (row : Row) : Sample Time :=
  (row.table, row.values.lookup row.table.idColumn, row.sampleTime time)

namespace SystemEventProtoHandler

/-- The sample of an item that is known under the key. -/
def sampleOf (table : TableName) (cache : Table Text Int) (key : Text) (t : Time) : Sample Time :=
  (table, (cache.lookup key).map intText, (t : WithBot Time))

variable (time : TimeUtil Time) (answers : Answers) (h : SystemEventProtoHandler Time)
  (event : StatusEvent Time)

/-- The sample of an interface that a status reports. -/
def interfaceSample (i : InterfaceStatus) : Sample Time :=
  sampleOf .interfaceStatus h.interfaceIdCache (getInterfaceKey event.hostname i.name)
    event.timestamp

/-- The sample of a file system that a status reports. -/
def fileSystemSample (fs : FileSystemStatus) : Sample Time :=
  sampleOf .filesystemStatus h.filesystemIdCache (getFileSystemKey event.hostname fs.name)
    event.timestamp

/-- The sample of a process that a status reports. -/
def processSampleOf (p : ProcessStatus Time) : Sample Time :=
  sampleOf .processStatus h.processIdCache
    (getProcessKey event.hostname (toInt p.pid) (time.toString p.startTime)) event.timestamp

/-- The sample of a GPU, which has a time of its own. -/
def gpuSample (hostname : Text) (g : GPUMetricSample Time) : Sample Time :=
  sampleOf .gpuStatus h.gpuIdCache (getGPUKey hostname g.deviceName) g.timestamp

/-- The samples of the items of a status. -/
def itemSamples : List (Sample Time) :=
  event.interfaces.map (h.interfaceSample event) ++
    (event.fileSystems.map (h.fileSystemSample event) ++
      (event.processes.map (h.processSampleOf time event) ++
        event.deviceSamples.flatMap fun d => d.gpuSamples.map (h.gpuSample d.hostname)))

/-- The samples that a status has, of the host and of each item. -/
def samples : List (Sample Time) :=
  sampleOf .systemStatus h.systemIdCache event.hostname event.timestamp ::
    h.itemSamples time event

/-- The latest of the times of some rows and of a time before them. -/
def latest (lastUpdated : WithBot Time) [LinearOrder Time] (rows : List Row) : WithBot Time :=
  rows.foldl (fun latest row => max latest (row.sampleTime time)) lastUpdated

/-- A status adds one row for each of its samples, in the table of each, and the run is up to
date. -/
structure Complete [LinearOrder Time] (lastUpdated : WithBot Time) : Prop where
  rows : ∃ added, (h.step time answers (.status event)).rows = h.rows ++ added ∧
    (added.map (Row.sample time)).Perm ((h.step time answers (.status event)).samples time event)
  lastUpdated : (h.step time answers (.status event)).lastUpdated =
    latest time lastUpdated (h.step time answers (.status event)).rows

/-- Both questions about each process info are answered; the first of them is number `n`. -/
def InfosAnswered (hostname : Text) : ℕ → List (ProcessInfo Time) → Prop
  | _, [] => True
  | n, pInfo :: pInfos =>
    (∃ nodeId, answers.getNodeIDFromHostname n hostname = some nodeId ∧
      (answers.insertValuesUnique (n + 1) (processQuery time pInfo nodeId)).isSome) ∧
    InfosAnswered hostname (n + 2) pInfos

/-- There is at most one item, which is announced and is no GPU. The process infos of a status come
before its processes, and have to be answered if there is a process. -/
structure CleanItems : Prop where
  single : event.interfaces.length + event.fileSystems.length + event.processes.length ≤ 1
  noGPU : ∀ d ∈ event.deviceSamples, d.gpuSamples = []
  interfaces : ∀ i ∈ event.interfaces,
    getInterfaceKey event.hostname i.name ∈ h.interfaceIdCache
  fileSystems : ∀ fs ∈ event.fileSystems,
    getFileSystemKey event.hostname fs.name ∈ h.filesystemIdCache
  answered : event.processes ≠ [] →
    InfosAnswered time answers event.hostname h.questions event.processInfo
  processes : ∀ p ∈ event.processes,
    getProcessKey event.hostname (toInt p.pid) (time.toString p.startTime) ∈ h.processIdCache ∨
      ∃ pInfo ∈ event.processInfo,
        getProcessKey event.hostname (toInt p.pid) (time.toString p.startTime) =
          getProcessKey event.hostname (toInt pInfo.pid) (time.toString pInfo.startTime)

/-- The host is announced too, and the run has been updated at that time or later. -/
structure Clean [LinearOrder Time] : Prop extends CleanItems time answers h event where
  host : event.hostname ∈ h.systemIdCache
  inTime : (event.timestamp : WithBot Time) ≤ h.lastUpdated

/-- Every status of a sequence is stored completely. -/
def Stored [LinearOrder Time] (lastUpdated : WithBot Time) :
    SystemEventProtoHandler Time → List (Event Time) → Prop
  | _, [] => True
  | h, .info info :: events => Stored lastUpdated (h.step time answers (.info info)) events
  | h, .status event :: events => h.Complete time answers event lastUpdated ∧
      Stored lastUpdated (h.step time answers (.status event)) events

/-- Every status of a sequence meets the condition. -/
def CleanRun [LinearOrder Time] : SystemEventProtoHandler Time → List (Event Time) → Prop
  | _, [] => True
  | h, .info info :: events => CleanRun (h.step time answers (.info info)) events
  | h, .status event :: events => h.Clean time answers event ∧
      CleanRun (h.step time answers (.status event)) events

/-! ## One sample -/

/-- What a sample leaves behind: its row, if the item is known. -/
def Sampled (h h' : SystemEventProtoHandler Time) (sample : Sample Time) : Prop :=
  (sample.2.1 = none ∧ h' = h) ∨
    ∃ row, row.sample time = sample ∧ sample.2.1.isSome ∧ h' = { h with rows := h.rows ++ [row] }

variable {time answers h event}

theorem cached_none {cache : SystemEventProtoHandler Time → Table Text Int} {key : Text}
    (hnone : (cache h).lookup key = none) :
    cached cache key h = some (.error .outOfRange, h) := by
  unfold cached
  rw [bind_ok (p := Throwing.read) rfl, hnone]
  rfl

theorem cached_some {cache : SystemEventProtoHandler Time → Table Text Int} {key : Text} {id : Int}
    (hsome : (cache h).lookup key = some id) : cached cache key h = some (.ok id, h) := by
  unfold cached
  rw [bind_ok (p := Throwing.read) rfl, hsome]
  rfl

/-- A row goes in if its columns are there and its time can be read. -/
theorem insertValues_row {table : TableName} {row : List (Column × Text)}
    (hne : row ≠ []) (hcolumns : ∀ x ∈ row, x.1 ∈ table.columns)
    (htime : ∀ x ∈ row, x.1 = .sampleTime → (time.parse x.2).isSome) :
    insertValues time table (row.map (·.1)) (row.map fun x => quote x.2) h =
      some (.ok ⟨⟩, { h with rows := h.rows ++ [⟨table, row⟩] }) := by
  unfold insertValues
  rw [insert_quote hne hcolumns htime]
  rfl

/-- Whatever comes before it, the update of the run throws. -/
theorem updateLastSampleTime_quote [LinearOrder Time]
    (hquote : ∀ s, time.parse ('\'' :: s) = none) (s : Text) :
    updateLastSampleTime time (quote s) h =
      some (.error (.invalidTimestamp (quote s)), h) := by
  unfold updateLastSampleTime
  rw [bind_ok (p := Throwing.read) rfl, update_quote hquote]
  rfl

/-- The sample of an item: `row` is what is stored under the id. -/
theorem sampled [LinearOrder Time] (hquote : ∀ s, time.parse ('\'' :: s) = none)
    {cache : SystemEventProtoHandler Time → Table Text Int} {key : Text} {table : TableName}
    {columns : List Column} {values : Text → List Text} {t : Time}
    (row : Text → List (Column × Text))
    (hcolumns : ∀ id, columns = (row id).map (·.1))
    (hvalues : ∀ id, values (quote id) = (row id).map fun x => quote x.2)
    (hschema : ∀ id, ∀ x ∈ row id, x.1 ∈ table.columns)
    (htime : ∀ id, ∀ x ∈ row id, x.1 = .sampleTime → (time.parse x.2).isSome)
    (hne : ∀ id, row id ≠ [])
    (hsample : ∀ id, Row.sample time ⟨table, row id⟩ = (table, some id, (t : WithBot Time))) :
    ∃ e h', processSample time cache key table columns values (quote (time.toString t)) h =
        some (.error e, h') ∧ (e = .outOfRange ↔ key ∉ cache h) ∧
      Sampled time h h' (sampleOf table (cache h) key t) := by
  unfold processSample sampleOf
  rw [← AList.lookup_isSome]
  cases hlookup : (cache h).lookup key with
  | none => exact ⟨_, h, bind_error (cached_none hlookup), by simp, .inl ⟨rfl, rfl⟩⟩
  | some id =>
    have hinsert := @insertValues_row Time time h table (row (intText id)) (hne _) (hschema _)
      (htime _)
    rw [← hcolumns, ← hvalues] at hinsert
    refine ⟨.invalidTimestamp (quote (time.toString t)),
      { h with rows := h.rows ++ [⟨table, row (intText id)⟩] }, ?_, by simp,
      .inr ⟨⟨table, row (intText id)⟩, hsample _, rfl, rfl⟩⟩
    exact (bind_ok (cached_some hlookup)).trans
      ((bind_ok hinsert).trans (updateLastSampleTime_quote hquote _))

section Items

variable [LinearOrder Time] (htime : ∀ t, time.parse (time.toString t) = some t)
  (hquote : ∀ s, time.parse ('\'' :: s) = none)

include htime hquote

/-- A sample of an interface always ends the event: its time is quoted twice, so it is stored but
the update of the sample time throws; without an id nothing is stored. -/
theorem processInterfaceStatus_sampled (i : InterfaceStatus) :
    ∃ e h', processInterfaceStatus time i event.hostname
        (quote (time.toString event.timestamp)) h = some (.error e, h') ∧
      (e = .outOfRange ↔ getInterfaceKey event.hostname i.name ∉ h.interfaceIdCache) ∧
      Sampled time h h' (h.interfaceSample event i) := by
  refine sampled hquote (fun id => [(.interfaceID, id), (.packetsReceived, decimal i.rxPackets),
    (.bytesReceived, decimal i.rxBytes), (.packetsTransmitted, decimal i.txPackets),
    (.bytesTransmitted, decimal i.txBytes), (.sampleTime, time.toString event.timestamp)])
    (fun _ => rfl) (fun _ => rfl) ?_ ?_ (by simp) fun id => ?_
  · simp [TableName.columns]
  · simp [htime]
  · show (_, _, (some (time.toString event.timestamp)).bind time.parse) = _
    rw [Option.bind_some, htime]
    rfl

/-- A sample of a file system ends the event in the same way. -/
theorem processFileSystemStatus_sampled (fs : FileSystemStatus) :
    ∃ e h', processFileSystemStatus time fs event.hostname
        (quote (time.toString event.timestamp)) h = some (.error e, h') ∧
      (e = .outOfRange ↔ getFileSystemKey event.hostname fs.name ∉ h.filesystemIdCache) ∧
      Sampled time h h' (h.fileSystemSample event fs) := by
  refine sampled hquote (fun id => [(.filesystemID, id), (.utilisation, fs.utilization.text),
    (.sampleTime, time.toString event.timestamp)])
    (fun _ => rfl) (fun _ => rfl) ?_ ?_ (by simp) fun id => ?_
  · simp [TableName.columns]
  · simp [htime]
  · show (_, _, (some (time.toString event.timestamp)).bind time.parse) = _
    rw [Option.bind_some, htime]
    rfl

/-- So does a sample of a process. -/
theorem processProcessStatus_sampled (p : ProcessStatus Time) :
    ∃ e h', processProcessStatus time p event.hostname
        (quote (time.toString event.timestamp)) h = some (.error e, h') ∧
      (e = .outOfRange ↔ getProcessKey event.hostname (toInt p.pid) (time.toString p.startTime) ∉
        h.processIdCache) ∧
      Sampled time h h' (h.processSampleOf time event p) := by
  refine sampled hquote (fun id => [(.processID, id), (.coreID, decimal p.cpuCoreId),
    (.cpuUtilisation, p.cpuUtilization.text), (.physMemUtilisation, p.physMemUtilization.text),
    (.physMemUsedKB, decimal p.physMemUsedKb), (.threadCount, decimal p.threadCount),
    (.diskRead, decimal p.diskReadKilobytes), (.diskWritten, decimal p.diskWrittenKilobytes),
    (.diskTotal, decimal p.diskTotalKilobytes), (.cpuTime, p.cpuTime.text),
    (.state, p.state.name), (.sampleTime, time.toString event.timestamp)])
    (fun _ => rfl) (fun _ => rfl) ?_ ?_ (by simp) fun id => ?_
  · simp [TableName.columns]
  · simp [htime]
  · show (_, _, (some (time.toString event.timestamp)).bind time.parse) = _
    rw [Option.bind_some, htime]
    rfl

end Items

/-- The column of a file system is no column of a GPU's samples. -/
theorem processGPUMetricSample_error [LinearOrder Time] (g : GPUMetricSample Time)
    (hostname : Text) :
    ∃ e, processGPUMetricSample time g hostname h = some (.error e, h) := by
  unfold processGPUMetricSample processSample
  cases hlookup : h.gpuIdCache.lookup (getGPUKey hostname g.deviceName) with
  | none => exact ⟨_, bind_error (cached_none hlookup)⟩
  | some id =>
    refine ⟨.undefinedColumn .filesystemID, ?_⟩
    exact (bind_ok (cached_some hlookup)).trans (bind_error rfl)

/-! ## One status -/

theorem ask_none {answer : ℕ → Option Int} (hnone : answer h.questions = none) :
    ask answer h = some (.error .notAnswered, { h with questions := h.questions + 1 }) := by
  unfold ask
  rw [bind_ok (p := Throwing.read) rfl, bind_ok (p := Throwing.update _) rfl, hnone]
  rfl

theorem ask_some {answer : ℕ → Option Int} {id : Int} (hsome : answer h.questions = some id) :
    ask answer h = some (.ok id, { h with questions := h.questions + 1 }) := by
  unfold ask
  rw [bind_ok (p := Throwing.read) rfl, bind_ok (p := Throwing.update _) rfl, hsome]
  rfl

/-- A process info changes the cache of the processes only, and does not read the tables. -/
theorem processProcessInfo_frame (pInfo : ProcessInfo Time) (hostname : Text)
    (h : SystemEventProtoHandler Time) :
    ∃ r cache n, ∀ rows, processProcessInfo time answers pInfo hostname { h with rows := rows } =
      some (r, { h with rows := rows, processIdCache := cache, questions := n }) := by
  unfold processProcessInfo getNodeIDFromHostname insertValuesUnique
  cases hnode : answers.getNodeIDFromHostname h.questions hostname with
  | none => exact ⟨.error .notAnswered, h.processIdCache, h.questions + 1,
      fun rows => bind_error (ask_none hnode)⟩
  | some nodeId =>
    cases hunique :
        answers.insertValuesUnique (h.questions + 1) (processQuery time pInfo nodeId) with
    | none =>
      exact ⟨.error .notAnswered, h.processIdCache, h.questions + 2,
        fun rows => (bind_ok (ask_some hnode)).trans (bind_error (ask_none hunique))⟩
    | some processId =>
      exact ⟨.ok ⟨⟩, emplace h.processIdCache
          (getProcessKey hostname (toInt pInfo.pid) (time.toString pInfo.startTime)) processId,
        h.questions + 2, fun rows => (bind_ok (ask_some hnode)).trans
          ((bind_ok (ask_some hunique)).trans rfl)⟩

/-- The announcement of processes adds to the cache and asks questions, and never looks at the
rows. -/
theorem processInfos_frame (pInfos : List (ProcessInfo Time)) (hostname : Text)
    (h : SystemEventProtoHandler Time) :
    ∃ r cache n, ∀ rows,
      (pInfos.forM fun pInfo => processProcessInfo time answers pInfo hostname)
          { h with rows := rows } =
        some (r, { h with rows := rows, processIdCache := cache, questions := n }) := by
  induction pInfos generalizing h with
  | nil => exact ⟨.ok ⟨⟩, h.processIdCache, h.questions, fun _ => rfl⟩
  | cons pInfo pInfos ih =>
    obtain ⟨r, cache, n, hfirst⟩ := @processProcessInfo_frame Time time answers pInfo hostname h
    cases r with
    | error e => exact ⟨.error e, cache, n, fun rows => forM_cons_error (hfirst rows)⟩
    | ok =>
      obtain ⟨r, cache', n', hrest⟩ := ih { h with processIdCache := cache, questions := n }
      exact ⟨r, cache', n', fun rows => (bind_ok (hfirst rows)).trans (hrest rows)⟩

/-- `emplace` keeps the id that is there. -/
theorem mem_emplace {cache : Table Text Int} {key key' : Text} {id : Int} :
    key' ∈ emplace cache key id ↔ key' ∈ cache ∨ key' = key := by
  unfold emplace
  by_cases hkey : key ∈ cache
  · rw [if_pos hkey]
    constructor
    · exact .inl
    · rintro (h | rfl)
      · exact h
      · exact hkey
  · rw [if_neg hkey, AList.mem_insert, or_comm]

/-- Process infos that are answered are kept. -/
theorem processInfos_answered {hostname : Text} {pInfos : List (ProcessInfo Time)}
    (hanswered : InfosAnswered time answers hostname h.questions pInfos) :
    ∃ cache n, (pInfos.forM fun pInfo => processProcessInfo time answers pInfo hostname) h =
        some (.ok ⟨⟩, { h with processIdCache := cache, questions := n }) ∧
      ∀ key, key ∈ cache ↔ key ∈ h.processIdCache ∨ ∃ p ∈ pInfos,
        key = getProcessKey hostname (toInt p.pid) (time.toString p.startTime) := by
  induction pInfos generalizing h with
  | nil => exact ⟨h.processIdCache, h.questions, rfl, by simp⟩
  | cons pInfo pInfos ih =>
    obtain ⟨⟨nodeId, hnodeId, hunique⟩, hanswered⟩ := hanswered
    obtain ⟨processId, hprocessId⟩ := Option.isSome_iff_exists.mp hunique
    have hfirst : processProcessInfo time answers pInfo hostname h = some (.ok ⟨⟩, { h with
        processIdCache := emplace h.processIdCache
          (getProcessKey hostname (toInt pInfo.pid) (time.toString pInfo.startTime)) processId
        questions := h.questions + 2 }) :=
      (bind_ok (ask_some hnodeId)).trans ((bind_ok (ask_some hprocessId)).trans rfl)
    obtain ⟨cache, n, hrest, hcache⟩ := @ih { h with
      processIdCache := emplace h.processIdCache
        (getProcessKey hostname (toInt pInfo.pid) (time.toString pInfo.startTime)) processId
      questions := h.questions + 2 } hanswered
    refine ⟨cache, n, (bind_ok hfirst).trans hrest, fun key => ?_⟩
    rw [hcache, mem_emplace]
    simp [or_assoc]

/-- Process infos one of which is not answered throw. -/
theorem infosAnswered_of_ok {hostname : Text} {pInfos : List (ProcessInfo Time)}
    {h' : SystemEventProtoHandler Time}
    (hrun : (pInfos.forM fun pInfo => processProcessInfo time answers pInfo hostname) h =
      some (.ok ⟨⟩, h')) : InfosAnswered time answers hostname h.questions pInfos := by
  induction pInfos generalizing h with
  | nil => trivial
  | cons pInfo pInfos ih =>
    cases hnode : answers.getNodeIDFromHostname h.questions hostname with
    | none =>
      have hthrows : processProcessInfo time answers pInfo hostname h =
          some (.error .notAnswered, { h with questions := h.questions + 1 }) :=
        bind_error (ask_none hnode)
      cases hrun.symm.trans (forM_cons_error hthrows)
    | some nodeId =>
      cases hunique :
          answers.insertValuesUnique (h.questions + 1) (processQuery time pInfo nodeId) with
      | none =>
        have hthrows : processProcessInfo time answers pInfo hostname h =
            some (.error .notAnswered, { h with questions := h.questions + 2 }) :=
          (bind_ok (ask_some hnode)).trans (bind_error (ask_none hunique))
        cases hrun.symm.trans (forM_cons_error hthrows)
      | some processId =>
        have hfirst : processProcessInfo time answers pInfo hostname h = some (.ok ⟨⟩, { h with
            processIdCache := emplace h.processIdCache
              (getProcessKey hostname (toInt pInfo.pid) (time.toString pInfo.startTime)) processId
            questions := h.questions + 2 }) :=
          (bind_ok (ask_some hnode)).trans ((bind_ok (ask_some hunique)).trans rfl)
        have hrest := (bind_ok hfirst).symm.trans hrun
        exact ⟨⟨nodeId, hnode, by rw [hunique]; rfl⟩, ih hrest⟩

/-- The row of the host. -/
def systemRow (time : TimeUtil Time) (event : StatusEvent Time) (systemId : Int) : Row :=
  ⟨.systemStatus, [(.systemID, intText systemId), (.sampleTime, time.toString event.timestamp),
    (.cpuUtilisation, event.cpuUtilization.text),
    (.physMemUtilisation, event.physMemUtilization.text)]⟩

/-- Where a status ends: at the first sample of an item, which throws, or at a process info, or
after the row of the host. -/
inductive Outcome (time : TimeUtil Time) (answers : Answers) (h : SystemEventProtoHandler Time)
    (event : StatusEvent Time) : SystemEventProtoHandler Time → Prop
  | unknownHost (hnone : h.systemIdCache.lookup event.hostname = none) :
    Outcome time answers h event h
  | interface {id : Int} (hid : h.systemIdCache.lookup event.hostname = some id)
      {i : InterfaceStatus} {rest : List InterfaceStatus} (hinterfaces : event.interfaces = i :: rest)
      {h' : SystemEventProtoHandler Time}
      (hsampled : Sampled time { h with rows := h.rows ++ [systemRow time event id] } h'
        (h.interfaceSample event i)) :
    Outcome time answers h event h'
  | fileSystem {id : Int} (hid : h.systemIdCache.lookup event.hostname = some id)
      (hinterfaces : event.interfaces = []) {fs : FileSystemStatus} {rest : List FileSystemStatus}
      (hfileSystems : event.fileSystems = fs :: rest) {h' : SystemEventProtoHandler Time}
      (hsampled : Sampled time { h with rows := h.rows ++ [systemRow time event id] } h'
        (h.fileSystemSample event fs)) :
    Outcome time answers h event h'
  | processInfo {id : Int} (hid : h.systemIdCache.lookup event.hostname = some id)
      (hinterfaces : event.interfaces = []) (hfileSystems : event.fileSystems = [])
      {e : DatabaseError} {cache : Table Text Int} {n : ℕ}
      (hinfos : (event.processInfo.forM fun pInfo =>
          processProcessInfo time answers pInfo event.hostname) h =
        some (.error e, { h with processIdCache := cache, questions := n })) :
    Outcome time answers h event { h with
      rows := h.rows ++ [systemRow time event id], processIdCache := cache, questions := n }
  | process {id : Int} (hid : h.systemIdCache.lookup event.hostname = some id)
      (hinterfaces : event.interfaces = []) (hfileSystems : event.fileSystems = [])
      {cache : Table Text Int} {n : ℕ}
      (hinfos : (event.processInfo.forM fun pInfo =>
          processProcessInfo time answers pInfo event.hostname) h =
        some (.ok ⟨⟩, { h with processIdCache := cache, questions := n }))
      {p : ProcessStatus Time} {rest : List (ProcessStatus Time)}
      (hprocesses : event.processes = p :: rest) {h' : SystemEventProtoHandler Time}
      (hsampled : Sampled time { h with
          rows := h.rows ++ [systemRow time event id], processIdCache := cache, questions := n } h'
        ({ h with processIdCache := cache }.processSampleOf time event p)) :
    Outcome time answers h event h'
  | host {id : Int} (hid : h.systemIdCache.lookup event.hostname = some id)
      (hinterfaces : event.interfaces = []) (hfileSystems : event.fileSystems = [])
      {cache : Table Text Int} {n : ℕ}
      (hinfos : (event.processInfo.forM fun pInfo =>
          processProcessInfo time answers pInfo event.hostname) h =
        some (.ok ⟨⟩, { h with processIdCache := cache, questions := n }))
      (hprocesses : event.processes = []) :
    Outcome time answers h event { h with
      rows := h.rows ++ [systemRow time event id], processIdCache := cache, questions := n }

theorem step_eq_of_run [LinearOrder Time] {r : Except DatabaseError PUnit}
    {h' : SystemEventProtoHandler Time} (hrun : processStatusEvent time answers event h = some (r, h')) :
    h.step time answers (.status event) = h' := by
  show ((processStatusEvent time answers event h).map (·.2)).getD h = h'
  rw [hrun]
  rfl

/-- The samples of GPUs store nothing. -/
theorem processDeviceMetricSamples_run [LinearOrder Time] (d : DeviceMetricSamples Time) :
    (∃ e, processDeviceMetricSamples time d h = some (.error e, h)) ∨
      processDeviceMetricSamples time d h = some (.ok ⟨⟩, h) := by
  unfold processDeviceMetricSamples
  cases d.gpuSamples with
  | nil => exact .inr rfl
  | cons g gs =>
    obtain ⟨e, hg⟩ := @processGPUMetricSample_error Time time h _ g d.hostname
    exact .inl ⟨e, forM_cons_error hg⟩

/-- Samples of devices change nothing; the first GPU sample ends the event. -/
theorem deviceSamples_run [LinearOrder Time] (ds : List (DeviceMetricSamples Time)) :
    ∃ r, (ds.forM fun d => processDeviceMetricSamples time d) h = some (r, h) := by
  induction ds with
  | nil => exact ⟨.ok ⟨⟩, rfl⟩
  | cons d ds ih =>
    obtain ⟨e, hd⟩ | hd := @processDeviceMetricSamples_run Time time h _ d
    · exact ⟨.error e, forM_cons_error hd⟩
    · obtain ⟨r, hds⟩ := ih
      exact ⟨r, (bind_ok hd).trans hds⟩

section Run

variable [LinearOrder Time] (htime : ∀ t, time.parse (time.toString t) = some t) {id : Int}
  (hid : h.systemIdCache.lookup event.hostname = some id)

include htime hid

/-- The host is known: its row is stored, and the items follow. -/
theorem processStatusEvent_host :
    processStatusEvent time answers event h = (do
      event.interfaces.forM fun iface =>
        processInterfaceStatus time iface event.hostname (quote (time.toString event.timestamp))
      event.fileSystems.forM fun fs =>
        processFileSystemStatus time fs event.hostname (quote (time.toString event.timestamp))
      event.processInfo.forM fun pInfo => processProcessInfo time answers pInfo event.hostname
      event.processes.forM fun p =>
        processProcessStatus time p event.hostname (quote (time.toString event.timestamp))
      event.deviceSamples.forM fun d => processDeviceMetricSamples time d)
      { h with rows := h.rows ++ [systemRow time event id] } := by
  have hsystem : insertValues time .systemStatus
      [.systemID, .sampleTime, .cpuUtilisation, .physMemUtilisation]
      [quote (intText id), quote (time.toString event.timestamp),
        quote event.cpuUtilization.text, quote event.physMemUtilization.text] h =
      some (.ok ⟨⟩, { h with rows := h.rows ++ [systemRow time event id] }) := by
    refine @insertValues_row Time time h .systemStatus (systemRow time event id).values
      (by simp [systemRow]) ?_ ?_
    · simp [systemRow, TableName.columns]
    · simp [systemRow, htime]
  exact (bind_ok (cached_some hid)).trans (bind_ok hsystem)

/-- The first interface throws. -/
theorem processStatusEvent_interface {i : InterfaceStatus} {rest : List InterfaceStatus}
    (hinterfaces : event.interfaces = i :: rest) {e : DatabaseError}
    {h' : SystemEventProtoHandler Time}
    (hrun : processInterfaceStatus time i event.hostname (quote (time.toString event.timestamp))
      { h with rows := h.rows ++ [systemRow time event id] } = some (.error e, h')) :
    processStatusEvent time answers event h = some (.error e, h') := by
  rw [processStatusEvent_host htime hid]
  refine bind_error ?_
  rw [hinterfaces]
  exact forM_cons_error hrun

variable (hinterfaces : event.interfaces = [])

include hinterfaces

/-- The first file system throws. -/
theorem processStatusEvent_fileSystem {fs : FileSystemStatus} {rest : List FileSystemStatus}
    (hfileSystems : event.fileSystems = fs :: rest) {e : DatabaseError}
    {h' : SystemEventProtoHandler Time}
    (hrun : processFileSystemStatus time fs event.hostname (quote (time.toString event.timestamp))
      { h with rows := h.rows ++ [systemRow time event id] } = some (.error e, h')) :
    processStatusEvent time answers event h = some (.error e, h') := by
  rw [processStatusEvent_host htime hid]
  refine (bind_ok (forM_of_eq_nil hinterfaces)).trans (bind_error ?_)
  rw [hfileSystems]
  exact forM_cons_error hrun

variable (hfileSystems : event.fileSystems = [])

include hfileSystems

/-- An event whose processes cannot all be announced ends there, with the system row stored. -/
theorem processStatusEvent_processInfo {e : DatabaseError} {h' : SystemEventProtoHandler Time}
    (hinfos : (event.processInfo.forM fun pInfo =>
        processProcessInfo time answers pInfo event.hostname)
      { h with rows := h.rows ++ [systemRow time event id] } = some (.error e, h')) :
    processStatusEvent time answers event h = some (.error e, h') := by
  rw [processStatusEvent_host htime hid]
  exact (bind_ok (forM_of_eq_nil hinterfaces)).trans
    ((bind_ok (forM_of_eq_nil hfileSystems)).trans (bind_error hinfos))

variable {h₁ : SystemEventProtoHandler Time}
  (hinfos : (event.processInfo.forM fun pInfo =>
      processProcessInfo time answers pInfo event.hostname)
    { h with rows := h.rows ++ [systemRow time event id] } = some (.ok ⟨⟩, h₁))

include hinfos

/-- The first process throws. -/
theorem processStatusEvent_process {p : ProcessStatus Time} {rest : List (ProcessStatus Time)}
    (hprocesses : event.processes = p :: rest) {e : DatabaseError}
    {h' : SystemEventProtoHandler Time}
    (hrun : processProcessStatus time p event.hostname (quote (time.toString event.timestamp)) h₁ =
      some (.error e, h')) :
    processStatusEvent time answers event h = some (.error e, h') := by
  rw [processStatusEvent_host htime hid]
  refine (bind_ok (forM_of_eq_nil hinterfaces)).trans
    ((bind_ok (forM_of_eq_nil hfileSystems)).trans ((bind_ok hinfos).trans (bind_error ?_)))
  rw [hprocesses]
  exact forM_cons_error hrun

/-- Without samples of processes the samples of devices decide. -/
theorem processStatusEvent_devices (hprocesses : event.processes = [])
    {r : Except DatabaseError PUnit} {h' : SystemEventProtoHandler Time}
    (hdevices : (event.deviceSamples.forM fun d => processDeviceMetricSamples time d) h₁ =
      some (r, h')) :
    processStatusEvent time answers event h = some (r, h') := by
  rw [processStatusEvent_host htime hid]
  exact (bind_ok (forM_of_eq_nil hinterfaces)).trans
    ((bind_ok (forM_of_eq_nil hfileSystems)).trans ((bind_ok hinfos).trans
      ((bind_ok (forM_of_eq_nil hprocesses)).trans hdevices)))

end Run

/-- How an event ends: nothing at all without an id for the system, and otherwise the system row and
what was stored before the first error. -/
theorem outcome [LinearOrder Time] (htime : ∀ t, time.parse (time.toString t) = some t)
    (hquote : ∀ s, time.parse ('\'' :: s) = none) :
    Outcome time answers h event (h.step time answers (.status event)) := by
  cases hid : h.systemIdCache.lookup event.hostname with
  | none =>
    rw [step_eq_of_run (bind_error (cached_none hid))]
    exact .unknownHost hid
  | some id =>
    cases hinterfaces : event.interfaces with
    | cons i rest =>
      obtain ⟨e, h', hrun, -, hsampled⟩ := processInterfaceStatus_sampled htime hquote i
      rw [step_eq_of_run (processStatusEvent_interface htime hid hinterfaces hrun)]
      exact .interface hid hinterfaces hsampled
    | nil =>
      cases hfileSystems : event.fileSystems with
      | cons fs rest =>
        obtain ⟨e, h', hrun, -, hsampled⟩ := processFileSystemStatus_sampled htime hquote fs
        rw [step_eq_of_run (processStatusEvent_fileSystem htime hid hinterfaces hfileSystems hrun)]
        exact .fileSystem hid hinterfaces hfileSystems hsampled
      | nil =>
        obtain ⟨r, cache, n, hinfos⟩ :=
          @processInfos_frame Time time answers event.processInfo event.hostname h
        cases r with
        | error e =>
          rw [step_eq_of_run
            (processStatusEvent_processInfo htime hid hinterfaces hfileSystems (hinfos _))]
          exact .processInfo hid hinterfaces hfileSystems (hinfos h.rows)
        | ok =>
          cases hprocesses : event.processes with
          | cons p rest =>
            obtain ⟨e, h', hrun, -, hsampled⟩ := @processProcessStatus_sampled Time time
              { h with
                rows := h.rows ++ [systemRow time event id]
                processIdCache := cache
                questions := n } event _ htime hquote p
            rw [step_eq_of_run (processStatusEvent_process htime hid hinterfaces hfileSystems
              (hinfos _) hprocesses hrun)]
            exact .process hid hinterfaces hfileSystems (hinfos h.rows) hprocesses hsampled
          | nil =>
            obtain ⟨r, hdevices⟩ := @deviceSamples_run Time time
              { h with
                rows := h.rows ++ [systemRow time event id]
                processIdCache := cache
                questions := n } _ event.deviceSamples
            rw [step_eq_of_run (processStatusEvent_devices htime hid hinterfaces hfileSystems
              (hinfos _) hprocesses hdevices)]
            exact .host hid hinterfaces hfileSystems (hinfos h.rows) hprocesses

/-- What a status adds: the row of the host, and at most one of an item. -/
structure Added (time : TimeUtil Time) (answers : Answers) (h h' : SystemEventProtoHandler Time)
    (event : StatusEvent Time) (id : Int) (tail : List Row) : Prop where
  rows : h'.rows = h.rows ++ systemRow time event id :: tail
  times : ∀ row ∈ tail, row.sampleTime time = event.timestamp
  lastUpdated : h'.lastUpdated = h.lastUpdated
  systemIdCache : h'.systemIdCache = h.systemIdCache
  items : (tail.map (Row.sample time)).Perm (h'.itemSamples time event) ↔
    h.CleanItems time answers event

/-- An event has no samples of items exactly if all its lists are empty. -/
theorem itemSamples_eq_nil {event : StatusEvent Time} : h.itemSamples time event = [] ↔
    event.interfaces = [] ∧ event.fileSystems = [] ∧ event.processes = [] ∧
      ∀ d ∈ event.deviceSamples, d.gpuSamples = [] := by
  simp [itemSamples]

/-- A sample names an item exactly if the item has an id. -/
theorem isSome_sampleOf {table : TableName} {cache : Table Text Int} {key : Text} {t : Time} :
    (sampleOf table cache key t).2.1.isSome ↔ key ∈ cache := by
  show ((cache.lookup key).map intText).isSome ↔ _
  rw [Option.isSome_map, AList.lookup_isSome]

/-- The first item of a status ends it: the items are as they should be if it is known and there
are no others. -/
theorem Added.ofSampled {h₁ h' : SystemEventProtoHandler Time} {id : Int} {table : TableName}
    {cache : Table Text Int} {key : Text} {others : List (Sample Time)}
    (hclean : h.CleanItems time answers event ↔ key ∈ cache ∧ others = [])
    (hsampled : Sampled time h₁ h' (sampleOf table cache key event.timestamp))
    (hitems : ∀ rows, { h₁ with rows := rows }.itemSamples time event =
      sampleOf table cache key event.timestamp :: others)
    (hrows : h₁.rows = h.rows ++ [systemRow time event id])
    (hlastUpdated : h₁.lastUpdated = h.lastUpdated)
    (hsystem : h₁.systemIdCache = h.systemIdCache) :
    ∃ tail, Added time answers h h' event id tail := by
  obtain ⟨hnone, rfl⟩ | ⟨row, hrow, hsome, rfl⟩ := hsampled
  · refine ⟨[], hrows, by simp, hlastUpdated, hsystem, iff_of_false ?_ ?_⟩
    · rw [hitems h'.rows]
      intro hperm
      exact absurd hperm.length_eq (by simp)
    · intro hc
      have hsome : (sampleOf table cache key event.timestamp).2.1.isSome :=
        isSome_sampleOf.mpr (hclean.mp hc).1
      rw [hnone] at hsome
      cases hsome
  · refine ⟨[row], by simp [hrows], ?_, hlastUpdated, hsystem, ?_⟩
    · intro r hr
      obtain rfl := List.mem_singleton.mp hr
      exact congrArg (·.2.2) hrow
    · rw [hitems, hclean, List.map_singleton, hrow, List.perm_cons, List.nil_perm]
      exact ⟨fun hnil => ⟨isSome_sampleOf.mp hsome, hnil⟩, fun hc => hc.2⟩

/-- The first interface is the first of the samples that the event should leave. -/
theorem items_interface {i : InterfaceStatus} {rest : List InterfaceStatus}
    (hinterfaces : event.interfaces = i :: rest) :
    ∃ others, (∀ rows, { h with rows := rows }.itemSamples time event =
        h.interfaceSample event i :: others) ∧
      (h.CleanItems time answers event ↔
        getInterfaceKey event.hostname i.name ∈ h.interfaceIdCache ∧ others = []) := by
  refine ⟨rest.map (h.interfaceSample event) ++ (event.fileSystems.map (h.fileSystemSample event) ++
    (event.processes.map (h.processSampleOf time event) ++
      event.deviceSamples.flatMap fun d => d.gpuSamples.map (h.gpuSample d.hostname))), ?_, ?_⟩
  · intro rows
    rw [itemSamples, hinterfaces]
    rfl
  · simp only [List.append_eq_nil_iff, List.map_eq_nil_iff, List.flatMap_eq_nil_iff]
    constructor
    · rintro ⟨hsingle, hnoGPU, hi, -, -, -⟩
      rw [hinterfaces] at hsingle hi
      simp only [List.length_cons] at hsingle
      exact ⟨hi i List.mem_cons_self, List.eq_nil_of_length_eq_zero (by omega),
        List.eq_nil_of_length_eq_zero (by omega), List.eq_nil_of_length_eq_zero (by omega), hnoGPU⟩
    · rintro ⟨hkey, rfl, hfileSystems, hprocesses, hnoGPU⟩
      exact ⟨by simp [hinterfaces, hfileSystems, hprocesses], hnoGPU,
        by simpa [hinterfaces] using hkey, by simp [hfileSystems],
        fun hne => absurd hprocesses hne, by simp [hprocesses]⟩

/-- Without interfaces it is the first file system. -/
theorem items_fileSystem {fs : FileSystemStatus} {rest : List FileSystemStatus}
    (hinterfaces : event.interfaces = []) (hfileSystems : event.fileSystems = fs :: rest) :
    ∃ others, (∀ rows, { h with rows := rows }.itemSamples time event =
        h.fileSystemSample event fs :: others) ∧
      (h.CleanItems time answers event ↔
        getFileSystemKey event.hostname fs.name ∈ h.filesystemIdCache ∧ others = []) := by
  refine ⟨rest.map (h.fileSystemSample event) ++
    (event.processes.map (h.processSampleOf time event) ++
      event.deviceSamples.flatMap fun d => d.gpuSamples.map (h.gpuSample d.hostname)), ?_, ?_⟩
  · intro rows
    rw [itemSamples, hinterfaces, hfileSystems]
    rfl
  · simp only [List.append_eq_nil_iff, List.map_eq_nil_iff, List.flatMap_eq_nil_iff]
    constructor
    · rintro ⟨hsingle, hnoGPU, -, hfs, -, -⟩
      rw [hfileSystems] at hsingle hfs
      simp only [List.length_cons] at hsingle
      exact ⟨hfs fs List.mem_cons_self, List.eq_nil_of_length_eq_zero (by omega),
        List.eq_nil_of_length_eq_zero (by omega), hnoGPU⟩
    · rintro ⟨hkey, rfl, hprocesses, hnoGPU⟩
      exact ⟨by simp [hinterfaces, hfileSystems, hprocesses], hnoGPU, by simp [hinterfaces],
        by simpa [hfileSystems] using hkey, fun hne => absurd hprocesses hne,
        by simp [hprocesses]⟩

/-- Without either it is the first process, whose id may come with the same event. -/
theorem items_process {cache : Table Text Int} {n : ℕ} {p : ProcessStatus Time}
    {rest : List (ProcessStatus Time)} (hinterfaces : event.interfaces = [])
    (hfileSystems : event.fileSystems = [])
    (hinfos : (event.processInfo.forM fun pInfo =>
        processProcessInfo time answers pInfo event.hostname) h =
      some (.ok ⟨⟩, { h with processIdCache := cache, questions := n }))
    (hprocesses : event.processes = p :: rest) :
    ∃ others, (∀ rows, { h with
          rows := rows, processIdCache := cache, questions := n }.itemSamples time event =
        { h with processIdCache := cache }.processSampleOf time event p :: others) ∧
      (h.CleanItems time answers event ↔
        getProcessKey event.hostname (toInt p.pid) (time.toString p.startTime) ∈ cache ∧
          others = []) := by
  have hanswered := infosAnswered_of_ok hinfos
  obtain ⟨cache', n', hrun, hcache⟩ := processInfos_answered hanswered
  obtain rfl : cache = cache' :=
    congrArg (fun r => r.2.processIdCache) (Option.some.inj (hinfos.symm.trans hrun))
  refine ⟨rest.map ({ h with processIdCache := cache }.processSampleOf time event) ++
      event.deviceSamples.flatMap fun d => d.gpuSamples.map (h.gpuSample d.hostname), ?_, ?_⟩
  · intro rows
    rw [itemSamples, hinterfaces, hfileSystems, hprocesses]
    rfl
  · simp only [List.append_eq_nil_iff, List.map_eq_nil_iff, List.flatMap_eq_nil_iff]
    constructor
    · rintro ⟨hsingle, hnoGPU, -, -, -, hp⟩
      rw [hprocesses] at hsingle hp
      simp only [List.length_cons] at hsingle
      exact ⟨(hcache _).mpr (hp p List.mem_cons_self), List.eq_nil_of_length_eq_zero (by omega),
        hnoGPU⟩
    · rintro ⟨hkey, rfl, hnoGPU⟩
      exact ⟨by simp [hinterfaces, hfileSystems, hprocesses], hnoGPU, by simp [hinterfaces],
        by simp [hfileSystems], fun _ => hanswered,
        by simpa [hprocesses] using (hcache _).mp hkey⟩

/-- The status has no item that is stored, or is not stored for a process info. -/
theorem Added.ofHost {h' : SystemEventProtoHandler Time} {id : Int}
    (hrows : h'.rows = h.rows ++ [systemRow time event id])
    (hlastUpdated : h'.lastUpdated = h.lastUpdated) (hsystem : h'.systemIdCache = h.systemIdCache)
    (hinterfaces : event.interfaces = []) (hfileSystems : event.fileSystems = [])
    (hprocesses : event.processes = [] ∨ ¬∃ h', (event.processInfo.forM fun pInfo =>
        processProcessInfo time answers pInfo event.hostname) h = some (.ok ⟨⟩, h')) :
    Added time answers h h' event id [] := by
  refine ⟨hrows, by simp, hlastUpdated, hsystem, ?_⟩
  rw [List.map_nil, List.nil_perm, itemSamples_eq_nil]
  constructor
  · rintro ⟨-, -, hnone, hnoGPU⟩
    exact ⟨by simp [hinterfaces, hfileSystems, hnone], hnoGPU, by simp [hinterfaces],
      by simp [hfileSystems], fun hne => absurd hnone hne, by simp [hnone]⟩
  · rintro ⟨-, hnoGPU, -, -, hanswered, -⟩
    refine ⟨hinterfaces, hfileSystems, ?_, hnoGPU⟩
    rcases hprocesses with hnone | hthrows
    · exact hnone
    · by_contra hne
      obtain ⟨cache, n, hrun, -⟩ := processInfos_answered (hanswered hne)
      exact hthrows ⟨_, hrun⟩

/-- What an event adds: nothing, or the row of the system before all others. -/
theorem Outcome.added {h' : SystemEventProtoHandler Time} (ho : Outcome time answers h event h') :
    (h.systemIdCache.lookup event.hostname = none ∧ h' = h) ∨
      ∃ id tail, h.systemIdCache.lookup event.hostname = some id ∧
        Added time answers h h' event id tail := by
  cases ho with
  | unknownHost hnone => exact .inl ⟨hnone, rfl⟩
  | @interface id hid i rest hinterfaces h' hsampled =>
    obtain ⟨others, hitems, hclean⟩ := @items_interface Time time answers h event i rest hinterfaces
    obtain ⟨tail, hadded⟩ := Added.ofSampled hclean hsampled hitems rfl rfl rfl
    exact .inr ⟨id, tail, hid, hadded⟩
  | @fileSystem id hid hinterfaces fs rest hfileSystems h' hsampled =>
    obtain ⟨others, hitems, hclean⟩ :=
      @items_fileSystem Time time answers h event fs rest hinterfaces hfileSystems
    obtain ⟨tail, hadded⟩ := Added.ofSampled hclean hsampled hitems rfl rfl rfl
    exact .inr ⟨id, tail, hid, hadded⟩
  | @process id hid hinterfaces hfileSystems cache n hinfos p rest hprocesses h' hsampled =>
    obtain ⟨others, hitems, hclean⟩ := items_process hinterfaces hfileSystems hinfos hprocesses
    obtain ⟨tail, hadded⟩ := Added.ofSampled hclean hsampled hitems rfl rfl rfl
    exact .inr ⟨id, tail, hid, hadded⟩
  | @processInfo id hid hinterfaces hfileSystems e cache n hinfos =>
    refine .inr ⟨id, [], hid, .ofHost rfl rfl rfl hinterfaces hfileSystems (.inr ?_)⟩
    rintro ⟨h', hrun⟩
    rw [hinfos] at hrun
    cases hrun
  | @host id hid hinterfaces hfileSystems cache n hinfos hprocesses =>
    exact .inr ⟨id, [], hid, .ofHost rfl rfl rfl hinterfaces hfileSystems (.inl hprocesses)⟩

/-- The row of the system is the sample of the system that the event reports. -/
theorem systemRow_sample (htime : ∀ t, time.parse (time.toString t) = some t) {id : Int}
    (hid : h.systemIdCache.lookup event.hostname = some id) :
    (systemRow time event id).sample time =
      sampleOf .systemStatus h.systemIdCache event.hostname event.timestamp := by
  unfold sampleOf
  rw [hid]
  show (_, _, (some (time.toString event.timestamp)).bind time.parse) = _
  rw [Option.bind_some, htime]
  rfl

variable [LinearOrder Time] {lastUpdated : WithBot Time}

/-- Rows of one time. -/
theorem latest_of_times {t : Time} {rows added : List Row} (hne : added ≠ [])
    (htimes : ∀ row ∈ added, row.sampleTime time = t) :
    latest time lastUpdated (rows ++ added) = max (latest time lastUpdated rows) t := by
  unfold latest
  rw [List.foldl_append]
  generalize rows.foldl _ lastUpdated = l
  induction added generalizing l with
  | nil => exact absurd rfl hne
  | cons row added ih =>
    rw [List.foldl_cons, htimes row List.mem_cons_self]
    by_cases hnil : added = []
    · subst hnil
      rfl
    · rw [ih hnil fun r hr => htimes r (List.mem_cons_of_mem _ hr)]
      rw [max_assoc, max_self]

/-- One status, in a run that is up to date. -/
theorem complete_iff_clean (htime : ∀ t, time.parse (time.toString t) = some t)
    (hquote : ∀ s, time.parse ('\'' :: s) = none)
    (hlatest : h.lastUpdated = latest time lastUpdated h.rows) :
    h.Complete time answers event lastUpdated ↔ h.Clean time answers event := by
  obtain ⟨hnone, heq⟩ | ⟨id, tail, hid, hadded⟩ :=
    (@outcome Time time answers h event _ htime hquote).added
  · refine iff_of_false ?_ fun hc => ?_
    · rintro ⟨⟨added, hrows, hperm⟩, -⟩
      rw [heq] at hrows hperm
      obtain rfl := List.self_eq_append_right.mp hrows
      exact absurd hperm.length_eq (by simp [samples])
    · have := hc.host
      rw [← AList.lookup_isSome, hnone] at this
      cases this
  · obtain ⟨hrows, htimes, hupdated, hsystem, hitems⟩ := hadded
    have hhost : (systemRow time event id).sample time =
        sampleOf .systemStatus (h.step time answers (.status event)).systemIdCache event.hostname
          event.timestamp := by
      rw [hsystem]
      exact systemRow_sample htime hid
    have hlast : latest time lastUpdated (h.step time answers (.status event)).rows =
        max h.lastUpdated event.timestamp := by
      rw [hrows, hlatest]
      refine latest_of_times (by simp) fun row hrow => ?_
      rcases List.mem_cons.mp hrow with rfl | hrow
      · exact congrArg (·.2.2) (systemRow_sample htime hid)
      · exact htimes row hrow
    constructor
    · rintro ⟨⟨added, hadded, hperm⟩, hupdate⟩
      obtain rfl := List.append_cancel_left (hadded.symm.trans hrows)
      rw [List.map_cons, hhost, samples, List.perm_cons] at hperm
      refine ⟨hitems.mp hperm, Table.mem_of_lookup hid, ?_⟩
      rw [hlast, hupdated] at hupdate
      exact left_eq_sup.mp hupdate
    · rintro ⟨hclean, -, hinTime⟩
      refine ⟨⟨_, hrows, ?_⟩, ?_⟩
      · rw [List.map_cons, hhost, samples, List.perm_cons]
        exact hitems.mpr hclean
      · rw [hlast, hupdated]
        exact (left_eq_sup.mpr hinTime)

/-! ## Sequences of events -/

omit [LinearOrder Time] in
/-- Insertions of rows with a key leave the samples alone. -/
theorem insertValuesUnique_triple {I : SystemEventProtoHandler Time → Prop} {query : UniqueQuery}
    (hI : ∀ h, I h → I { h with questions := h.questions + 1 }) :
    Throwing.Triple I (insertValuesUnique answers query) (fun _ => I) I := by
  intro h hh
  unfold insertValuesUnique
  cases hanswer : answers.insertValuesUnique h.questions query with
  | none => exact ⟨_, _, ask_none hanswer, hI h hh⟩
  | some id => exact ⟨_, _, ask_some hanswer, hI h hh⟩

/-- The tables of the samples and the time of the run are left alone. -/
def SameSamples (h h' : SystemEventProtoHandler Time) : Prop :=
  h'.rows = h.rows ∧ h'.lastUpdated = h.lastUpdated

omit [LinearOrder Time] in
/-- An announcement of a system inserts keyed rows only. -/
theorem processInfoEvent_triple (info : InfoEvent) :
    Throwing.Triple (SameSamples h) (processInfoEvent answers info) (fun _ => SameSamples h)
      (SameSamples h) := by
  have hunique : ∀ query, Throwing.Triple (SameSamples h) (insertValuesUnique answers query)
      (fun _ => SameSamples h) (SameSamples h) :=
    fun _ => insertValuesUnique_triple fun _ hh => hh
  unfold processInfoEvent
  refine .bind (R := fun _ => SameSamples h) ?_ fun nodeId => (hunique _).bind fun systemId =>
    .bind (R := fun _ => SameSamples h) (.update fun _ hh => hh) fun _ => ?_
  · intro h' hh
    cases hanswer : answers.getNodeIDFromHostname h'.questions info.hostname with
    | none => exact ⟨_, _, ask_none hanswer, hh⟩
    | some id => exact ⟨_, _, ask_some hanswer, hh⟩
  refine .bind (R := fun _ => SameSamples h) (.forM_const fun fsInfo _ => ?_) fun _ =>
    .bind (R := fun _ => SameSamples h) (.forM_const fun iInfo _ => ?_) fun _ =>
      .forM_const fun dInfo _ => .forM_const fun gpuInfo _ => ?_
  · exact (hunique _).bind fun _ => .update fun _ hh => hh
  · exact (hunique _).bind fun _ => .update fun _ hh => hh
  · exact (hunique _).bind fun _ => .update fun _ hh => hh

theorem step_info (info : InfoEvent) : SameSamples h (h.step time answers (.info info)) := by
  obtain ⟨r, h', hrun, hpost⟩ :=
    @processInfoEvent_triple Time answers h info h ⟨rfl, rfl⟩
  have hstep : h.step time answers (.info info) = h' := by
    show ((processInfoEvent answers info h).map (·.2)).getD h = h'
    rw [hrun]
    rfl
  rw [hstep]
  cases r <;> exact hpost

/-- The equivalence for a state whose time of the last sample is right, by induction over the
events. -/
theorem stored_iff_of_latest (htime : ∀ t, time.parse (time.toString t) = some t)
    (hquote : ∀ s, time.parse ('\'' :: s) = none) {events : List (Event Time)}
    (hlatest : h.lastUpdated = latest time lastUpdated h.rows) :
    Stored time answers lastUpdated h events ↔ CleanRun time answers h events := by
  induction events generalizing h with
  | nil => exact Iff.rfl
  | cons event events ih =>
    cases event with
    | info info =>
      obtain ⟨hrows, hupdated⟩ := @step_info Time time answers h _ info
      exact ih (by rw [hrows, hupdated, hlatest])
    | status event =>
      refine (and_congr_right fun hcomplete => ih hcomplete.lastUpdated).trans
        (and_congr_left fun _ => complete_iff_clean htime hquote hlatest)

/-- In every sequence of events, each status is stored completely if and only if each meets the
condition. -/
theorem stored_iff_cleanRun (htime : ∀ t, time.parse (time.toString t) = some t)
    (hquote : ∀ s, time.parse ('\'' :: s) = none) (events : List (Event Time)) :
    Stored time answers lastUpdated (start lastUpdated) events ↔
      CleanRun time answers (start lastUpdated) events :=
  stored_iff_of_latest htime hquote rfl

/-- The items that an event announces, by their tables and keys. -/
def announces (time : TimeUtil Time) : Event Time → List (TableName × Text)
  | .info info =>
    info.fileSystemInfo.map (fun fs => (.filesystemStatus, getFileSystemKey info.hostname fs.name)) ++
      info.interfaceInfo.map (fun i => (.interfaceStatus, getInterfaceKey info.hostname i.name)) ++
      info.deviceInfo.flatMap fun d =>
        d.gpus.map fun g => (.gpuStatus, getGPUKey d.hostname g.name)
  | .status event => event.processInfo.map fun p =>
      (.processStatus, getProcessKey event.hostname (toInt p.pid) (time.toString p.startTime))

/-- The items that a status has samples of. -/
def mentions (time : TimeUtil Time) (event : StatusEvent Time) : List (TableName × Text) :=
  event.interfaces.map (fun i => (.interfaceStatus, getInterfaceKey event.hostname i.name)) ++
    event.fileSystems.map (fun fs =>
      (.filesystemStatus, getFileSystemKey event.hostname fs.name)) ++
    event.processes.map (fun p =>
      (.processStatus, getProcessKey event.hostname (toInt p.pid) (time.toString p.startTime))) ++
    event.deviceSamples.flatMap fun d =>
      d.gpuSamples.map fun g => (.gpuStatus, getGPUKey d.hostname g.deviceName)

/-- Every item of a status has been announced before. -/
def Announced (time : TimeUtil Time) : List (TableName × Text) → List (Event Time) → Prop
  | _, [] => True
  | known, .info info :: events => Announced time (known ++ announces time (.info info)) events
  | known, .status event :: events =>
    (∀ item ∈ mentions time event, item ∈ known ++ announces time (.status event)) ∧
      Announced time (known ++ announces time (.status event)) events

instance decidableAnnounced (time : TimeUtil Time) : (known : List (TableName × Text)) →
    (events : List (Event Time)) → Decidable (Announced time known events)
  | _, [] => .isTrue trivial
  | known, .info info :: events =>
    decidableAnnounced time (known ++ announces time (.info info)) events
  | known, .status event :: events =>
    have := decidableAnnounced time (known ++ announces time (.status event)) events
    inferInstanceAs (Decidable (_ ∧ _))

/-! ## Two hosts' events -/

local instance neZeroTwo : NeZero 2 := ⟨by decide⟩

/-- Two times. -/
def twoTimes : TimeUtil (Fin 2) where
  toString t := if t = 0 then "1970-01-01T00:00:05Z".toList else "1970-01-01T00:00:06Z".toList
  parse s :=
    if s = "1970-01-01T00:00:05Z".toList then some 0
    else if s = "1970-01-01T00:00:06Z".toList then some 1
    else none

/-- A database that gives the number of the question as id, with node 1 for every host. -/
def numbered : Answers := ⟨fun n _ => some n, fun _ _ => some 1⟩

/-- A host with two network interfaces. -/
def hostInfo : InfoEvent :=
  ⟨['h'], [], [], [], [], [], [], [], [], 0, 0, [],
    [⟨['a'], [], [], [], [], [], 0⟩, ⟨['b'], [], [], [], [], [], 0⟩], []⟩

/-- A status of the host, with samples of the interfaces. -/
def hostStatus (t : Fin 2) (interfaces : List InterfaceStatus) : StatusEvent (Fin 2) :=
  ⟨['h'], t, ⟨['0']⟩, ⟨['0']⟩, [], [], interfaces, [], []⟩

theorem twoTimes_parse_toString (t : Fin 2) : twoTimes.parse (twoTimes.toString t) = some t := by
  revert t
  decide

theorem twoTimes_parse_quote (s : Text) : twoTimes.parse ('\'' :: s) = none := by
  have hne : ∀ t : Text, t.head? ≠ some '\'' → '\'' :: s ≠ t := by
    rintro t ht rfl
    exact ht rfl
  show (if '\'' :: s = "1970-01-01T00:00:05Z".toList then some 0
    else if '\'' :: s = "1970-01-01T00:00:06Z".toList then some 1 else none) = none
  rw [if_neg (hne _ (by decide)), if_neg (hne _ (by decide))]

/-- The second interface of a status is lost: the time that the run is updated with is quoted
twice. -/
theorem not_forall_stored : ¬∀ (Time : Type) [LinearOrder Time] (time : TimeUtil Time)
    (answers : Answers) (lastUpdated : WithBot Time) (events : List (Event Time)),
    (∀ t, time.parse (time.toString t) = some t) → (∀ s, time.parse ('\'' :: s) = none) →
    Announced time [] events → Stored time answers lastUpdated (start lastUpdated) events := by
  intro h
  have hstored := h (Fin 2) twoTimes numbered ⊥
    [.info hostInfo, .status (hostStatus 0 [⟨['a'], 0, 0, 0, 0⟩, ⟨['b'], 0, 0, 0, 0⟩])]
    twoTimes_parse_toString twoTimes_parse_quote ⟨by decide, trivial⟩
  obtain ⟨⟨added, hrows, hperm⟩, -⟩ := hstored.1
  have hsamples := hperm.length_eq
  rw [List.length_map] at hsamples
  have hlength := congrArg List.length hrows
  rw [List.length_append, hsamples] at hlength
  exact absurd hlength (by decide +kernel)

/-- A status with one sample, of the time that the run was last updated. -/
theorem stored_iff_cleanRun_one :
    Stored twoTimes numbered (1 : Fin 2) (start (1 : Fin 2))
      [.info hostInfo, .status (hostStatus 0 [⟨['b'], 0, 0, 0, 0⟩])] := by
  refine (stored_iff_cleanRun twoTimes_parse_toString twoTimes_parse_quote _).mpr
    ⟨⟨⟨by decide, nofun, ?_, nofun, fun hne => absurd rfl hne, nofun⟩, ?_, ?_⟩, trivial⟩
  · intro i hi
    obtain rfl := List.mem_singleton.mp hi
    decide +kernel
  · decide +kernel
  · decide +kernel

end SystemEventProtoHandler

end Sem.AggregationServer

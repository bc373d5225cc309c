import Sem.Lib.Decimal
import Sem.Lib.SqlLexer

/-!
# Statements of the database client (`databaseclient.cpp`)

The texts that are sent to the database. Names of tables and columns are constants of the program.
The values of `InsertValues` are quoted by its callers; the other functions quote their values or
paste them between quotes.

* `faithful_iff`: a statement has the tokens that it has for other values, with one literal that
  denotes the value in each place, exactly if no value that is pasted has a quote and the time of
  `UpdateLastSampleTime` is not quoted by its caller.
* `not_clean_handlers`: the event handlers do quote it.
* `not_faithful`: an experiment with a quote in its name, and an event.
-/

namespace Sem.AggregationServer.Statements

open Sql (Piece Place Token)

/-- The name of a table or a column. -/
structure SqlName where
  text : Sql.Text
  calm : ∀ c ∈ text, Sql.calm c = true
  ne_nil : text ≠ []
  deriving DecidableEq

/-- No character of the text begins or ends a literal, an identifier or a comment. -/
def Calm (s : String) : Prop := ∀ c ∈ s.toList, Sql.calm c = true

theorem calm_ofList {l : List Char} (h : l.all Sql.calm) : Calm (String.ofList l) := by
  rw [Calm, String.toList_ofList]
  exact List.all_eq_true.mp h

/-- A name that is a literal of the source. -/
def SqlName.of (s : String) (calm : Calm s) (ne_nil : s.toList ≠ []) : SqlName :=
  ⟨s.toList, calm, ne_nil⟩

/-- A name stands in the statement as it is. -/
def SqlName.piece (name : SqlName) : Piece := .sql name.text

/-- A literal of the source, pasted as it is. -/
def sql (s : String) : Piece := .sql s.toList

/-- A number in a stream. -/
def number (n : ℤ) : Piece := .sql (intText n)

/-- What a loop writes that puts a separator between the parts. -/
def separated (separator : String) (parts : List (List Piece)) : List Piece :=
  [sql separator].intercalate parts

/-- `strip_schema` -/
def stripSchema (name : Sql.Text) : Sql.Text :=
  if '.' ∈ name then (name.dropWhile (· ≠ '.')).tail else name

/-- `StringToPSQLTimestamp` -/
def stringToPSQLTimestamp (str : String) : Piece :=
  .sql ("to_char((".toList ++ str.toList ++
    "::timestamp), 'YYYY-MM-DD\"T\"HH24:MI:SS.US\"Z\"')".toList)

/-! ## Clauses -/

/-- A column with the value that is asked for. -/
abbrev Condition := SqlName × Sql.Text

/-- `BuildWhereAllEqualClause` -/
def buildWhereAllEqualClause (conditions : List Condition) : List Piece :=
  sql "WHERE (" :: separated " AND " (conditions.map fun condition =>
    [condition.1.piece, sql " = ", .place (.pasted condition.2)]) ++ [sql ")"]

/-- `BuildWhereLikeClause` -/
def buildWhereLikeClause (conditions : List Condition) : List Piece :=
  sql "WHERE (" :: separated " OR " (conditions.map fun condition =>
    [condition.1.piece, sql " LIKE ", .place (.pasted condition.2)]) ++ [sql ")"]

/-- `BuildColTuple` -/
def buildColTuple (columns : List SqlName) : List Piece :=
  sql "(" :: separated ", " (columns.map fun column => [column.piece]) ++ [sql ")"]

/-! ## Insertions -/

/-- `InsertValues`; its callers have quoted the values. It throws if there are no columns or no
values. -/
def insertValues (table : SqlName) (columns : List SqlName) (values : List Sql.Text) :
    Option (List Piece) :=
  if columns = [] ∨ values = [] then none
  else some <| [sql "INSERT INTO ", table.piece, sql " ("] ++
    separated "," (columns.map fun column => [column.piece]) ++ [sql ")\n"] ++
    (sql " VALUES (" :: separated "," (values.map fun value => [.place (.quoted value)])) ++
    [sql ")\n", sql "RETURNING ", .sql (stripSchema table.text), sql ".",
      .sql (stripSchema table.text), sql "ID", sql ";\n"]

/-- The values of the unique columns, after a column was read. There may be no value for it. -/
def readColumn (uniqueColumns : List SqlName) (uniqueValues : List Sql.Text)
    (entry : SqlName × Option Sql.Text) : Option (List Sql.Text) :=
  (uniqueColumns.zip uniqueValues).mapM fun unique =>
    if unique.1 = entry.1 then entry.2 else some unique.2

/-- The columns with their values. -/
def columnValues (columns : List SqlName) (values : List Sql.Text) :
    List (SqlName × Option Sql.Text) :=
  columns.zipIdx.map fun column => (column.1, values[column.2]?)

/-- `unique_vals` -/
def uniqueValues (columns : List SqlName) (values : List Sql.Text) (uniqueColumns : List SqlName) :
    Option (List Sql.Text) :=
  (columnValues columns values).foldlM (readColumn uniqueColumns) (uniqueColumns.map fun _ => [])

/-- `InsertValuesUnique`; `esc` writes each quote twice. -/
def insertValuesUnique (table : SqlName) (columns : List SqlName) (values : List Sql.Text)
    (uniqueColumns : List SqlName) : Option (List Piece) :=
  if columns = [] ∨ values = [] then none
  else (uniqueValues columns values uniqueColumns).map fun uniqueValues =>
    [sql "WITH i AS (\n", sql "INSERT INTO ", .sql (Sql.double table.text), sql " ("] ++
    columns.dropLast.flatMap (fun column => [.sql (Sql.double column.text), sql ","]) ++
    (columns.getLast?.toList.map fun column => column.piece) ++ [sql ")\n"] ++
    (sql " VALUES (" :: separated "," (values.map fun value => [.place (.quoted value)])) ++
    [sql ")\n", sql "ON CONFLICT "] ++ buildColTuple uniqueColumns ++
    [sql " DO UPDATE\n", sql "SET ", .sql (stripSchema table.text), sql "ID", sql " = ",
      number (-1), sql " WHERE FALSE\n", sql "RETURNING ", .sql (stripSchema table.text), sql "ID",
      sql ")\n", sql "SELECT ", .sql (stripSchema table.text), sql "ID", sql " FROM i\n",
      sql "UNION ALL\n", sql "SELECT ", .sql (stripSchema table.text), sql "ID", sql " FROM ",
      table.piece, sql " "] ++
    buildWhereAllEqualClause (uniqueColumns.zip uniqueValues) ++ [sql "\n", sql "LIMIT 1\n"]

/-! ## Queries -/

/-- `FormatTimestamp(0.0)` -/
def formatTimestampZero : Sql.Text := "1970-01-01T00:00:00Z".toList

/-- The columns of a port that the queries of its events ask for. -/
def portColumns : List Piece :=
  [sql "   Port.Name AS PortName, Port.Type AS PortType, Port.Kind AS PortKind, ",
    sql "Port.Path AS PortPath, Port.Middleware, Port.GraphmlID AS PortGraphmlID, \n"]

/-- The columns of a worker and its instance. -/
def workerColumns : List Piece :=
  [sql "   WorkerInstance.Name AS WorkerInstanceName, WorkerInstance.Path AS ",
    sql "WorkerInstancePath, WorkerInstance.GraphmlID AS WorkerInstanceGraphmlID, \n",
    sql "   Worker.Name AS WorkerName, Worker.GraphmlID AS WorkerGraphmlID, \n"]

/-- The columns of an instance and of all that it is in. -/
def instanceColumns : List Piece :=
  [sql "   ComponentInstance.Name AS ComponentInstanceName, ComponentInstance.Path AS ",
    sql "ComponentInstancePath, ComponentInstance.GraphmlID AS ComponentInstanceGraphmlID,\n",
    sql "   Component.Name AS ComponentName, Component.GraphmlID AS ",
    sql "ComponentGraphmlID, Component.ExperimentRunID AS RunID,\n",
    sql "   Container.Name AS ContainerName, Container.Type as ContainerType, ",
    sql "Container.GraphmlID AS ContainerGraphmlID,\n",
    sql "   Node.Hostname AS NodeHostname, Node.IP AS NodeIP, Node.GraphmlID AS NodeGraphmlID\n"]

/-- From the port of an event to its component instance. -/
def portJoins : List Piece :=
  [sql "   INNER JOIN ComponentInstance ON Port.ComponentInstanceID = ",
    sql "ComponentInstance.ComponentInstanceID\n"]

/-- From a workload event to its worker and its component instance. -/
def workerJoins : List Piece :=
  [sql "FROM WorkloadEvent INNER JOIN WorkerInstance ON ",
    sql "WorkloadEvent.WorkerInstanceID = WorkerInstance.WorkerInstanceID\n",
    sql "   INNER JOIN Worker ON WorkerInstance.WorkerID = Worker.WorkerID\n",
    sql "   INNER JOIN ComponentInstance ON WorkerInstance.ComponentInstanceID = ",
    sql "ComponentInstance.ComponentInstanceID\n"]

/-- From an instance to its node. -/
def instanceJoins : List Piece :=
  [sql "   INNER JOIN Component ON ComponentInstance.ComponentID = Component.ComponentID\n",
    sql "   INNER JOIN Container ON ComponentInstance.ContainerID = Container.ContainerID\n",
    sql "   INNER JOIN Node ON Container.NodeID = Node.NodeID\n"]

/-- The columns of a node that the hardware queries ask for. -/
def nodeColumns : List Piece :=
  [sql "   Node.Hostname AS NodeHostname, Node.IP AS NodeIP, Node.GraphmlID AS ",
    sql "NodeGraphmlID, Node.ExperimentRunID AS RunID\n"]

/-- From a system status to its node. -/
def systemJoins : List Piece :=
  [sql "FROM Hardware.SystemStatus INNER JOIN Hardware.System ON ",
    sql "Hardware.SystemStatus.SystemID = Hardware.System.SystemID\n",
    sql "   INNER JOIN Node ON Hardware.System.NodeID = Node.NodeID\n"]

/-- A clause for the conditions, if there are any. -/
def conditionClause (noConditions : List Piece) (conditions : List Condition) : List Piece :=
  if conditions = [] then noConditions else buildWhereLikeClause conditions ++ [sql " AND "]

/-- A query of the samples from a time on; there is no last time if it is that of zero. -/
def sampleQuery (select : List Piece) (table and order : String) (run : ℤ)
    (startTime endTime : Sql.Text) (conditions : List Condition) : List Piece :=
  select ++ conditionClause [sql "WHERE "] conditions ++
    [sql "Node.ExperimentRunID = ", number run, sql and] ++
    [sql (table ++ ".SampleTime >= "), .place (.pasted startTime)] ++
    (if endTime ≠ formatTimestampZero then
      [sql ("AND " ++ table ++ ".SampleTime <= "), .place (.pasted endTime)] else []) ++
    [sql order]

/-- A query of the samples between two times, each of which may be missing. -/
def rangeQuery (select noConditions : List Piece) (table order : String) (run : ℤ)
    (startTime endTime : Option Sql.Text) (conditions : List Condition) : List Piece :=
  select ++ conditionClause noConditions conditions ++
    [sql "Node.ExperimentRunID = ", number run] ++
    startTime.toList.flatMap (fun time =>
      [sql (" AND " ++ table ++ ".SampleTime >= "), .place (.pasted time)]) ++
    endTime.toList.flatMap (fun time =>
      [sql (" AND " ++ table ++ ".SampleTime <= "), .place (.pasted time)]) ++
    [sql order]

/-- `DatabaseClient::GetPortLifecycleEventInfo`. -/
def getPortLifecycleEventInfo : ℤ → Sql.Text → Sql.Text → List Condition → List Piece :=
  sampleQuery
    ([sql "SELECT PortLifecycleEvent.Type, ", stringToPSQLTimestamp "SampleTime",
      sql " AS SampleTime,\n"] ++ portColumns ++ instanceColumns ++
      [sql "FROM PortLifecycleEvent INNER JOIN Port ON PortLifecycleEvent.PortID = ",
        sql "Port.PortID\n"] ++ portJoins ++ instanceJoins)
    "PortLifecycleEvent" " AND " " ORDER BY PortLifecycleEvent.SampleTime\n"

/-- `DatabaseClient::GetPortEventInfo`. -/
def getPortEventInfo : ℤ → Sql.Text → Sql.Text → List Condition → List Piece :=
  sampleQuery
    ([sql "SELECT PortEvent.Type, ", stringToPSQLTimestamp "SampleTime",
      sql " AS SampleTime, porteventsequencenum AS SequenceNum, PortEvent.Message AS ",
      sql "Message, \n"] ++ portColumns ++ instanceColumns ++
      [sql "FROM PortEvent INNER JOIN Port ON PortEvent.PortID = Port.PortID\n"] ++ portJoins ++
      instanceJoins)
    "PortEvent" " AND " " ORDER BY PortEvent.SampleTime\n"

/-- `DatabaseClient::GetWorkloadEventInfo`. -/
def getWorkloadEventInfo : ℤ → Sql.Text → Sql.Text → List Condition → List Piece :=
  sampleQuery
    ([sql "SELECT WorkloadEvent.Type, ", stringToPSQLTimestamp "SampleTime",
      sql " AS SampleTime, WorkloadEvent.Function AS FunctionName, ",
      sql "WorkloadEvent.Arguments AS Arguments,\n"] ++ workerColumns ++ instanceColumns ++
      workerJoins ++ instanceJoins)
    "WorkloadEvent" " AND " " ORDER BY WorkloadEvent.SampleTime\n"

/-- `DatabaseClient::GetCPUUtilInfo`. -/
def getCPUUtilInfo : ℤ → Sql.Text → Sql.Text → List Condition → List Piece :=
  sampleQuery
    ([sql "SELECT Hardware.SystemStatus.CPUUtilisation AS CPUUtilisation, ",
      stringToPSQLTimestamp "SampleTime", sql " AS SampleTime,\n"] ++ nodeColumns ++ systemJoins)
    "Hardware.SystemStatus" " AND "
    " ORDER BY Node.HostName, Hardware.SystemStatus.SampleTime ASC\n"

/-- `DatabaseClient::GetMemUtilInfo`. -/
def getMemUtilInfo : ℤ → Sql.Text → Sql.Text → List Condition → List Piece :=
  sampleQuery
    ([sql "SELECT Hardware.SystemStatus.PhysMemUtilisation AS PhysMemUtilisation, ",
      stringToPSQLTimestamp "SampleTime", sql " AS SampleTime,\n"] ++ nodeColumns ++ systemJoins)
    "Hardware.SystemStatus" "   AND "
    " ORDER BY Node.HostName, Hardware.SystemStatus.SampleTime ASC\n"

/-- A time that is empty is missing. -/
def getMarkerInfo (run : ℤ) (startTime endTime : Sql.Text) : List Condition → List Piece :=
  rangeQuery
    ([sql "SELECT WorkloadEvent.Type, ", stringToPSQLTimestamp "SampleTime",
      sql " AS SampleTime, WorkloadEvent.Function AS FunctionName, ",
      sql "WorkloadEvent.Arguments AS Label, WorkloadEvent.WorkloadID AS WorkloadID,\n"] ++
      workerColumns ++ instanceColumns ++ workerJoins ++ instanceJoins ++
      [sql "WHERE WorkloadEvent.Type = 'MARKER' AND "])
    [] "WorkloadEvent"
    " ORDER BY Label, WorkloadEvent.WorkloadID, WorkloadEvent.SampleTime\n" run
    (if startTime = [] then none else some startTime) (if endTime = [] then none else some endTime)

/-- `DatabaseClient::GetNetworkUtilInfo`. -/
def getNetworkUtilInfo : ℤ → Option Sql.Text → Option Sql.Text → List Condition → List Piece :=
  rangeQuery
    ([sql "SELECT Hardware.InterfaceStatus.BytesReceived AS BytesReceived, ",
      sql "Hardware.InterfaceStatus.BytesTransmitted AS BytesSent, ",
      sql "Hardware.InterfaceStatus.PacketsReceived AS BytesReceived, ",
      sql "Hardware.InterfaceStatus.PacketsTransmitted AS PacketsSent, ",
      stringToPSQLTimestamp "SampleTime", sql " AS SampleTime,\n",
      sql "   Interface.Name AS InterfaceName, Interface.MAC AS MAC, ",
      sql "Interface.ipv4 AS IPv4,\n"] ++ nodeColumns ++
      [sql "FROM Hardware.InterfaceStatus INNER JOIN Hardware.Interface ON ",
        sql "Hardware.InterfaceStatus.InterfaceID = Hardware.Interface.InterfaceID\n",
        sql "   INNER JOIN Node ON Hardware.Interface.NodeID = Node.NodeID\n"])
    [sql " WHERE "] "Hardware.InterfaceStatus"
    " ORDER BY Node.HostName, Hardware.InterfaceStatus.SampleTime ASC\n"

/-- `DatabaseClient::GetGPUMetricInfo`. -/
def getGPUMetricInfo : ℤ → Option Sql.Text → Option Sql.Text → List Condition → List Piece :=
  rangeQuery
    ([sql "SELECT Hardware.GPUStatus.GPUUtilisation AS GPUUtilisation, ",
      sql "Hardware.GPUStatus.MemoryUtilisation AS MemoryUtilisation, ",
      sql "Hardware.GPUStatus.Temperature AS Temperature, ",
      stringToPSQLTimestamp "SampleTime", sql " AS SampleTime,\n",
      sql "   GPU.Name AS GPUName,\n"] ++
      nodeColumns ++
      [sql "FROM Hardware.GPUStatus INNER JOIN Hardware.GPU ON ",
        sql "Hardware.GPUStatus.GPUID = Hardware.GPU.GPUID\n",
        sql "   INNER JOIN Node ON Hardware.GPU.NodeID = Node.NodeID\n"])
    [sql " WHERE "] "Hardware.GPUStatus"
    " ORDER BY Node.HostName, Hardware.GPUStatus.SampleTime ASC\n"

/-! ## Updates -/

/-- `DatabaseClient::UpdateShutdownTime`. -/
def updateShutdownTime (run : ℤ) (endTime : Sql.Text) : List Piece :=
  [sql "UPDATE ExperimentRun SET EndTime = ", .place (.quoted endTime),
    sql "WHERE ExperimentRunID = ", number run]

/-- A time as it is, or as the literal that a caller has made of it. -/
inductive SampleTime
  | plain (time : Sql.Text)
  | quoted (time : Sql.Text)
  deriving DecidableEq, Repr

/-- `time_val` -/
def SampleTime.timeVal : SampleTime → Place
  | .plain time => .quoted time
  | .quoted time => .quotedTwice time

/-- `DatabaseClient::UpdateLastSampleTime`; the time stands in it twice. -/
def updateLastSampleTime (run : ℤ) (sampleTime : SampleTime) : List Piece :=
  [sql "UPDATE ExperimentRun SET LastUpdated = ", .place sampleTime.timeVal,
    sql " WHERE (ExperimentRunID = ", number run, sql " AND (LastUpdated < ",
    .place sampleTime.timeVal, sql "::timestamp OR LastUpdated IS NULL))"]

/-! ## Requests -/

/-- The queries for samples between two times. -/
inductive SampleInfo
  | portLifecycleEvent | portEvent | workloadEvent | cpuUtil | memUtil
  deriving DecidableEq, Repr

/-- The statement of the query. -/
def SampleInfo.get : SampleInfo → ℤ → Sql.Text → Sql.Text → List Condition → List Piece
  | .portLifecycleEvent => getPortLifecycleEventInfo
  | .portEvent => getPortEventInfo
  | .workloadEvent => getWorkloadEventInfo
  | .cpuUtil => getCPUUtilInfo
  | .memUtil => getMemUtilInfo

/-- The queries for samples in a range that may be open. -/
inductive RangeInfo
  | networkUtil | gpuMetric
  deriving DecidableEq, Repr

/-- The statement of the query. -/
def RangeInfo.get : RangeInfo → ℤ → Option Sql.Text → Option Sql.Text → List Condition → List Piece
  | .networkUtil => getNetworkUtilInfo
  | .gpuMetric => getGPUMetricInfo

/-- A call of the database client. -/
inductive SqlRequest
  | insertValues (table : SqlName) (columns : List SqlName) (values : List Sql.Text)
  | insertValuesUnique (table : SqlName) (columns : List SqlName) (values : List Sql.Text)
      (uniqueColumns : List SqlName)
  | sampleInfo (info : SampleInfo) (run : ℤ) (startTime endTime : Sql.Text)
      (conditions : List Condition)
  | markerInfo (run : ℤ) (startTime endTime : Sql.Text) (conditions : List Condition)
  | rangeInfo (info : RangeInfo) (run : ℤ) (startTime endTime : Option Sql.Text)
      (conditions : List Condition)
  | updateShutdownTime (run : ℤ) (endTime : Sql.Text)
  | updateLastSampleTime (run : ℤ) (sampleTime : SampleTime)
  deriving DecidableEq

namespace SqlRequest

/-- The statement, if it is made. -/
def build : SqlRequest → Option (List Piece)
  | .insertValues table columns values => Statements.insertValues table columns values
  | .insertValuesUnique table columns values uniqueColumns =>
    Statements.insertValuesUnique table columns values uniqueColumns
  | .sampleInfo info run startTime endTime conditions =>
    some (info.get run startTime endTime conditions)
  | .markerInfo run startTime endTime conditions =>
    some (getMarkerInfo run startTime endTime conditions)
  | .rangeInfo info run startTime endTime conditions =>
    some (info.get run startTime endTime conditions)
  | .updateShutdownTime run endTime => some (Statements.updateShutdownTime run endTime)
  | .updateLastSampleTime run sampleTime =>
    some (Statements.updateLastSampleTime run sampleTime)

/-- The requests differ in their values only. A time that stands for none is not a value. -/
def SameForm : SqlRequest → SqlRequest → Prop
  | .insertValues table columns values, .insertValues table' columns' values' =>
    table = table' ∧ columns = columns' ∧ values.length = values'.length
  | .insertValuesUnique table columns values unique,
    .insertValuesUnique table' columns' values' unique' =>
    table = table' ∧ columns = columns' ∧ values.length = values'.length ∧ unique = unique'
  | .sampleInfo info run _ endTime conditions, .sampleInfo info' run' _ endTime' conditions' =>
    info = info' ∧ run = run' ∧ (endTime = formatTimestampZero ↔ endTime' = formatTimestampZero) ∧
      conditions.map Prod.fst = conditions'.map Prod.fst
  | .markerInfo run startTime endTime conditions,
    .markerInfo run' startTime' endTime' conditions' =>
    run = run' ∧ (startTime = [] ↔ startTime' = []) ∧ (endTime = [] ↔ endTime' = []) ∧
      conditions.map Prod.fst = conditions'.map Prod.fst
  | .rangeInfo info run startTime endTime conditions,
    .rangeInfo info' run' startTime' endTime' conditions' =>
    info = info' ∧ run = run' ∧ startTime.isSome = startTime'.isSome ∧
      endTime.isSome = endTime'.isSome ∧ conditions.map Prod.fst = conditions'.map Prod.fst
  | .updateShutdownTime run _, .updateShutdownTime run' _ => run = run'
  | .updateLastSampleTime run _, .updateLastSampleTime run' _ => run = run'
  | _, _ => False

end SqlRequest

/-! ## What is promised -/

/-- The tokens of a statement, with a hole for each value. -/
def form (pieces : List Piece) : List (Option Token) :=
  Sql.templateTokens .gap (Sql.template pieces)

/-- The statement has the tokens of each one that differs in its values only; in each place there is
one literal, which denotes the value. -/
structure Faithful (request : SqlRequest) (pieces : List Piece) : Prop where
  denotes : Sql.tokens (Sql.text pieces) =
    Sql.fill (form pieces) ((Sql.places pieces).map Place.value)
  sameForm : ∀ request' pieces', request.SameForm request' → request'.build = some pieces' →
    form pieces' = form pieces

/-- No value that is pasted has a quote, and no caller quotes the time of a sample. -/
def SqlRequest.Clean : SqlRequest → Prop
  | .insertValues .. | .updateShutdownTime .. => True
  | .insertValuesUnique _ columns values uniqueColumns => ∀ column ∈ uniqueColumns, ∀ value,
      (columnValues columns values).reverse.lookup column = some (some value) → '\'' ∉ value
  | .sampleInfo _ _ startTime endTime conditions | .markerInfo _ startTime endTime conditions =>
    '\'' ∉ startTime ∧ '\'' ∉ endTime ∧ ∀ condition ∈ conditions, '\'' ∉ condition.2
  | .rangeInfo _ _ startTime endTime conditions =>
    (∀ time ∈ startTime, '\'' ∉ time) ∧ (∀ time ∈ endTime, '\'' ∉ time) ∧
      ∀ condition ∈ conditions, '\'' ∉ condition.2
  | .updateLastSampleTime _ sampleTime => ∃ time, sampleTime = .plain time

/-! ## Places that begin tokens -/

open Sql (Steady template places)

theorem calm_decimal (n : ℕ) : ∀ c ∈ decimal n, Sql.calm c = true := by
  intro c hc
  have hdigit := toNat_of_mem_decimal hc
  have hne : ∀ d : Char, (d.toNat < 48 ∨ 57 < d.toNat) → c ≠ d := by
    rintro d hd rfl
    omega
  simp [Sql.calm, hne '\'' (by decide), hne '"' (by decide), hne '-' (by decide),
    hne '/' (by decide)]

/-- A number is a token of its own, signed or not. -/
theorem steady_number (n : ℤ) : Steady (template [number n]) := by
  cases n with
  | ofNat n =>
    show Steady ((decimal n).map some ++ [])
    rw [List.append_nil]
    exact .sql (calm_decimal n)
  | negSucc n =>
    show Steady (('-' :: decimal (n + 1)).map some ++ [])
    rw [List.append_nil]
    exact .negative Nat.toDigits_ne_nil (calm_decimal (n + 1))

theorem calm_piece (name : SqlName) : name.piece.calm = true := List.all_eq_true.mpr name.calm

theorem double_calm {s : Sql.Text} (hs : ∀ c ∈ s, Sql.calm c = true) : Sql.double s = s :=
  Sql.double_of_notMem fun hmem => by cases hs _ hmem

/-- Without its schema a name is still a constant without a quote. -/
theorem calm_stripSchema (name : SqlName) : ∀ c ∈ stripSchema name.text, Sql.calm c = true := by
  intro c hc
  rw [stripSchema] at hc
  split at hc
  · exact name.calm c ((List.dropWhile_suffix _).subset (List.mem_of_mem_tail hc))
  · exact name.calm c hc

theorem Calm.append {s t : String} (hs : Calm s) (ht : Calm t) : Calm (s ++ t) := by
  rw [Calm, String.toList_append]
  exact List.forall_mem_append.mpr ⟨hs, ht⟩

theorem steady_sql {s : String} (hs : Calm s) : Steady (template [sql s]) :=
  .calm (by simpa [Sql.Piece.calm, sql, Calm] using hs)

theorem steady_nil : Steady (template []) := .nil

/-- A value that stands right after a constant text. -/
theorem steady_value {s : String} (hne : s.toList ≠ []) (hs : Calm s) (p : Place) :
    Steady (template [sql s, .place p]) := .value hne hs p

/-- The same with more pieces behind the value. -/
theorem steady_value_cons {s : String} (hne : s.toList ≠ []) (hs : Calm s) (p : Place)
    {pieces : List Piece} (h : Steady (template pieces)) :
    Steady (template (sql s :: .place p :: pieces)) :=
  (steady_value hne hs p).pieces h

/-- A literal of the program. -/
theorem steady_literal {s t : String} {v : Sql.Text} (hsne : s.toList ≠ []) (hs : Calm s)
    (hv : '\'' ∉ v) (htne : t.toList ≠ []) (ht : Calm t) :
    Steady (template [.sql (s.toList ++ '\'' :: v ++ '\'' :: t.toList)]) := by
  have h := Steady.literal hsne hs hv htne ht
  rwa [← List.append_nil (List.map some _)] at h

theorem steady_stringToPSQLTimestamp :
    Steady (template [stringToPSQLTimestamp "SampleTime"]) := by
  have hbefore : "to_char((SampleTime::timestamp), ".toList = _ := String.toList_ofList
  have hfunction : "to_char((".toList = _ := String.toList_ofList
  have hcolumn : "SampleTime".toList = _ := String.toList_ofList
  have hformat : "::timestamp), 'YYYY-MM-DD\"T\"HH24:MI:SS.US\"Z\"')".toList = _ :=
    String.toList_ofList
  have hvalue : "YYYY-MM-DD\"T\"HH24:MI:SS.US\"Z\"".toList = _ := String.toList_ofList
  have hafter : ")".toList = _ := String.toList_ofList
  have h := steady_literal (s := "to_char((SampleTime::timestamp), ") (t := ")")
    (v := "YYYY-MM-DD\"T\"HH24:MI:SS.US\"Z\"".toList) (by simp) (calm_ofList rfl)
    (by rw [hvalue]; simp) (by simp) (calm_ofList rfl)
  rw [hbefore, hvalue, hafter] at h
  rw [stringToPSQLTimestamp, hfunction, hcolumn, hformat]
  exact h

theorem steady_marker : Steady (template [sql "WHERE WorkloadEvent.Type = 'MARKER' AND "]) := by
  have hall : "WHERE WorkloadEvent.Type = 'MARKER' AND ".toList = _ := String.toList_ofList
  have hbefore : "WHERE WorkloadEvent.Type = ".toList = _ := String.toList_ofList
  have hvalue : "MARKER".toList = _ := String.toList_ofList
  have hafter : " AND ".toList = _ := String.toList_ofList
  have h := steady_literal (s := "WHERE WorkloadEvent.Type = ") (t := " AND ")
    (v := "MARKER".toList) (by simp) (calm_ofList rfl) (by rw [hvalue]; simp) (by simp)
    (calm_ofList rfl)
  rw [hbefore, hvalue, hafter] at h
  rw [sql, hall]
  exact h

/-! ### Clauses -/

/-- Conditions are steady whatever their values are: these stand only in places. -/
theorem steady_conditions {separator operator : String} (hseparator : Calm separator)
    (hne : operator.toList ≠ []) (hoperator : Calm operator) (conditions : List Condition) :
    Steady (template (separated separator (conditions.map fun condition =>
      [condition.1.piece, sql operator, .place (.pasted condition.2)]))) := by
  refine Steady.intercalate (steady_sql hseparator) fun p hp => ?_
  obtain ⟨condition, -, rfl⟩ := List.mem_map.mp hp
  exact .cons (.calm (by simpa using calm_piece condition.1)) (.value hne hoperator _)

theorem steady_buildWhereAllEqualClause (conditions : List Condition) :
    Steady (template (buildWhereAllEqualClause conditions)) :=
  .pieces (.cons (steady_sql (calm_ofList rfl))
    (steady_conditions (calm_ofList rfl) (by simp) (calm_ofList rfl) conditions))
      (steady_sql (calm_ofList rfl))

/-- Also where another clause stands for no conditions at all. -/
theorem steady_conditionClause {noConditions : List Piece} (h : Steady (template noConditions))
    (conditions : List Condition) :
    Steady (template (conditionClause noConditions conditions)) := by
  rw [conditionClause]
  split
  · exact h
  · exact .pieces (.pieces (.cons (steady_sql (calm_ofList rfl))
      (steady_conditions (calm_ofList rfl) (by simp) (calm_ofList rfl)
        conditions)) (steady_sql (calm_ofList rfl))) (steady_sql (calm_ofList rfl))

/-! ### Queries -/

/-- A time with the operator before it. -/
theorem steady_time {s : String} (hs : Calm s) (p : Place) :
    Steady (template [sql (s ++ ".SampleTime >= "), .place p]) ∧
      Steady (template [sql (s ++ ".SampleTime <= "), .place p]) := by
  refine ⟨.value ?_ (hs.append (calm_ofList rfl)) p,
    .value ?_ (hs.append (calm_ofList rfl)) p⟩ <;> simp

/-- The queries over the samples of a run keep their tokens, so do their optional bounds. -/
theorem steady_sampleQuery {select : List Piece} {table and order : String}
    (hselect : Steady (template select)) (htable : Calm table) (hand : Calm and)
    (horder : Calm order) (run : ℤ) (startTime endTime : Sql.Text) (conditions : List Condition) :
    Steady (template (sampleQuery select table and order run startTime endTime conditions)) := by
  refine .pieces (.pieces (.pieces (.pieces (.pieces hselect (steady_conditionClause
    (steady_sql (calm_ofList rfl)) conditions)) ?_) (steady_time htable _).1) ?_)
    (steady_sql horder)
  · exact .cons (steady_sql (calm_ofList rfl)) (.cons (steady_number run) (steady_sql hand))
  · split
    · exact (steady_time (.append (calm_ofList rfl) htable) _).2
    · exact .nil

/-- Likewise the queries over a range of times. -/
theorem steady_rangeQuery {select noConditions : List Piece} {table order : String}
    (hselect : Steady (template select)) (hnoConditions : Steady (template noConditions))
    (htable : Calm table) (horder : Calm order) (run : ℤ) (startTime endTime : Option Sql.Text)
    (conditions : List Condition) :
    Steady (template (rangeQuery select noConditions table order run startTime endTime
      conditions)) := by
  have htime : Calm (" AND " ++ table) := .append (calm_ofList rfl) htable
  refine .pieces (.pieces (.pieces (.pieces (.pieces hselect (steady_conditionClause
    hnoConditions conditions)) ?_) ?_) ?_) (steady_sql horder)
  · exact .cons (steady_sql (calm_ofList rfl)) (steady_number run)
  · cases startTime with
    | none => exact .nil
    | some time => exact (steady_time htime _).1
  · cases endTime with
    | none => exact .nil
    | some time => exact (steady_time htime _).2

/-- The texts before the conditions, piece by piece. -/
theorem steady_texts : ∀ pieces ∈ [portColumns, workerColumns, instanceColumns, portJoins,
    workerJoins, instanceJoins, nodeColumns, systemJoins], Steady (template pieces) := by
  intro pieces hpieces
  simp only [List.mem_cons, List.not_mem_nil, or_false] at hpieces
  rcases hpieces with rfl | rfl | rfl | rfl | rfl | rfl | rfl | rfl
  all_goals
    repeat refine .cons (steady_sql (calm_ofList rfl)) ?_
    exact .nil

theorem steady_sampleInfo (info : SampleInfo) (run : ℤ) (startTime endTime : Sql.Text)
    (conditions : List Condition) :
    Steady (template (info.get run startTime endTime conditions)) := by
  cases info <;> refine steady_sampleQuery ?_ (calm_ofList rfl) (calm_ofList rfl)
    (calm_ofList rfl) run startTime endTime conditions
  all_goals
    repeat' with_reducible first
      | exact steady_nil
      | refine Steady.cons steady_stringToPSQLTimestamp ?_
      | refine Steady.cons (steady_sql ?_) ?_
      | refine Steady.pieces ?_ ?_
      | exact steady_texts _ (by simp)
    all_goals exact calm_ofList rfl

theorem steady_getMarkerInfo (run : ℤ) (startTime endTime : Sql.Text)
    (conditions : List Condition) :
    Steady (template (getMarkerInfo run startTime endTime conditions)) := by
  refine steady_rangeQuery ?_ steady_nil (calm_ofList rfl)
    (calm_ofList rfl) run _ _ conditions
  repeat' with_reducible first
    | exact steady_nil
    | exact steady_marker
    | refine Steady.cons steady_stringToPSQLTimestamp ?_
    | refine Steady.cons (steady_sql ?_) ?_
    | refine Steady.pieces ?_ ?_
    | exact steady_texts _ (by simp)
  all_goals exact calm_ofList rfl

theorem steady_rangeInfo (info : RangeInfo) (run : ℤ) (startTime endTime : Option Sql.Text)
    (conditions : List Condition) :
    Steady (template (info.get run startTime endTime conditions)) := by
  cases info <;> refine steady_rangeQuery ?_ (steady_sql (calm_ofList rfl))
    (calm_ofList rfl) (calm_ofList rfl) run startTime endTime conditions
  all_goals
    repeat' with_reducible first
      | exact steady_nil
      | refine Steady.cons steady_stringToPSQLTimestamp ?_
      | refine Steady.cons (steady_sql ?_) ?_
      | refine Steady.pieces ?_ ?_
      | exact steady_texts _ (by simp)
    all_goals exact calm_ofList rfl

/-! ### Insertions and updates -/

theorem steady_name (name : SqlName) : Steady (template [name.piece]) :=
  .calm (by simpa using calm_piece name)

theorem steady_stripSchema (name : SqlName) :
    Steady (template [.sql (stripSchema name.text)]) :=
  .calm (by simpa [Sql.Piece.calm] using calm_stripSchema name)

theorem steady_double (name : SqlName) : Steady (template [.sql (Sql.double name.text)]) := by
  rw [double_calm name.calm]
  exact steady_name name

theorem steady_columns {separator : String} (h : Calm separator) (columns : List SqlName) :
    Steady (template (separated separator (columns.map fun column => [column.piece]))) := by
  refine Steady.intercalate (steady_sql h) fun p hp => ?_
  obtain ⟨column, -, rfl⟩ := List.mem_map.mp hp
  exact steady_name column

theorem steady_buildColTuple (columns : List SqlName) :
    Steady (template (buildColTuple columns)) :=
  .pieces (.cons (steady_sql (calm_ofList rfl))
    (steady_columns (calm_ofList rfl) columns)) (steady_sql (calm_ofList rfl))

theorem steady_values (values : List Sql.Text) :
    Steady (template (sql " VALUES (" :: separated ","
      (values.map fun value => [.place (.quoted value)]))) := by
  have hseparator : Calm "," := calm_ofList rfl
  have hbefore : Calm " VALUES (" := calm_ofList rfl
  have h := Steady.values (by simp) hseparator (values.map .quoted) (by simp) hbefore
  rwa [List.map_map] at h

/-- The names of the columns, as the loop of `InsertValuesUnique` writes them. -/
theorem steady_escaped (columns : List SqlName) : Steady (template
    (columns.dropLast.flatMap (fun column => [.sql (Sql.double column.text), sql ","]) ++
      (columns.getLast?.toList.map fun column => column.piece))) := by
  refine .pieces ?_ ?_
  · induction columns.dropLast with
    | nil => exact steady_nil
    | cons column columns ih =>
      exact .cons (steady_double column) (.cons (steady_sql (calm_ofList rfl)) ih)
  · cases columns.getLast? with
    | none => exact steady_nil
    | some column => exact steady_name column

/-- Each of the quoted values of an insertion is one token. -/
theorem steady_insertValues {table : SqlName} {columns : List SqlName} {values : List Sql.Text}
    {pieces : List Piece} (h : insertValues table columns values = some pieces) :
    Steady (template pieces) := by
  rw [insertValues] at h
  split at h
  · cases h
  · obtain rfl := Option.some.inj h
    repeat' with_reducible first
      | exact steady_nil
      | exact steady_values _
      | exact steady_columns (calm_ofList rfl) _
      | refine Steady.cons (steady_name _) ?_
      | refine Steady.cons (steady_stripSchema _) ?_
      | refine Steady.cons (steady_sql ?_) ?_
      | refine Steady.pieces ?_ ?_
    all_goals exact calm_ofList rfl

/-- The insertion inside, the table names inside quotes and the pasted values of the lookup. -/
theorem steady_insertValuesUnique {table : SqlName} {columns unique : List SqlName}
    {values : List Sql.Text} {pieces : List Piece}
    (h : insertValuesUnique table columns values unique = some pieces) :
    Steady (template pieces) := by
  rw [insertValuesUnique] at h
  split at h
  · cases h
  · obtain ⟨uniqueValues, -, rfl⟩ := Option.map_eq_some_iff.mp h
    have hescaped := steady_escaped columns
    rw [List.append_assoc _ (columns.dropLast.flatMap _)]
    repeat' with_reducible first
      | exact steady_nil
      | exact hescaped
      | exact steady_values _
      | exact steady_buildColTuple _
      | exact steady_buildWhereAllEqualClause _
      | refine Steady.cons (steady_name _) ?_
      | refine Steady.cons (steady_double _) ?_
      | refine Steady.cons (steady_stripSchema _) ?_
      | refine Steady.cons (steady_number _) ?_
      | refine Steady.cons (steady_sql ?_) ?_
      | refine Steady.pieces ?_ ?_
    all_goals exact calm_ofList rfl

theorem steady_updateShutdownTime (run : ℤ) (endTime : Sql.Text) :
    Steady (template (updateShutdownTime run endTime)) :=
  steady_value_cons (by simp) (calm_ofList rfl) _
    (.cons (steady_sql (calm_ofList rfl)) (steady_number run))

theorem steady_updateLastSampleTime (run : ℤ) (sampleTime : SampleTime) :
    Steady (template (updateLastSampleTime run sampleTime)) :=
  steady_value_cons (by simp) (calm_ofList rfl) _
    (.cons (steady_sql (calm_ofList rfl)) (.cons (steady_number run)
      (steady_value_cons (by simp) (calm_ofList rfl) _ (steady_sql (calm_ofList rfl)))))

/-- Wherever a value is, a token may begin. -/
theorem steady_build {request : SqlRequest} {pieces : List Piece}
    (h : request.build = some pieces) : Steady (template pieces) := by
  cases request with
  | insertValues => exact steady_insertValues h
  | insertValuesUnique => exact steady_insertValuesUnique h
  | sampleInfo => exact Option.some.inj h ▸ steady_sampleInfo _ _ _ _ _
  | markerInfo => exact Option.some.inj h ▸ steady_getMarkerInfo _ _ _ _
  | rangeInfo => exact Option.some.inj h ▸ steady_rangeInfo _ _ _ _ _
  | updateShutdownTime => exact Option.some.inj h ▸ steady_updateShutdownTime _ _
  | updateLastSampleTime => exact Option.some.inj h ▸ steady_updateLastSampleTime _ _

/-! ## Forms -/

/-- What is left of the conditions without their values: the columns. -/
theorem template_conditions (separator operator : String) (conditions : List Condition) :
    template (separated separator (conditions.map fun condition =>
      [condition.1.piece, sql operator, .place (.pasted condition.2)])) =
    (template [sql separator]).intercalate ((conditions.map Prod.fst).map fun column =>
      template [column.piece, sql operator, .place (.pasted [])]) := by
  rw [separated, Sql.template_intercalate, List.map_map, List.map_map]
  rfl

theorem template_buildWhereAllEqualClause {conditions conditions' : List Condition}
    (h : conditions.map Prod.fst = conditions'.map Prod.fst) :
    template (buildWhereAllEqualClause conditions) =
      template (buildWhereAllEqualClause conditions') := by
  rw [buildWhereAllEqualClause, buildWhereAllEqualClause, List.cons_append, List.cons_append,
    Sql.template_cons, Sql.template_append, template_conditions, h, ← template_conditions,
    ← Sql.template_append, ← Sql.template_cons]

theorem template_conditionClause (noConditions : List Piece)
    {conditions conditions' : List Condition}
    (h : conditions.map Prod.fst = conditions'.map Prod.fst) :
    template (conditionClause noConditions conditions) =
      template (conditionClause noConditions conditions') := by
  have hnil : conditions = [] ↔ conditions' = [] := by
    rw [← List.map_eq_nil_iff (f := Prod.fst), h, List.map_eq_nil_iff]
  rw [conditionClause, conditionClause]
  by_cases hc : conditions = []
  · rw [if_pos hc, if_pos (hnil.mp hc)]
  · rw [if_neg hc, if_neg (mt hnil.mpr hc), Sql.template_append, Sql.template_append,
      buildWhereLikeClause, buildWhereLikeClause, List.cons_append, List.cons_append,
      Sql.template_cons, Sql.template_append, template_conditions, h, ← template_conditions,
      ← Sql.template_append, ← Sql.template_cons]

theorem template_values {values values' : List Sql.Text} (h : values.length = values'.length) :
    template (sql " VALUES (" :: separated ","
        (values.map fun value => [.place (.quoted value)])) =
      template (sql " VALUES (" :: separated ","
        (values'.map fun value => [.place (.quoted value)])) := by
  have hparts : ∀ vs : List Sql.Text, (vs.map fun value => [Piece.place (.quoted value)]).map
      template = List.replicate vs.length [none] := by
    intro vs
    rw [List.map_map, ← List.map_const']
    rfl
  rw [Sql.template_cons, separated, Sql.template_intercalate, hparts, h, ← hparts,
    ← Sql.template_intercalate, ← separated, ← Sql.template_cons]

/-- Which values are bound does not matter, only whether there is an end. -/
theorem template_sampleQuery (select : List Piece) (table and order : String) (run : ℤ)
    {startTime startTime' endTime endTime' : Sql.Text} {conditions conditions' : List Condition}
    (hend : endTime = formatTimestampZero ↔ endTime' = formatTimestampZero)
    (h : conditions.map Prod.fst = conditions'.map Prod.fst) :
    template (sampleQuery select table and order run startTime endTime conditions) =
      template (sampleQuery select table and order run startTime' endTime' conditions') := by
  simp only [sampleQuery, Sql.template_append, template_conditionClause _ h]
  by_cases hzero : endTime = formatTimestampZero
  · rw [if_neg (not_not.mpr hzero), if_neg (not_not.mpr (hend.mp hzero))]
    rfl
  · rw [if_pos hzero, if_pos (mt hend.mpr hzero)]
    rfl

/-- Here both bounds are optional. -/
theorem template_rangeQuery (select noConditions : List Piece) (table order : String) (run : ℤ)
    {startTime startTime' endTime endTime' : Option Sql.Text}
    {conditions conditions' : List Condition}
    (hstart : startTime.isSome = startTime'.isSome) (hend : endTime.isSome = endTime'.isSome)
    (h : conditions.map Prod.fst = conditions'.map Prod.fst) :
    template (rangeQuery select noConditions table order run startTime endTime conditions) =
      template (rangeQuery select noConditions table order run startTime' endTime'
        conditions') := by
  have htime : ∀ (s : String) (time time' : Option Sql.Text), time.isSome = time'.isSome →
      template (time.toList.flatMap fun time => [sql s, .place (.pasted time)]) =
        template (time'.toList.flatMap fun time => [sql s, .place (.pasted time)]) := by
    intro s time time' heq
    cases time <;> cases time' <;> first | rfl | cases heq
  simp only [rangeQuery, Sql.template_append, template_conditionClause _ h, htime _ _ _ hstart,
    htime _ _ _ hend]

/-! ## Values of unique columns -/

theorem eq_map_of_mapM {α : Type} {g : α → Option Sql.Text} {l : List α} {values : List Sql.Text}
    (h : l.mapM g = some values) :
    values = l.map (fun a => (g a).getD []) ∧ ∀ a ∈ l, g a ≠ none := by
  induction l generalizing values with
  | nil =>
    cases h
    exact ⟨rfl, by simp⟩
  | cons a l ih =>
    rw [List.mapM_cons] at h
    obtain ⟨value, hvalue, h⟩ := Option.bind_eq_some_iff.mp h
    obtain ⟨rest, hrest, h⟩ := Option.bind_eq_some_iff.mp h
    cases h
    obtain ⟨rfl, hne⟩ := ih hrest
    refine ⟨by rw [List.map_cons, hvalue, Option.getD_some], ?_⟩
    exact List.forall_mem_cons.mpr ⟨by simp [hvalue], hne⟩

/-- A column is read for all unique columns of its name. -/
theorem readColumn_eq {unique : List SqlName} {g : SqlName → Sql.Text}
    {entry : SqlName × Option Sql.Text} {values : List Sql.Text}
    (h : readColumn unique (unique.map g) entry = some values) :
    values = unique.map (fun column => if column = entry.1 then entry.2.getD [] else g column) ∧
      (entry.1 ∈ unique → entry.2 ≠ none) := by
  have hzip : unique.zip (unique.map g) = unique.map fun column => (column, g column) := by
    simpa using List.zip_map' (f := id) (g := g) (l := unique)
  rw [readColumn, hzip] at h
  obtain ⟨rfl, hne⟩ := eq_map_of_mapM h
  refine ⟨?_, fun hmem hnone => ?_⟩
  · rw [List.map_map]
    refine List.map_congr_left fun column _ => ?_
    simp only [Function.comp_apply]
    split <;> rfl
  · refine hne (entry.1, g entry.1) (List.mem_map.mpr ⟨entry.1, hmem, rfl⟩) ?_
    rw [if_pos rfl, hnone]

/-- The last value of a column counts. -/
theorem foldlM_readColumn {unique : List SqlName} {entries : List (SqlName × Option Sql.Text)}
    {g : SqlName → Sql.Text} {values : List Sql.Text}
    (h : entries.foldlM (readColumn unique) (unique.map g) = some values) :
    values = unique.map (fun column =>
      ((entries.reverse.lookup column).map fun value => value.getD []).getD (g column)) ∧
      ∀ column ∈ unique, entries.reverse.lookup column ≠ some none := by
  induction entries generalizing g with
  | nil =>
    cases h
    exact ⟨rfl, fun _ _ hnone => by cases hnone⟩
  | cons entry entries ih =>
    rw [List.foldlM_cons] at h
    obtain ⟨read, hread, hrest⟩ := Option.bind_eq_some_iff.mp h
    obtain ⟨rfl, hne⟩ := readColumn_eq hread
    obtain ⟨rfl, hlookup⟩ := ih hrest
    have happend : ∀ column, (entry :: entries).reverse.lookup column =
        (entries.reverse.lookup column).or (if column = entry.1 then some entry.2 else none) := by
      intro column
      obtain ⟨name, value⟩ := entry
      rw [List.reverse_cons, List.lookup_append]
      by_cases heq : column = name
      · simp [heq]
      · simp [List.lookup_cons, heq, beq_false_of_ne heq]
    refine ⟨List.map_congr_left fun column _ => ?_, fun column hcolumn => ?_⟩
    · rw [happend]
      cases entries.reverse.lookup column with
      | some value => rfl
      | none => by_cases heq : column = entry.1 <;> simp [heq]
    · rw [happend]
      cases hvalue : entries.reverse.lookup column with
      | some value => exact fun hnone => hlookup column hcolumn (hvalue.trans hnone)
      | none =>
        by_cases heq : column = entry.1
        · simpa [heq] using hne (heq ▸ hcolumn)
        · simp [heq]

/-- The values that a lookup pastes are those of its columns, the last of each name. -/
theorem uniqueValues_eq {columns unique : List SqlName} {values uniqueVals : List Sql.Text}
    (h : uniqueValues columns values unique = some uniqueVals) :
    uniqueVals.length = unique.length ∧ ((∀ value ∈ uniqueVals, '\'' ∉ value) ↔
      ∀ column ∈ unique, ∀ value,
        (columnValues columns values).reverse.lookup column = some (some value) → '\'' ∉ value) := by
  obtain ⟨rfl, hne⟩ := foldlM_readColumn h
  refine ⟨List.length_map _, ?_⟩
  rw [List.forall_mem_map]
  refine forall₂_congr fun column hcolumn => ?_
  match hlookup : (columnValues columns values).reverse.lookup column with
  | none => simp
  | some none => exact absurd hlookup (hne column hcolumn)
  | some (some value) => simp

/-- Insertions of as many values have one template. -/
theorem template_insertValues {table : SqlName} {columns : List SqlName}
    {values values' : List Sql.Text} {pieces pieces' : List Piece}
    (h : insertValues table columns values = some pieces)
    (h' : insertValues table columns values' = some pieces')
    (hlength : values.length = values'.length) : template pieces' = template pieces := by
  rw [insertValues] at h h'
  split at h
  · cases h
  · split at h'
    · cases h'
    · obtain rfl := Option.some.inj h
      obtain rfl := Option.some.inj h'
      simp only [Sql.template_append, template_values hlength]

/-- So have insertions with a lookup. -/
theorem template_insertValuesUnique {table : SqlName} {columns unique : List SqlName}
    {values values' : List Sql.Text} {pieces pieces' : List Piece}
    (h : insertValuesUnique table columns values unique = some pieces)
    (h' : insertValuesUnique table columns values' unique = some pieces')
    (hlength : values.length = values'.length) : template pieces' = template pieces := by
  rw [insertValuesUnique] at h h'
  split at h
  · cases h
  · split at h'
    · cases h'
    · obtain ⟨uniqueVals, hvalues, rfl⟩ := Option.map_eq_some_iff.mp h
      obtain ⟨uniqueVals', hvalues', rfl⟩ := Option.map_eq_some_iff.mp h'
      have hcolumns :
          (unique.zip uniqueVals).map Prod.fst = (unique.zip uniqueVals').map Prod.fst := by
        rw [List.map_fst_zip (uniqueValues_eq hvalues).1.ge,
          List.map_fst_zip (uniqueValues_eq hvalues').1.ge]
      simp only [Sql.template_append, template_values hlength,
        template_buildWhereAllEqualClause hcolumns]

/-! ## Places -/

theorem places_sql (s : String) (pieces : List Piece) :
    places (sql s :: pieces) = places pieces := rfl

theorem places_text (s : Sql.Text) (pieces : List Piece) :
    places (.sql s :: pieces) = places pieces := rfl

theorem places_name (name : SqlName) (pieces : List Piece) :
    places (name.piece :: pieces) = places pieces := rfl

theorem places_number (n : ℤ) (pieces : List Piece) :
    places (number n :: pieces) = places pieces := by
  cases n <;> rfl

theorem places_nil : places [] = [] := rfl

theorem places_conditions (separator operator : String) (conditions : List Condition) :
    places (separated separator (conditions.map fun condition =>
      [condition.1.piece, sql operator, .place (.pasted condition.2)])) =
    conditions.map fun condition => .pasted condition.2 := by
  rw [separated, Sql.places_intercalate rfl, List.flatMap_map]
  exact List.map_eq_flatMap.symm

/-- The values of conditions are pasted between quotes as they are. -/
theorem safe_conditionClause {noConditions : List Piece} (h : places noConditions = [])
    (conditions : List Condition) :
    (∀ p ∈ places (conditionClause noConditions conditions), p.Safe) ↔
      ∀ condition ∈ conditions, '\'' ∉ condition.2 := by
  rw [conditionClause]
  split
  · next hnil => simp [h, hnil]
  · have hplaces : places (buildWhereLikeClause conditions ++ [sql " AND "]) =
        conditions.map fun condition => .pasted condition.2 := by
      simp only [buildWhereLikeClause, List.cons_append, Sql.places_append, places_sql,
        places_conditions, places_nil, List.append_nil]
    rw [hplaces, List.forall_mem_map]
    rfl

/-- The bounds of a query over samples are pasted too. -/
theorem safe_sampleQuery {select : List Piece} (hselect : places select = [])
    (table and order : String) (run : ℤ) (startTime endTime : Sql.Text)
    (conditions : List Condition) :
    (∀ p ∈ places (sampleQuery select table and order run startTime endTime conditions), p.Safe) ↔
      '\'' ∉ startTime ∧ '\'' ∉ endTime ∧ ∀ condition ∈ conditions, '\'' ∉ condition.2 := by
  have hend : (∀ p ∈ places (if endTime ≠ formatTimestampZero then
      [sql ("AND " ++ table ++ ".SampleTime <= "), .place (.pasted endTime)] else []), p.Safe) ↔
        '\'' ∉ endTime := by
    split
    · simp [places, sql, Place.Safe]
    · next hzero =>
      rw [not_not.mp hzero]
      exact iff_of_true (by simp [places]) (by decide)
  have hstart : (∀ p ∈ places [sql (table ++ ".SampleTime >= "), .place (.pasted startTime)],
      p.Safe) ↔ '\'' ∉ startTime := by simp [places, sql, Place.Safe]
  simp only [sampleQuery, Sql.places_append, hselect, places_sql, places_number, places_nil,
    List.nil_append, List.append_nil, List.forall_mem_append,
    safe_conditionClause (show places [sql "WHERE "] = [] from rfl), hend]
  rw [← places_sql, hstart]
  tauto

theorem safe_rangeQuery {select noConditions : List Piece} (hselect : places select = [])
    (hnoConditions : places noConditions = []) (table order : String) (run : ℤ)
    (startTime endTime : Option Sql.Text) (conditions : List Condition) :
    (∀ p ∈ places (rangeQuery select noConditions table order run startTime endTime conditions),
      p.Safe) ↔
      (∀ time ∈ startTime, '\'' ∉ time) ∧ (∀ time ∈ endTime, '\'' ∉ time) ∧
        ∀ condition ∈ conditions, '\'' ∉ condition.2 := by
  have htime : ∀ (s : String) (time : Option Sql.Text),
      (∀ p ∈ places (time.toList.flatMap fun time => [sql s, .place (.pasted time)]), p.Safe) ↔
        ∀ t ∈ time, '\'' ∉ t := by
    intro s time
    cases time <;> simp [places, sql, Place.Safe]
  simp only [rangeQuery, Sql.places_append, hselect, places_sql, places_number, places_nil,
    List.nil_append, List.append_nil, List.forall_mem_append, safe_conditionClause hnoConditions,
    htime]
  tauto

theorem places_values (values : List Sql.Text) :
    places (separated "," (values.map fun value => [.place (.quoted value)])) =
      values.map .quoted := by
  rw [separated, Sql.places_intercalate rfl, List.flatMap_map]
  exact List.map_eq_flatMap.symm

/-- `QuoteValue` doubles every quote. -/
theorem safe_quoted (values : List Sql.Text) : ∀ p ∈ values.map Place.quoted, p.Safe :=
  List.forall_mem_map.mpr fun _ _ => trivial

theorem places_columns (separator : String) (columns : List SqlName) :
    places (separated separator (columns.map fun column => [column.piece])) = [] := by
  rw [separated, Sql.places_intercalate rfl, List.flatMap_map]
  exact List.flatMap_eq_nil_iff.mpr fun _ _ => rfl

/-- All values of an insertion were quoted by the caller. -/
theorem safe_insertValues {table : SqlName} {columns : List SqlName} {values : List Sql.Text}
    {pieces : List Piece} (h : insertValues table columns values = some pieces) :
    ∀ p ∈ places pieces, p.Safe := by
  rw [insertValues] at h
  split at h
  · cases h
  · obtain rfl := Option.some.inj h
    simp only [List.cons_append, List.nil_append, Sql.places_append, places_columns, places_values,
      places_sql, places_name, places_text, places_nil, List.append_nil]
    exact safe_quoted values

/-- The lookup pastes the values of the unique columns. -/
theorem safe_insertValuesUnique {table : SqlName} {columns unique : List SqlName}
    {values : List Sql.Text} {pieces : List Piece}
    (h : insertValuesUnique table columns values unique = some pieces) :
    (∀ p ∈ places pieces, p.Safe) ↔ ∀ column ∈ unique, ∀ value,
      (columnValues columns values).reverse.lookup column = some (some value) → '\'' ∉ value := by
  rw [insertValuesUnique] at h
  split at h
  · cases h
  · obtain ⟨uniqueVals, hvalues, rfl⟩ := Option.map_eq_some_iff.mp h
    obtain ⟨hlength, hiff⟩ := uniqueValues_eq hvalues
    have hwhere : (∀ p ∈ places (buildWhereAllEqualClause (unique.zip uniqueVals)), p.Safe) ↔
        ∀ value ∈ uniqueVals, '\'' ∉ value := by
      conv => rhs; rw [← List.map_snd_zip hlength.le]
      simp only [buildWhereAllEqualClause, List.cons_append, Sql.places_append, places_sql,
        places_conditions, places_nil, List.append_nil, List.forall_mem_map]
      rfl
    have hescaped : ∀ l : List SqlName,
        places (l.flatMap fun column => [.sql (Sql.double column.text), sql ","]) = [] := by
      intro l
      induction l with
      | nil => rfl
      | cons column l ih => exact ih
    have hlast : places (columns.getLast?.toList.map fun column => column.piece) = [] := by
      cases columns.getLast? <;> rfl
    rw [← hiff, ← hwhere]
    simp only [buildColTuple, List.cons_append, List.nil_append, Sql.places_append, places_sql,
      places_text, places_name, places_number, places_nil, places_columns, places_values, hescaped,
      hlast, List.append_nil, List.forall_mem_append]
    exact and_iff_right (safe_quoted values)

/-- Each kind of statement is safe exactly under its own condition. -/
theorem safe_build {request : SqlRequest} {pieces : List Piece}
    (h : request.build = some pieces) : (∀ p ∈ places pieces, p.Safe) ↔ request.Clean := by
  cases request with
  | insertValues => exact iff_of_true (safe_insertValues h) trivial
  | insertValuesUnique => exact safe_insertValuesUnique h
  | sampleInfo info run startTime endTime conditions =>
    obtain rfl := Option.some.inj h
    cases info <;> exact safe_sampleQuery rfl _ _ _ run startTime endTime conditions
  | markerInfo run startTime endTime conditions =>
    obtain rfl := Option.some.inj h
    have hmissing : ∀ t : Sql.Text,
        (∀ time ∈ (if t = [] then none else some t), '\'' ∉ time) ↔ '\'' ∉ t := by
      intro t
      by_cases ht : t = [] <;> simp [ht]
    refine (safe_rangeQuery rfl rfl _ _ run _ _ conditions).trans ?_
    rw [hmissing, hmissing]
    rfl
  | rangeInfo info run startTime endTime conditions =>
    obtain rfl := Option.some.inj h
    cases info <;> exact safe_rangeQuery rfl rfl _ _ run startTime endTime conditions
  | updateShutdownTime run endTime =>
    obtain rfl := Option.some.inj h
    refine iff_of_true ?_ trivial
    cases run <;> simp [updateShutdownTime, places, sql, number, Place.Safe]
  | updateLastSampleTime run sampleTime =>
    obtain rfl := Option.some.inj h
    cases run <;> cases sampleTime <;>
      simp [updateLastSampleTime, places, sql, number, SampleTime.timeVal, Place.Safe,
        SqlRequest.Clean]

/-! ## What holds of the statements -/

/-- Statements of one form differ in their values only. -/
theorem form_eq {request request' : SqlRequest} {pieces pieces' : List Piece}
    (h : request.build = some pieces) (h' : request'.build = some pieces')
    (hsame : request.SameForm request') : form pieces' = form pieces := by
  suffices htemplate : template pieces' = template pieces by rw [form, form, htemplate]
  cases request with
  | insertValues table columns values =>
    cases request' <;> try exact hsame.elim
    obtain ⟨rfl, rfl, hlength⟩ := hsame
    exact template_insertValues h h' hlength
  | insertValuesUnique table columns values unique =>
    cases request' <;> try exact hsame.elim
    obtain ⟨rfl, rfl, hlength, rfl⟩ := hsame
    exact template_insertValuesUnique h h' hlength
  | sampleInfo info run startTime endTime conditions =>
    cases request' <;> try exact hsame.elim
    obtain ⟨rfl, rfl, hend, hconditions⟩ := hsame
    obtain rfl := Option.some.inj h
    obtain rfl := Option.some.inj h'
    cases info <;> exact (template_sampleQuery _ _ _ _ run hend hconditions).symm
  | markerInfo run startTime endTime conditions =>
    cases request' <;> try exact hsame.elim
    obtain ⟨rfl, hstart, hend, hconditions⟩ := hsame
    obtain rfl := Option.some.inj h
    obtain rfl := Option.some.inj h'
    refine (template_rangeQuery _ _ _ _ run ?_ ?_ hconditions).symm
    · by_cases hnil : startTime = [] <;> simp [hnil, hstart.mp, mt hstart.mpr]
    · by_cases hnil : endTime = [] <;> simp [hnil, hend.mp, mt hend.mpr]
  | rangeInfo info run startTime endTime conditions =>
    cases request' <;> try exact hsame.elim
    obtain ⟨rfl, rfl, hstart, hend, hconditions⟩ := hsame
    obtain rfl := Option.some.inj h
    obtain rfl := Option.some.inj h'
    cases info <;> exact (template_rangeQuery _ _ _ _ run hstart hend hconditions).symm
  | updateShutdownTime run endTime =>
    cases request' <;> try exact hsame.elim
    obtain rfl := hsame
    obtain rfl := Option.some.inj h
    obtain rfl := Option.some.inj h'
    rfl
  | updateLastSampleTime run sampleTime =>
    cases request' <;> try exact hsame.elim
    obtain rfl := hsame
    obtain rfl := Option.some.inj h
    obtain rfl := Option.some.inj h'
    rfl

/-- **A statement is faithful exactly if** no value that is pasted into it has a quote, and the time
of a sample comes unquoted. -/
theorem faithful_iff (request : SqlRequest) (pieces : List Piece)
    (h : request.build = some pieces) : Faithful request pieces ↔ request.Clean := by
  obtain ⟨mode, hrun, -⟩ := steady_build h (some .gap) rfl
  have hsome : (Sql.run (some .gap) (template pieces)).isSome := by
    rw [hrun]
    rfl
  have htokens := Sql.lex_text_iff hsome
  rw [← safe_build h, ← htokens]
  exact ⟨fun hfaithful => hfaithful.denotes,
    fun hdenotes => ⟨hdenotes, fun _ _ hsame h' => form_eq h h' hsame⟩⟩

/-! ## Who sends what -/

/-- `ProcessWorkloadEvent`: the literals of the values come first. -/
def processWorkloadEvent (run : ℤ) (workerInstanceId workloadId function type args logLevel
    sampleTime : Sql.Text) : List SqlRequest :=
  [.insertValues (.of "WorkloadEvent" (calm_ofList rfl) (by simp))
      [.of "WorkerInstanceID" (calm_ofList rfl) (by simp),
        .of "WorkloadID" (calm_ofList rfl) (by simp),
        .of "Function" (calm_ofList rfl) (by simp),
        .of "Type" (calm_ofList rfl) (by simp),
        .of "Arguments" (calm_ofList rfl) (by simp),
        .of "LogLevel" (calm_ofList rfl) (by simp),
        .of "SampleTime" (calm_ofList rfl) (by simp)]
      [workerInstanceId, workloadId, function, type, args, logLevel, sampleTime],
    .updateLastSampleTime run (.quoted sampleTime)]

/-- `ModelEventProtoHandler::ProcessUtilizationEvent`, as far as the database goes. -/
def processUtilizationEvent (run : ℤ) (portId seqNum type msg sampleTime : Sql.Text) :
    List SqlRequest :=
  [.insertValues (.of "PortEvent" (calm_ofList rfl) (by simp))
      [.of "PortID" (calm_ofList rfl) (by simp),
        .of "PortEventSequenceNum" (calm_ofList rfl) (by simp),
        .of "Type" (calm_ofList rfl) (by simp),
        .of "Message" (calm_ofList rfl) (by simp),
        .of "SampleTime" (calm_ofList rfl) (by simp)]
      [portId, seqNum, type, msg, sampleTime],
    .updateLastSampleTime run (.quoted sampleTime)]

/-- `ModelEventProtoHandler::InsertPortLifecycleEvent`. -/
def insertPortLifecycleEvent (run : ℤ) (portId sampleTime typeString : Sql.Text) :
    List SqlRequest :=
  [.insertValues (.of "PortLifecycleEvent" (calm_ofList rfl) (by simp))
      [.of "PortID" (calm_ofList rfl) (by simp),
        .of "SampleTime" (calm_ofList rfl) (by simp),
        .of "Type" (calm_ofList rfl) (by simp)]
      [portId, sampleTime, typeString],
    .updateLastSampleTime run (.quoted sampleTime)]

/-- The end of `ShutdownExperimentRun`. -/
def shutdownExperimentRun (run : ℤ) (endTime : Sql.Text) : List SqlRequest :=
  [.updateShutdownTime run endTime, .updateLastSampleTime run (.plain endTime)]

/-- What `RegisterExperimentRun` asks first. -/
def registerExperiment (experimentName : Sql.Text) : SqlRequest :=
  .insertValuesUnique (.of "Experiment" (calm_ofList rfl) (by simp))
    [.of "Name" (calm_ofList rfl) (by simp),
      .of "ModelName" (calm_ofList rfl) (by simp)]
    [experimentName, experimentName] [.of "Name" (calm_ofList rfl) (by simp)]

/-- The end of a run is a time that the server formats itself. -/
theorem clean_shutdownExperimentRun (run : ℤ) (endTime : Sql.Text) :
    ∀ request ∈ shutdownExperimentRun run endTime, request.Clean := by
  intro request hmem
  simp only [shutdownExperimentRun, List.mem_cons, List.not_mem_nil, or_false] at hmem
  rcases hmem with rfl | rfl
  · trivial
  · exact ⟨endTime, rfl⟩

/-- A time that is quoted already has quotes. -/
theorem not_clean_quoted (run : ℤ) (sampleTime : Sql.Text) :
    ¬ (SqlRequest.updateLastSampleTime run (.quoted sampleTime)).Clean := by
  rintro ⟨time, htime⟩
  cases htime

/-- The event handlers quote the time for both of their statements. -/
theorem not_clean_handlers (run : ℤ) (sampleTime : Sql.Text) :
    (∀ workerInstanceId workloadId function type args logLevel, ∃ request ∈ processWorkloadEvent run
      workerInstanceId workloadId function type args logLevel sampleTime, ¬ request.Clean) ∧
    (∀ portId seqNum type msg, ∃ request ∈ processUtilizationEvent run portId seqNum type msg
      sampleTime, ¬ request.Clean) ∧
    (∀ portId typeString, ∃ request ∈ insertPortLifecycleEvent run portId sampleTime typeString,
      ¬ request.Clean) := by
  have hlast : ∀ request : SqlRequest, SqlRequest.updateLastSampleTime run (.quoted sampleTime) ∈
      [request, .updateLastSampleTime run (.quoted sampleTime)] := by simp
  exact ⟨fun _ _ _ _ _ _ => ⟨_, hlast _, not_clean_quoted run sampleTime⟩,
    fun _ _ _ _ => ⟨_, hlast _, not_clean_quoted run sampleTime⟩,
    fun _ _ => ⟨_, hlast _, not_clean_quoted run sampleTime⟩⟩

theorem clean_registerExperiment_iff (experimentName : Sql.Text) :
    (registerExperiment experimentName).Clean ↔ '\'' ∉ experimentName := by
  constructor
  · intro h
    exact h _ (List.mem_singleton.mpr rfl) experimentName (by rfl)
  · rintro h column hcolumn value hvalue
    obtain rfl := List.mem_singleton.mp hcolumn
    obtain rfl : experimentName = value := Option.some.inj (Option.some.inj hvalue)
    exact h

theorem faithful_iff_register : ∃ pieces,
    (registerExperiment "Brien".toList).build = some pieces ∧
      Faithful (registerExperiment "Brien".toList) pieces :=
  ⟨_, rfl, (faithful_iff (registerExperiment "Brien".toList) _ rfl).mpr
    ((clean_registerExperiment_iff _).mpr (by decide))⟩

/-- The statement for a name with a quote: the lexer finds a part of the name outside a literal. -/
def registerBrien : { pieces : List Piece //
    (registerExperiment "O'Brien".toList).build = some pieces ∧
      (Sql.tokens (Sql.text pieces))[50]? = some (.word "Brien".toList) ∧
        Sql.tokens (Sql.text pieces) ≠
          Sql.fill (form pieces) ((Sql.places pieces).map Sql.Place.value) } :=
  ⟨(registerExperiment "O'Brien".toList).build.getD [], rfl, by decide +kernel⟩

/-- The name of an experiment ends its own literal, and the time of an event is a literal in a
literal. -/
theorem not_faithful :
    (∃ pieces, (registerExperiment "O'Brien".toList).build = some pieces ∧
      Sql.Token.word "Brien".toList ∈ Sql.tokens (Sql.text pieces) ∧
      ¬ Faithful (registerExperiment "O'Brien".toList) pieces) ∧
    ∃ request ∈ processUtilizationEvent 1 "2".toList "3".toList "SENT".toList "".toList
        "2020-01-01T00:00:00Z".toList, ∃ pieces, request.build = some pieces ∧
      Sql.Token.literal "'2020-01-01T00:00:00Z'".toList ∈ Sql.tokens (Sql.text pieces) ∧
      ¬ Faithful request pieces := by
  obtain ⟨pieces, hpieces, htoken, hne⟩ := registerBrien
  refine ⟨⟨pieces, hpieces, List.mem_of_getElem? htoken, fun h => hne h.denotes⟩,
    _, List.mem_cons_of_mem _ (List.mem_singleton.mpr rfl), _, rfl, by decide +kernel,
    fun h => absurd h.denotes (by decide +kernel)⟩

end Sem.AggregationServer.Statements

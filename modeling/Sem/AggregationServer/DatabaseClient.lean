import Sem.Lib.Decimal
import Sem.Lib.Table
import Sem.Lib.Throwing
import Sem.Lib.Xml
import Mathlib.Order.WithBot

/-!
# The database client

Values come to `InsertValues` as literals of the query language, each made by `quote`; the time of
`UpdateLastSampleTime` comes as a text and is quoted there. Of the database this takes that a row
is stored if its columns exist and its literals are well formed, and that a time is well formed if
it is the text of one. Times are a type with an order, their texts what `TimeUtil` makes of them.

What the database answers to the queries of `InsertValuesUnique`, and what the tracker of the
experiments knows of a host, is left open: each answer may depend on how often they were asked.

* `insert_quote`: a row of quoted texts is stored; `literal_quote`: a quoted text stands for itself.
* `update_quote`: a time that is quoted twice is refused.
-/

namespace Sem.AggregationServer

open Xml (Text)

/-- The status tables. -/
inductive TableName
  | systemStatus | interfaceStatus | filesystemStatus | processStatus | gpuStatus
  deriving DecidableEq, Repr

/-- The columns of the status tables; case does not matter in them. -/
inductive Column
  | systemID | sampleTime | cpuUtilisation | physMemUtilisation
  | interfaceID | packetsReceived | bytesReceived | packetsTransmitted | bytesTransmitted
  | filesystemID | utilisation
  | processID | coreID | cpuTime | physMemUsedKB | threadCount | diskRead | diskWritten | diskTotal
  | state
  | gpuID | gpuUtilisation | memoryUtilisation | temperature
  deriving DecidableEq, Repr

/-- The schema, but for the serial numbers of the rows. -/
def TableName.columns : TableName → List Column
  | .systemStatus => [.systemID, .sampleTime, .cpuUtilisation, .physMemUtilisation]
  | .interfaceStatus => [.interfaceID, .packetsReceived, .bytesReceived, .packetsTransmitted,
      .bytesTransmitted, .sampleTime]
  | .filesystemStatus => [.filesystemID, .sampleTime, .utilisation]
  | .processStatus => [.processID, .coreID, .cpuUtilisation, .cpuTime, .physMemUtilisation,
      .physMemUsedKB, .threadCount, .diskRead, .diskWritten, .diskTotal, .state, .sampleTime]
  | .gpuStatus => [.gpuID, .sampleTime, .gpuUtilisation, .memoryUtilisation, .temperature]

/-- A row that has been inserted, with the values it was given. -/
structure Row where
  table : TableName
  values : List (Column × Text)
  deriving DecidableEq, Repr

/-- `TimeUtil::ToString`, and the times that the database reads. -/
structure TimeUtil (Time : Type) where
  toString : Time → Text
  parse : Text → Option Time

/-- The exceptions of `DatabaseClient` and of the database behind it. -/
inductive DatabaseError
  | invalidArgument
  /-- `std::out_of_range` -/
  | outOfRange
  | undefinedColumn (column : Column)
  | syntaxError
  | invalidTimestamp (text : Text)
  /-- No answer to a query of `InsertValuesUnique`, or no such host. -/
  | notAnswered
  deriving DecidableEq, Repr

/-- The arguments of `InsertValuesUnique`. -/
structure UniqueQuery where
  tableName : String
  columns : List String
  values : List Text
  uniqueCol : List String
  deriving DecidableEq, Repr

/-- What is asked of the rest of the system, by the number of the question. -/
structure Answers where
  insertValuesUnique : ℕ → UniqueQuery → Option Int
  getNodeIDFromHostname : ℕ → Text → Option Int

/-! ## Literals -/

/-- `connection::quote` -/
def quote (s : Text) : Text :=
  '\'' :: (s.flatMap fun c => if c = '\'' then ['\'', '\''] else [c]) ++ ['\'']

/-- The text up to the quote that ends a literal, which ends the input too. -/
def literalBody : Text → Option Text
  | [] => none
  | ['\''] => some []
  | '\'' :: '\'' :: s => (literalBody s).map ('\'' :: ·)
  | '\'' :: _ => none
  | c :: s => (literalBody s).map (c :: ·)

/-- The text that a literal stands for. -/
def literal : Text → Option Text
  | '\'' :: s => literalBody s
  | _ => none

theorem literal_quote (s : Text) : literal (quote s) = some s := by
  show literalBody ((s.flatMap _) ++ ['\'']) = some s
  induction s with
  | nil => rfl
  | cons c s ih =>
    rw [List.flatMap_cons, List.append_assoc]
    by_cases hc : c = '\''
    · subst hc
      rw [if_pos rfl, List.cons_append, List.cons_append, List.nil_append]
      show (literalBody _).map _ = _
      rw [ih]
      rfl
    · rw [if_neg hc]
      have hcons : ∀ t, literalBody (c :: t) = (literalBody t).map (c :: ·) := by
        intro t
        rw [literalBody.eq_def]
        split
        · next h => cases h
        · next h => exact absurd (List.cons.inj h).1 hc
        · next h => exact absurd (List.cons.inj h).1 hc
        · next h => exact absurd (List.cons.inj h).1 hc
        · next h =>
          obtain ⟨rfl, rfl⟩ := List.cons.inj h
          rfl
      rw [List.singleton_append, hcons, ih]
      rfl

theorem notMem_intText {c : Char} (hc : c.isDigit = false) (hminus : c ≠ '-') (n : Int) :
    c ∉ intText n := by
  cases n with
  | ofNat n => exact notMem_decimal hc n
  | negSucc n =>
    intro h
    obtain h | h := List.mem_cons.mp h
    · exact hminus h
    · exact notMem_decimal hc _ h

/-! ## Statements -/

variable {Time : Type}

/-- A value for a column: a literal, of a time where the column has times. -/
def readValue (time : TimeUtil Time) (column : Column) (value : Text) :
    Except DatabaseError (Column × Text) :=
  match literal value with
  | none => .error .syntaxError
  | some text =>
    if column = .sampleTime ∧ (time.parse text).isNone then .error (.invalidTimestamp text)
    else .ok (column, text)

/-- `INSERT INTO` -/
def insert (time : TimeUtil Time) (table : TableName) (columns : List Column)
    (values : List Text) : Except DatabaseError Row :=
  if columns = [] then .error .invalidArgument
  else if values = [] then .error .outOfRange
  else if columns.length ≠ values.length then .error .syntaxError
  else
    match columns.find? fun column => column ∉ table.columns with
    | some column => .error (.undefinedColumn column)
    | none => do
      let row ← (columns.zip values).mapM fun x => readValue time x.1 x.2
      .ok ⟨table, row⟩

/-- `UPDATE ExperimentRun`, with the text of the time. -/
def update [LinearOrder Time] (time : TimeUtil Time) (sampleTime : Text)
    (lastUpdated : WithBot Time) : Except DatabaseError (WithBot Time) :=
  match literal (quote sampleTime) with
  | none => .error .syntaxError
  | some text =>
    match time.parse text with
    | none => .error (.invalidTimestamp text)
    | some t => .ok (if lastUpdated < t then t else lastUpdated)

/-- Literals of a row's columns make a row. -/
theorem insert_quote {time : TimeUtil Time} {table : TableName} {row : List (Column × Text)}
    (hne : row ≠ []) (hcolumns : ∀ x ∈ row, x.1 ∈ table.columns)
    (htime : ∀ x ∈ row, x.1 = .sampleTime → (time.parse x.2).isSome) :
    insert time table (row.map (·.1)) (row.map fun x => quote x.2) = .ok ⟨table, row⟩ := by
  have hfind : (row.map (·.1)).find? (fun column => column ∉ table.columns) = none := by
    simpa using fun column text hmem => hcolumns (column, text) hmem
  have hvalues : (row.map fun x => (x.1, quote x.2)).mapM
      (fun x => readValue time x.1 x.2) = Except.ok row := by
    clear hne hcolumns hfind
    induction row with
    | nil => rfl
    | cons x row ih =>
      have hread : readValue time x.1 (quote x.2) = .ok x := by
        unfold readValue
        rw [literal_quote]
        refine if_neg ?_
        rintro ⟨hcolumn, hnone⟩
        have := htime x List.mem_cons_self hcolumn
        simp_all
      rw [List.map_cons, List.mapM_cons, hread, ih fun y hy => htime y (List.mem_cons_of_mem _ hy)]
      rfl
  unfold insert
  rw [if_neg (by simpa using hne), if_neg (by simpa using hne), if_neg (by simp), hfind,
    List.zip_map', hvalues]
  rfl

/-- A time that was quoted before is no time. -/
theorem update_quote [LinearOrder Time] {time : TimeUtil Time}
    (hquote : ∀ s, time.parse ('\'' :: s) = none) (sampleTime : Text)
    (lastUpdated : WithBot Time) :
    update time (quote sampleTime) lastUpdated =
      .error (.invalidTimestamp (quote sampleTime)) := by
  have hnone : time.parse (quote sampleTime) = none := hquote _
  unfold update
  rw [literal_quote]
  simp only [hnone]

end Sem.AggregationServer

import Mathlib.Data.List.Nodup
import Mathlib.Logic.Function.Basic
import Sem.Lib.NumberTexts
import Sem.Lib.Run

/-!
# The pool of insert statements

The Logan server writes rows through `TableInsert` objects. An object takes a prepared statement
from the pool of its `Table` and puts it back when it is destroyed; `SQLiteDatabase` executes
statements in transactions of up to a thousand, and clears the bindings of a statement after it is
executed.

Beside the state of the program stands what has been bound through each object since its last
execution, and the rows that its executions ought to add.

* `kept`: in every run no statement is in use twice, and every row is committed once.
* `rows_eq_executed`: the rows are the ones that were bound, in the runs that destroy no object with
  bindings that were not executed.

Preparing the table's statement and executing it do not fail.
-/

namespace Sem.Logan.InsertPool

open Lib
open Xml (Text)

/-- A value that is bound through a `TableInsert`. -/
inductive Argument
  | string (val : Text)
  | int (val : ℤ)
  | double (val : Double)
  deriving DecidableEq

/-- A value of a column other than `NULL`. -/
inductive Value
  | text (val : Text)
  | integer (val : ℤ)
  | real (val : Double)
  deriving DecidableEq

/-- `BindString`, `BindInt`, `BindDouble`: an empty string is bound as `NULL`, and `NaN` as zero. -/
def Argument.value : Argument → Option Value
  | string [] => none
  | string val => some (.text val)
  | int val => some (.integer val)
  | double .nan => some (.real (.finite false 0))
  | double val => some (.real val)

/-- The values of a statement's parameters; `none` is `NULL`. -/
abbrev Bindings := Text → Option Value

/-- A row of a table; what has not been bound is null. -/
abbrev Row := List (Option Value)

/-- A statement without bindings. -/
def noBindings : Bindings := fun _ => none

/-- What is seen of `sqlite`: the parameters of the statements, and the rows of the table. -/
structure Sqlite where
  bindings : ℕ → Bindings
  inTransaction : Bool
  /-- The rows of the open transaction. -/
  pending : List Row
  committed : List Row

/-- The state of the server, of its database, and what has been asked of it. -/
structure State where
  db : Sqlite
  transactionCount : ℕ
  insertPool : List ℕ
  /-- The number of statements that have been prepared. -/
  prepared : ℕ
  /-- The statements of the `TableInsert` objects. -/
  stmt : ℕ → Option ℕ
  closed : Bool
  /-- What has been bound through an object since its last execution. -/
  bound : ℕ → Bindings
  /-- The rows that the executions ought to add. -/
  executed : List Row

/-- An open database with no rows. -/
def State.start : State where
  db := ⟨fun _ => noBindings, false, [], []⟩
  transactionCount := 0
  insertPool := []
  prepared := 0
  stmt := fun _ => none
  closed := false
  bound := fun _ => noBindings
  executed := []

/-! ## The database -/

namespace Sqlite

/-- `BEGIN TRANSACTION`; an error inside of one. -/
def beginTransaction (db : Sqlite) : Sqlite := { db with inTransaction := true }

/-- `END TRANSACTION`; an error outside of one. -/
def endTransaction (db : Sqlite) : Sqlite :=
  if db.inTransaction then
    { db with inTransaction := false, pending := [], committed := db.committed ++ db.pending }
  else db

/-- `sqlite3_step` of an insert: outside of a transaction the row is committed at once. -/
def stepInsert (columns : List Text) (stmt : ℕ) (db : Sqlite) : Sqlite :=
  let row := columns.map (db.bindings stmt)
  if db.inTransaction then { db with pending := db.pending ++ [row] }
  else { db with committed := db.committed ++ [row] }

/-- `sqlite3_clear_bindings`. -/
def clearBindings (stmt : ℕ) (db : Sqlite) : Sqlite :=
  { db with bindings := Function.update db.bindings stmt noBindings }

/-- `sqlite3_bind_*`: a field that is no parameter is refused. -/
def bind (columns : List Text) (stmt : ℕ) (field : Text) (val : Option Value) (db : Sqlite) :
    Sqlite :=
  if field ∈ columns then
    { db with
      bindings := Function.update db.bindings stmt
        (Function.update (db.bindings stmt) field val) }
  else db

end Sqlite

namespace State

/-- `SQLiteDatabase::Flush_`. -/
def flush_ (s : State) : State :=
  if s.transactionCount = 0 then s
  else { s with db := s.db.endTransaction, transactionCount := 0 }

/-- `SQLiteDatabase::ExecuteSqlStatement`. -/
def executeSqlStatement (columns : List Text) (stmt : ℕ) (flush : Bool) (s : State) : State :=
  let db := if s.transactionCount = 0 then s.db.beginTransaction else s.db
  let db := (db.stepInsert columns stmt).clearBindings stmt
  let s := { s with db := db, transactionCount := s.transactionCount + 1 }
  if flush ∨ 1000 ≤ s.transactionCount then s.flush_ else s

/-- `Table::get_table_insert_statement`: the front of the pool, or else a new statement. -/
def getTableInsertStatement (s : State) : ℕ × State :=
  match s.insertPool with
  | [] => (s.prepared, { s with prepared := s.prepared + 1 })
  | stmt :: pool => (stmt, { s with insertPool := pool })

/-- `Table::free_table_insert_statement`. -/
def freeTableInsertStatement (stmt : ℕ) (s : State) : State :=
  { s with insertPool := s.insertPool ++ [stmt] }

end State

/-! ## Runs -/

/-- What is done with one table. The objects are numbered. -/
inductive Event
  | getInsertStatement (object : ℕ)
  | bind (object : ℕ) (field : Text) (val : Argument)
  | execute (object : ℕ) (flush : Bool)
  /-- The object's destructor. -/
  | destroy (object : ℕ)
  | flush
  /-- The database's destructor. -/
  | close

/-- One event. An object is used from its constructor to its destructor, and nothing is done with
the database after its own. -/
def step (columns : List Text) (s : State) (e : Event) : Option State :=
  if s.closed then none else match e with
  | .getInsertStatement o => match s.stmt o with
    | some _ => none
    | none =>
      let (stmt, s) := s.getTableInsertStatement
      some { s with
        stmt := Function.update s.stmt o (some stmt)
        bound := Function.update s.bound o noBindings }
  | .bind o field val => (s.stmt o).map fun stmt =>
    { s with
      db := s.db.bind columns stmt field val.value
      bound := if field ∈ columns then
          Function.update s.bound o (Function.update (s.bound o) field val.value)
        else s.bound }
  | .execute o flush => (s.stmt o).map fun stmt =>
    { s.executeSqlStatement columns stmt flush with
      bound := Function.update s.bound o noBindings
      executed := s.executed ++ [columns.map (s.bound o)] }
  | .destroy o => (s.stmt o).map fun stmt =>
    { s.freeTableInsertStatement stmt with stmt := Function.update s.stmt o none }
  | .flush => some s.flush_
  | .close => some { s.flush_ with closed := true }

/-- The runs of calls and of the database's thread. -/
def lts (columns : List Text) : Lts State Event := .ofFun .start (step columns)

/-- What was bound through an object has been executed when it is destroyed. -/
def Executed (s : State) (e : Event) : Prop := ∀ o, e = .destroy o → s.bound o = noBindings

/-! ## Transactions -/

/-- A transaction is open exactly while rows are counted. -/
structure Counts (db : Sqlite) (count : ℕ) : Prop where
  inTransaction : db.inTransaction = true ↔ 0 < count
  pending : count = 0 → db.pending = []

section Transactions

variable {s : State}

/-- A flush commits the open rows, and leaves everything else as it is. -/
theorem flush_spec (h : Counts s.db s.transactionCount) :
    ∃ db, s.flush_ = { s with db := db, transactionCount := 0 } ∧ Counts db 0 ∧
      db.bindings = s.db.bindings ∧ db.committed = s.db.committed ++ s.db.pending ∧
      db.pending = [] := by
  unfold State.flush_
  split
  · next hzero =>
    rw [hzero] at h
    refine ⟨s.db, by rw [← hzero], h, rfl, ?_, h.pending rfl⟩
    rw [h.pending rfl, List.append_nil]
  · next hpos =>
    have hopen : s.db.inTransaction = true := h.inTransaction.mpr (Nat.pos_of_ne_zero hpos)
    rw [Sqlite.endTransaction, if_pos hopen]
    exact ⟨_, rfl, ⟨by simp, fun _ => rfl⟩, rfl, rfl, rfl⟩

/-- An execution adds the row of the statement, and clears its bindings. -/
theorem executeSqlStatement_spec (columns : List Text) (stmt : ℕ) (flush : Bool)
    (h : Counts s.db s.transactionCount) :
    ∃ db count, s.executeSqlStatement columns stmt flush =
        { s with db := db, transactionCount := count } ∧ Counts db count ∧
      db.bindings = Function.update s.db.bindings stmt noBindings ∧
      db.committed ++ db.pending =
        s.db.committed ++ s.db.pending ++ [columns.map (s.db.bindings stmt)] := by
  have hopen : (if s.transactionCount = 0 then s.db.beginTransaction else s.db) =
      { s.db with inTransaction := true } := by
    split
    · rfl
    · next hpos =>
      have := h.inTransaction.mpr (Nat.pos_of_ne_zero hpos)
      rw [← this]
  unfold State.executeSqlStatement
  rw [hopen]
  simp only [Sqlite.stepInsert, Sqlite.clearBindings, if_true]
  split
  · have hcounts : Counts ⟨Function.update s.db.bindings stmt noBindings, true,
        s.db.pending ++ [columns.map (s.db.bindings stmt)], s.db.committed⟩
        (s.transactionCount + 1) := ⟨by simp, nofun⟩
    obtain ⟨db, hflush, hdb, hbindings, hcommitted, hpending⟩ :=
      flush_spec (s := { s with
        db := ⟨Function.update s.db.bindings stmt noBindings, true,
          s.db.pending ++ [columns.map (s.db.bindings stmt)], s.db.committed⟩
        transactionCount := s.transactionCount + 1 }) hcounts
    refine ⟨db, 0, hflush, hdb, hbindings, ?_⟩
    rw [hpending, hcommitted, List.append_nil, List.append_assoc]
  · exact ⟨_, _, rfl, ⟨by simp, nofun⟩, rfl, by simp⟩

end Transactions

/-! ## Every run -/

/-- Each statement is in the pool once, or belongs to one object. -/
structure Kept (s : State) : Prop where
  nodup : s.insertPool.Nodup
  pool_lt : ∀ i ∈ s.insertPool, i < s.prepared
  stmt_lt : ∀ {o i}, s.stmt o = some i → i < s.prepared
  stmt_notMem : ∀ {o i}, s.stmt o = some i → i ∉ s.insertPool
  stmt_inj : ∀ {o o' i}, s.stmt o = some i → s.stmt o' = some i → o = o'
  counts : Counts s.db s.transactionCount

/-- What is bound through an object is bound to its statement, and the rows are as bound. -/
structure AsBound (s : State) : Prop where
  fresh : ∀ i, s.prepared ≤ i → s.db.bindings i = noBindings
  pool : ∀ i ∈ s.insertPool, s.db.bindings i = noBindings
  bound : ∀ {o i}, s.stmt o = some i → s.db.bindings i = s.bound o
  rows : s.db.committed ++ s.db.pending = s.executed

/-- The statement that an object is given is no other object's, and is not in the pool. -/
theorem getTableInsertStatement_spec {s s' : State} {i : ℕ} (hkept : Kept s)
    (h : s.getTableInsertStatement = (i, s')) :
    ∃ pool prepared, s' = { s with insertPool := pool, prepared := prepared } ∧
      s.prepared ≤ prepared ∧ i < prepared ∧ pool.Nodup ∧ i ∉ pool ∧ pool ⊆ s.insertPool ∧
      (∀ o, s.stmt o ≠ some i) ∧ (s.prepared ≤ i ∨ i ∈ s.insertPool) := by
  unfold State.getTableInsertStatement at h
  split at h
  · next hpool =>
    cases h
    refine ⟨s.insertPool, s.prepared + 1, rfl, Nat.le_succ _, Nat.lt_succ_self _, hkept.nodup, ?_,
      List.Subset.refl _, fun o ho => ?_, .inl (Nat.le_refl _)⟩
    · simp [hpool]
    · exact Nat.lt_irrefl _ (hkept.stmt_lt ho)
  · next stmt pool hpool =>
    cases h
    have hnodup := hkept.nodup
    rw [hpool, List.nodup_cons] at hnodup
    have hmem : i ∈ s.insertPool := by simp [hpool]
    refine ⟨pool, s.prepared, rfl, Nat.le_refl _, hkept.pool_lt i hmem, hnodup.2, hnodup.1, ?_,
      fun o ho => hkept.stmt_notMem ho hmem, .inr hmem⟩
    rw [hpool]
    exact List.subset_cons_self _ _

/-- What one event does. The database changes only by what stands in `db`, `count`. -/
theorem step_cases {columns : List Text} {s s' : State} {e : Event} (hkept : Kept s)
    (h : step columns s e = some s') :
    match e with
    | .getInsertStatement o => ∃ i pool prepared,
        s' = { s with
          insertPool := pool
          prepared := prepared
          stmt := Function.update s.stmt o (some i)
          bound := Function.update s.bound o noBindings } ∧
        s.prepared ≤ prepared ∧ i < prepared ∧ pool.Nodup ∧ i ∉ pool ∧ pool ⊆ s.insertPool ∧
        (∀ o, s.stmt o ≠ some i) ∧ (s.prepared ≤ i ∨ i ∈ s.insertPool)
    | .bind o field val => ∃ i, s.stmt o = some i ∧ s' = { s with
        db := s.db.bind columns i field val.value
        bound := if field ∈ columns then
            Function.update s.bound o (Function.update (s.bound o) field val.value)
          else s.bound }
    | .execute o _ => ∃ i db count, s.stmt o = some i ∧
        s' = { s with
          db := db
          transactionCount := count
          bound := Function.update s.bound o noBindings
          executed := s.executed ++ [columns.map (s.bound o)] } ∧
        Counts db count ∧ db.bindings = Function.update s.db.bindings i noBindings ∧
        db.committed ++ db.pending =
          s.db.committed ++ s.db.pending ++ [columns.map (s.db.bindings i)]
    | .destroy o => ∃ i, s.stmt o = some i ∧ s' = { s with
        insertPool := s.insertPool ++ [i]
        stmt := Function.update s.stmt o none }
    | .flush | .close => ∃ db closed, s' = { s with
          db := db
          transactionCount := 0
          closed := closed } ∧
        Counts db 0 ∧ db.bindings = s.db.bindings ∧
        db.committed = s.db.committed ++ s.db.pending ∧ db.pending = [] := by
  unfold step at h
  split at h
  · cases h
  · cases e with
    | getInsertStatement o =>
      cases ho : s.stmt o with
      | some i => simp [ho] at h
      | none =>
        rcases hget : s.getTableInsertStatement with ⟨i, s₁⟩
        obtain ⟨pool, prepared, rfl, hspec⟩ := getTableInsertStatement_spec hkept hget
        simp only [ho, hget, Option.some.injEq] at h
        exact ⟨i, pool, prepared, h.symm, hspec⟩
    | bind o field val =>
      obtain ⟨i, hi, rfl⟩ := Option.map_eq_some_iff.mp h
      exact ⟨i, hi, rfl⟩
    | execute o flush =>
      obtain ⟨i, hi, rfl⟩ := Option.map_eq_some_iff.mp h
      obtain ⟨db, count, hs, hspec⟩ := executeSqlStatement_spec columns i flush hkept.counts
      exact ⟨i, db, count, hi, by rw [hs], hspec⟩
    | destroy o =>
      obtain ⟨i, hi, rfl⟩ := Option.map_eq_some_iff.mp h
      exact ⟨i, hi, rfl⟩
    | flush =>
      obtain ⟨db, hs, hspec⟩ := flush_spec hkept.counts
      cases h
      exact ⟨db, s.closed, hs, hspec⟩
    | close =>
      obtain ⟨db, hs, hspec⟩ := flush_spec hkept.counts
      cases h
      exact ⟨db, true, by rw [hs], hspec⟩

theorem kept_step {columns : List Text} {s s' : State} {e : Event} (hs : Kept s)
    (h : step columns s e = some s') : Kept s' := by
  have hcases := step_cases hs h
  cases e with
  | getInsertStatement o =>
    obtain ⟨i, pool, prepared, rfl, hle, hlt, hnodup, hi, hsub, hfree, -⟩ := hcases
    -- the new object has the statement, and the other objects have theirs
    have hstmt : ∀ {o' j}, Function.update s.stmt o (some i) o' = some j →
        (o' = o ∧ j = i) ∨ (o' ≠ o ∧ s.stmt o' = some j) := by
      intro o' j hj
      rw [Function.update_apply] at hj
      split at hj
      · next heq => exact .inl ⟨heq, (Option.some.inj hj).symm⟩
      · next hne => exact .inr ⟨hne, hj⟩
    refine ⟨hnodup, fun j hj => (hs.pool_lt j (hsub hj)).trans_le hle, ?_, ?_, ?_, hs.counts⟩
    · intro o' j hj
      rcases hstmt hj with ⟨rfl, rfl⟩ | ⟨-, hj⟩
      · exact hlt
      · exact (hs.stmt_lt hj).trans_le hle
    · intro o' j hj hmem
      rcases hstmt hj with ⟨rfl, rfl⟩ | ⟨-, hj⟩
      · exact hi hmem
      · exact hs.stmt_notMem hj (hsub hmem)
    · intro o₁ o₂ j h₁ h₂
      rcases hstmt h₁ with ⟨rfl, rfl⟩ | ⟨-, hj₁⟩ <;> rcases hstmt h₂ with ⟨rfl, heq⟩ | ⟨-, hj₂⟩
      · rfl
      · exact absurd hj₂ (hfree o₂)
      · exact absurd (heq ▸ hj₁) (hfree o₁)
      · exact hs.stmt_inj hj₁ hj₂
  | bind o field val =>
    obtain ⟨i, hi, rfl⟩ := hcases
    refine ⟨hs.nodup, hs.pool_lt, hs.stmt_lt, hs.stmt_notMem, hs.stmt_inj, ?_⟩
    unfold Sqlite.bind
    split <;> exact ⟨hs.counts.inTransaction, hs.counts.pending⟩
  | execute o flush =>
    obtain ⟨i, db, count, hi, rfl, hcounts, -, -⟩ := hcases
    exact ⟨hs.nodup, hs.pool_lt, hs.stmt_lt, hs.stmt_notMem, hs.stmt_inj, hcounts⟩
  | destroy o =>
    obtain ⟨i, hi, rfl⟩ := hcases
    have hstmt : ∀ {o' j}, Function.update s.stmt o none o' = some j →
        o' ≠ o ∧ s.stmt o' = some j := by
      intro o' j hj
      rw [Function.update_apply] at hj
      split at hj
      · cases hj
      · next hne => exact ⟨hne, hj⟩
    refine ⟨?_, ?_, fun hj => hs.stmt_lt (hstmt hj).2, ?_,
      fun h₁ h₂ => hs.stmt_inj (hstmt h₁).2 (hstmt h₂).2, hs.counts⟩
    · exact List.nodup_append.mpr ⟨hs.nodup, List.nodup_singleton i, fun j hj k hk => by
        rw [List.mem_singleton.mp hk]
        rintro rfl
        exact hs.stmt_notMem hi hj⟩
    · intro j hj
      rcases List.mem_append.mp hj with hj | hj
      · exact hs.pool_lt j hj
      · rw [List.mem_singleton.mp hj]
        exact hs.stmt_lt hi
    · intro o' j hj hmem
      obtain ⟨hne, hj⟩ := hstmt hj
      rcases List.mem_append.mp hmem with hmem | hmem
      · exact hs.stmt_notMem hj hmem
      · rw [List.mem_singleton.mp hmem] at hj
        exact hne (hs.stmt_inj hj hi)
  | flush =>
    obtain ⟨db, closed, rfl, hcounts, -⟩ := hcases
    exact ⟨hs.nodup, hs.pool_lt, hs.stmt_lt, hs.stmt_notMem, hs.stmt_inj, hcounts⟩
  | close =>
    obtain ⟨db, closed, rfl, hcounts, -⟩ := hcases
    exact ⟨hs.nodup, hs.pool_lt, hs.stmt_lt, hs.stmt_notMem, hs.stmt_inj, hcounts⟩

theorem kept_start : Kept .start where
  nodup := List.nodup_nil
  pool_lt := nofun
  stmt_lt := nofun
  stmt_notMem := nofun
  stmt_inj := nofun
  counts := ⟨⟨nofun, fun h => absurd h (Nat.lt_irrefl 0)⟩, fun _ => rfl⟩

/-- **In every run each statement is in the pool once, or belongs to one object.** -/
theorem kept {columns : List Text} {s : State} (h : (lts columns).Reach s) : Kept s :=
  Lts.InductiveBy.reach (I := Kept) ⟨by rintro s rfl; exact kept_start, fun hs _ => kept_step hs⟩ h

/-! ## Runs that destroy no bindings -/

/-- New bindings of the statement of an object are no other object's. -/
theorem AsBound.update {s : State} (hkept : Kept s) (hs : AsBound s) {o i : ℕ}
    (hi : s.stmt o = some i) {b : Bindings} {db : Sqlite} {count : ℕ} {executed : List Row}
    (hbindings : db.bindings = Function.update s.db.bindings i b)
    (hrows : db.committed ++ db.pending = executed) :
    AsBound { s with
      db := db
      transactionCount := count
      bound := Function.update s.bound o b
      executed := executed } := by
  have hother : ∀ j, j ≠ i → db.bindings j = s.db.bindings j := by
    intro j hj
    rw [hbindings, Function.update_of_ne hj]
  refine ⟨fun j hj => ?_, fun j hj => ?_, fun {o' j} hj => ?_, hrows⟩
  · have hne : j ≠ i := by
      rintro rfl
      exact absurd (hkept.stmt_lt hi) (Nat.not_lt.mpr hj)
    exact (hother j hne).trans (hs.fresh j hj)
  · have hne : j ≠ i := by
      rintro rfl
      exact hkept.stmt_notMem hi hj
    exact (hother j hne).trans (hs.pool j hj)
  · by_cases ho : o' = o
    · subst ho
      obtain rfl : i = j := Option.some.inj (hi.symm.trans hj)
      simp [hbindings]
    · have hne : j ≠ i := by
        rintro rfl
        exact ho (hkept.stmt_inj hj hi)
      simpa [ho] using (hother j hne).trans (hs.bound hj)

theorem asBound_step {columns : List Text} {s s' : State} {e : Event} (hkept : Kept s)
    (hs : AsBound s) (hexecuted : Executed s e) (h : step columns s e = some s') : AsBound s' := by
  have hcases := step_cases hkept h
  cases e with
  | getInsertStatement o =>
    obtain ⟨i, pool, prepared, rfl, hle, hlt, -, hi, hsub, hfree, hnew⟩ := hcases
    have hclear : s.db.bindings i = noBindings := hnew.elim (hs.fresh i) (hs.pool i)
    refine ⟨fun j hj => hs.fresh j (hle.trans hj), fun j hj => hs.pool j (hsub hj), ?_, hs.rows⟩
    intro o' j hj
    simp only [Function.update_apply] at hj ⊢
    split at hj
    · cases hj
      next heq => rw [if_pos heq, hclear]
    · next hne =>
      rw [if_neg hne]
      exact hs.bound hj
  | bind o field val =>
    obtain ⟨i, hi, rfl⟩ := hcases
    by_cases hfield : field ∈ columns
    · simp only [Sqlite.bind, hfield, if_true]
      exact hs.update hkept hi (by rw [hs.bound hi]) hs.rows
    · simp only [Sqlite.bind, hfield, if_false]
      exact ⟨hs.fresh, hs.pool, hs.bound, hs.rows⟩
  | execute o flush =>
    obtain ⟨i, db, count, hi, rfl, -, hbindings, hrows⟩ := hcases
    exact hs.update hkept hi hbindings (by rw [hrows, hs.rows, hs.bound hi])
  | destroy o =>
    obtain ⟨i, hi, rfl⟩ := hcases
    refine ⟨hs.fresh, fun j hj => ?_, fun {o' j} hj => ?_, hs.rows⟩
    · rcases List.mem_append.mp hj with hj | hj
      · exact hs.pool j hj
      · rw [List.mem_singleton.mp hj, ← hexecuted o rfl]
        exact hs.bound hi
    · simp only [Function.update_apply] at hj
      split at hj
      · cases hj
      · exact hs.bound hj
  | flush =>
    obtain ⟨db, closed, rfl, -, hbindings, hcommitted, hpending⟩ := hcases
    refine ⟨by simpa [hbindings] using hs.fresh, by simpa [hbindings] using hs.pool,
      fun hj => (congrFun hbindings _).trans (hs.bound hj), ?_⟩
    simpa [hcommitted, hpending] using hs.rows
  | close =>
    obtain ⟨db, closed, rfl, -, hbindings, hcommitted, hpending⟩ := hcases
    refine ⟨by simpa [hbindings] using hs.fresh, by simpa [hbindings] using hs.pool,
      fun hj => (congrFun hbindings _).trans (hs.bound hj), ?_⟩
    simpa [hcommitted, hpending] using hs.rows

theorem asBound_start : AsBound .start where
  fresh _ _ := rfl
  pool := nofun
  bound := nofun
  rows := rfl

theorem asBound {columns : List Text} {s : State} (h : (lts columns).ReachBy Executed s) :
    AsBound s := by
  have hboth : (lts columns).InductiveBy Executed fun s => Kept s ∧ AsBound s :=
    ⟨by rintro s rfl; exact ⟨kept_start, asBound_start⟩,
      fun hs he hstep => ⟨kept_step hs.1 hstep, asBound_step hs.1 hs.2 he hstep⟩⟩
  exact (hboth.reach h).2

/-- **Where no object is destroyed with bindings that were not executed, the rows are as bound, each
one is committed by the next flush or by the database's destructor, and no statement is in the pool
twice.** -/
theorem rows_eq_executed {columns : List Text} {s : State}
    (h : (lts columns).ReachBy Executed s) :
    s.db.committed ++ s.db.pending = s.executed ∧ s.insertPool.Nodup ∧
      ∀ e s', e = .flush ∨ e = .close → step columns s e = some s' →
        s'.db.committed = s.executed ∧ s'.db.pending = [] := by
  have hkept := kept h.reach
  have hrows := (asBound h).rows
  refine ⟨hrows, hkept.nodup, ?_⟩
  rintro e s' he hstep
  have hcases := step_cases hkept hstep
  rcases he with rfl | rfl
  · obtain ⟨db, closed, rfl, -, -, hcommitted, hpending⟩ := hcases
    exact ⟨hcommitted.trans hrows, hpending⟩
  · obtain ⟨db, closed, rfl, -, -, hcommitted, hpending⟩ := hcases
    exact ⟨hcommitted.trans hrows, hpending⟩

/-- The second object gets the statement of the first one, which was executed before it was destroyed,
and binds its own value. -/
theorem rows_eq_executed_ports : ∃ s, (lts [":port".toList]).ReachBy Executed s ∧
    s.executed = [[some (.integer 80)], [some (.integer 443)]] ∧
    (s.db.committed ++ s.db.pending = s.executed ∧ s.insertPool.Nodup ∧
      ∀ e s', e = .flush ∨ e = .close → step [":port".toList] s e = some s' →
        s'.db.committed = s.executed ∧ s'.db.pending = []) := by
  have hget := Lts.ReachBy.step (.getInsertStatement 0)
    (.init rfl : (lts [":port".toList]).ReachBy Executed .start) nofun rfl
  have hbind := Lts.ReachBy.step (.bind 0 ":port".toList (.int 80)) hget nofun rfl
  have hexecute := Lts.ReachBy.step (.execute 0 false) hbind nofun rfl
  have hdestroy := Lts.ReachBy.step (.destroy 0) hexecute (by rintro o h; cases h; rfl) (by rfl)
  have hagain := Lts.ReachBy.step (.getInsertStatement 1) hdestroy nofun rfl
  have hbound := Lts.ReachBy.step (.bind 1 ":port".toList (.int 443)) hagain nofun rfl
  have hexecuted := Lts.ReachBy.step (.execute 1 false) hbound nofun rfl
  exact ⟨_, hexecuted, rfl, rows_eq_executed hexecuted⟩

/-- The second object has bound nothing, and its row has what the first one bound. -/
theorem not_rows_eq_executed : ¬ ∀ columns s, (lts columns).Reach s →
    s.db.committed ++ s.db.pending = s.executed := by
  intro h
  have hget := Lts.Reach.next (L := lts [":port".toList]) (.init rfl) (.getInsertStatement 0) rfl
  have hbind := hget.next (.bind 0 ":port".toList (.int 80)) rfl
  have hdestroy := hbind.next (.destroy 0) rfl
  have hagain := hdestroy.next (.getInsertStatement 1) rfl
  have hexecute := hagain.next (.execute 1 false) rfl
  have hrows : [[some (Value.integer 80)]] = [[none]] := h _ _ hexecute
  cases hrows

end Sem.Logan.InsertPool

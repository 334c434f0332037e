import SqlApi.Core.RecordTypes
import SqlApi.Server.Classify

/-!
# `db_server.c`: executing one query

`dbServerExecute` is the call as one thread sees it. Whether the lock was obtained
before the timeout is an argument: it is up to the other threads and the clock. The
steps of the call are definitions of their own, so that the calls of several threads
can be interleaved.

`SqlOutcome` lists what a call that has the lock can do to the table; it is what the modules about
responses, ids and serial runs start from.
-/

namespace SqlApi.Server

open SqlApi.Lib SqlApi.Core

/-! ## Data -/

/-- `enum DBServerExecStatus` -/
inductive DBServerExecStatus where
  | ok | lockTimeout | error
  deriving DecidableEq, Repr

/-- `struct DBServerExecution`; the message is without its terminator. -/
structure DBServerExecution where
  result : SQLResult
  usedIndex : Bool
  isWrite : Bool
  serverStatus : DBServerExecStatus
  message : List UInt8
  deriving DecidableEq

/-- `struct DBServerMetrics` -/
structure DBServerMetrics where
  totalRequests : UInt64
  totalHealthRequests : UInt64
  totalMetricsRequests : UInt64
  totalQueryRequests : UInt64
  totalSelectRequests : UInt64
  totalInsertRequests : UInt64
  totalErrors : UInt64
  totalSyntaxErrors : UInt64
  totalQueryErrors : UInt64
  totalInternalErrors : UInt64
  totalNotFoundResults : UInt64
  totalQueueFull : UInt64
  totalLockTimeouts : UInt64
  activeQueryRequests : UInt64
  deriving DecidableEq

/-- The state of a server that outlives a call. -/
structure DBServer where
  memory : Memory
  metrics : DBServerMetrics

/-- `db_server_init` -/
def dbServerInit : DBServer := ⟨tableCreate, ⟨0, 0, 0, 0, 0, 0, 0, 0, 0, 0, 0, 0, 0, 0⟩⟩

/-! ## Steps of a call -/

/-- `db_server_zero_execution` -/
def dbServerZeroExecution : DBServerExecution where
  result := sqlMakeResult .error .none
  usedIndex := false
  isWrite := false
  serverStatus := .error
  message := snprintf 128 (bytes "Execution not started")

/-- The execution before the lock is asked for. -/
def dbServerBegin (query : Cursor) : DBServerExecution :=
  { dbServerZeroExecution with
    usedIndex := dbServerGuessUsesIndex query
    isWrite := dbServerClassifyQuery query == .write }

/-- The execution after a timeout. -/
def dbServerTimeout (execution : DBServerExecution) : DBServerExecution :=
  { execution with
    serverStatus := .lockTimeout
    result := { execution.result with status := .error, action := .none }
    message := snprintf 128 (bytes "Lock wait timeout exceeded") }

/-- The execution with a result. -/
def dbServerDone (execution : DBServerExecution) (result : SQLResult) : DBServerExecution :=
  { execution with result, serverStatus := .ok, message := snprintf 128 (bytes "OK") }

/-- `db_server_metrics_query_started` -/
def dbServerMetricsQueryStarted (kind : DBServerQueryKind) (metrics : DBServerMetrics) :
    DBServerMetrics :=
  let metrics := { metrics with
    totalRequests := metrics.totalRequests + 1
    totalQueryRequests := metrics.totalQueryRequests + 1
    activeQueryRequests := metrics.activeQueryRequests + 1 }
  -- every query is counted, and one of a known kind once more
  match kind with
  | .write => { metrics with totalInsertRequests := metrics.totalInsertRequests + 1 }
  | .read => { metrics with totalSelectRequests := metrics.totalSelectRequests + 1 }
  | .none => metrics

/-- `db_server_metrics_query_finished` -/
def dbServerMetricsQueryFinished (execution : DBServerExecution) (metrics : DBServerMetrics) :
    DBServerMetrics :=
  let metrics :=
    -- the gauge never goes below zero
    if metrics.activeQueryRequests > 0 then
      { metrics with activeQueryRequests := metrics.activeQueryRequests - 1 }
    else metrics
  if execution.serverStatus = .lockTimeout then
    { metrics with
      totalErrors := metrics.totalErrors + 1
      totalLockTimeouts := metrics.totalLockTimeouts + 1 }
  else
    match execution.result.status with
    -- no rows found is counted, but is no error
    | .notFound => { metrics with totalNotFoundResults := metrics.totalNotFoundResults + 1 }
    | .syntaxError =>
      { metrics with
        totalErrors := metrics.totalErrors + 1
        totalSyntaxErrors := metrics.totalSyntaxErrors + 1 }
    -- EXIT and QUIT count as query errors here
    | .queryError | .exit =>
      { metrics with
        totalErrors := metrics.totalErrors + 1
        totalQueryErrors := metrics.totalQueryErrors + 1 }
    | .error =>
      { metrics with
        totalErrors := metrics.totalErrors + 1
        totalInternalErrors := metrics.totalInternalErrors + 1 }
    | .ok => metrics

/-- The return value of `db_server_try_acquire_lock`; `granted` says whether one of the
attempts succeeded before the timeout. -/
def dbServerTryAcquireLock (kind : DBServerQueryKind) (granted : Bool) : Bool :=
  kind == .none || granted

/-- `db_server_execute` -/
def dbServerExecute (granted : Bool) (query : Cursor) (server : DBServer) :
    Option (DBServerExecution × DBServer) :=
  let kind := dbServerClassifyQuery query
  let execution := dbServerBegin query
  let metrics := dbServerMetricsQueryStarted kind server.metrics
  if dbServerTryAcquireLock kind granted then
    ((sqlExecute query).run server.memory).map fun (result, memory) =>
      let execution := dbServerDone execution result
      (execution, ⟨memory, dbServerMetricsQueryFinished execution metrics⟩)
  else
    -- without the lock the table is not touched
    let execution := dbServerTimeout execution
    some (execution, ⟨server.memory, dbServerMetricsQueryFinished execution metrics⟩)

/-- A call that gets no lock. -/
theorem dbServerExecute_of_timeout {granted : Bool} {query : Cursor} (server : DBServer)
    (hlock : dbServerTryAcquireLock (dbServerClassifyQuery query) granted = false) :
    ∃ metrics, dbServerExecute granted query server =
      some (dbServerTimeout (dbServerBegin query), ⟨server.memory, metrics⟩) := by
  unfold dbServerExecute
  dsimp only
  rw [hlock]
  exact ⟨_, rfl⟩

/-- A call that gets its lock, or needs none. -/
theorem dbServerExecute_of_lock {granted : Bool} {query : Cursor} {server : DBServer}
    {result : SQLResult} {m' : Memory}
    (hlock : dbServerTryAcquireLock (dbServerClassifyQuery query) granted = true)
    (hrun : (sqlExecute query).run server.memory = some (result, m')) :
    ∃ metrics, dbServerExecute granted query server =
      some (dbServerDone (dbServerBegin query) result, ⟨m', metrics⟩) := by
  unfold dbServerExecute
  dsimp only
  rw [hlock, hrun]
  exact ⟨_, rfl⟩

/-- There are no other calls. -/
theorem dbServerExecute_eq_some {granted : Bool} {query : Cursor} {server server' : DBServer}
    {execution : DBServerExecution}
    (h : dbServerExecute granted query server = some (execution, server')) :
    (dbServerTryAcquireLock (dbServerClassifyQuery query) granted = false ∧
      execution = dbServerTimeout (dbServerBegin query) ∧ server'.memory = server.memory) ∨
    (dbServerTryAcquireLock (dbServerClassifyQuery query) granted = true ∧
      ∃ result, (sqlExecute query).run server.memory = some (result, server'.memory) ∧
        execution = dbServerDone (dbServerBegin query) result) := by
  cases hlock : dbServerTryAcquireLock (dbServerClassifyQuery query) granted with
  | false =>
    obtain ⟨metrics, hexecute⟩ := dbServerExecute_of_timeout server hlock
    obtain ⟨rfl, rfl⟩ := Prod.mk.inj (Option.some.inj (hexecute.symm.trans h))
    exact .inl ⟨rfl, rfl, rfl⟩
  | true =>
    have hcall := h
    unfold dbServerExecute at hcall
    dsimp only at hcall
    rw [hlock, if_pos rfl] at hcall
    obtain ⟨⟨result, m'⟩, hrun, heq⟩ := Option.map_eq_some_iff.mp hcall
    obtain ⟨rfl, rfl⟩ := Prod.mk.inj heq
    exact .inr ⟨rfl, result, hrun, rfl⟩

/-- The servers that queries lead to. -/
inductive DBServer.Reachable : DBServer → Prop
  | init : DBServer.Reachable dbServerInit
  | execute {server server' : DBServer} (granted : Bool) (query : Cursor)
      (execution : DBServerExecution) : DBServer.Reachable server →
      dbServerExecute granted query server = some (execution, server') →
      DBServer.Reachable server'

/-! ## What a call does -/

section Outcome

variable {m : Memory} {rows : Rows}

/-- What `sql_execute` does to a table: nothing, or one row more. -/
inductive SqlOutcome (query : Cursor) (m : Memory) (rows : Rows) (result : SQLResult) (m' : Memory) :
    Prop
  -- the text is refused and the memory stays as it is
  | error : sqlParse query = .error result → m' = m → SqlOutcome query m rows result m'
  -- the rows found are some of the table, which stays as it is
  | select (query' : SqlSelect) (found : Rows) : sqlParse query = .ok (.select query') →
      found ⊆ rows → result = sqlSelectResult query'.emptyStatus (some (found.map Prod.fst)) →
      m' = m → SqlOutcome query m rows result m'
  -- one row is added, with the number of rows plus one as its id
  | insert (name : List UInt8) (age : Int) (record : RecPtr) :
      sqlParse query = .ok (.insert name age) →
      result = sqlInserted record (wrapInt (rows.length + 1)) →
      TableInv m' (rows ++ [(record, newRecord (wrapInt (rows.length + 1)) name age)]) →
      Numbered m' (rows ++ [(record, newRecord (wrapInt (rows.length + 1)) name age)]) →
      SqlOutcome query m rows result m'
  -- the ids have come round to one that is taken
  | full (name : List UInt8) (age : Int) : sqlParse query = .ok (.insert name age) →
      rows.length = 2 ^ 32 → result = { sqlNoResult with status := .error } →
      TableInv m' rows → Numbered m' rows → SqlOutcome query m rows result m'

/-- `sql_execute` always returns, with one of these outcomes. -/
theorem run_sqlExecute (hm : TableInv m rows) (hn : Numbered m rows) (hok : m.NoFailure)
    (query : Cursor) :
    ∃ result m', (sqlExecute query).run m = some (result, m') ∧
      SqlOutcome query m rows result m' := by
  rw [sqlExecute_eq]
  cases hparse : sqlParse query with
  | error result => exact ⟨result, m, rfl, .error hparse rfl⟩
  | ok statement =>
    cases statement with
    | select query' =>
      obtain ⟨found, hrun, hfound, -⟩ := hm.run_select hok query'
      have hsub : found ⊆ rows := fun row hrow =>
        (List.mem_filter.mp (hfound.mem_iff.mp hrow)).1
      exact ⟨_, m, hrun, .select query' found hparse hsub rfl rfl⟩
    | insert name age =>
      rcases lt_or_eq_of_le hn.bound with hroom | hfull
      · obtain ⟨m', hrun, hm', hn'⟩ := hm.run_sqlInsertRow hn hok hroom name age
        exact ⟨_, m', hrun, .insert name age _ hparse rfl hm' hn'⟩
      · obtain ⟨m', hrun, hm', hn'⟩ := hm.run_sqlInsertRow_full hn hok hfull name age
        exact ⟨_, m', hrun, .full name age hparse hfull rfl hm' hn'⟩

/-- So that is what a run has done. -/
theorem sqlOutcome_of_run (hm : TableInv m rows) (hn : Numbered m rows) (hok : m.NoFailure)
    {query : Cursor} {result : SQLResult} {m' : Memory}
    (hrun : (sqlExecute query).run m = some (result, m')) : SqlOutcome query m rows result m' := by
  obtain ⟨_, _, hrun', houtcome⟩ := run_sqlExecute hm hn hok query
  obtain ⟨rfl, rfl⟩ := Prod.mk.inj (Option.some.inj (hrun'.symm.trans hrun))
  exact houtcome

/-- A result has no more records than the table has rows. -/
theorem length_records_le (hm : TableInv m rows) (hn : Numbered m rows) (hok : m.NoFailure)
    {query : Cursor} {result : SQLResult} {m' : Memory}
    (hrun : (sqlExecute query).run m = some (result, m')) : result.records.length ≤ rows.length := by
  cases sqlOutcome_of_run hm hn hok hrun with
  | error hparse _ =>
    rw [(sqlParse_error_noRows hparse).2.1]
    exact Nat.zero_le _
  | select query' found hparse _ _ _ =>
    obtain ⟨found', hselect, hfound, -⟩ := hm.run_select hok query'
    rw [sqlExecute_eq, hparse] at hrun
    obtain ⟨rfl, -⟩ := Prod.mk.inj (Option.some.inj (hselect.symm.trans hrun))
    change (found'.map Prod.fst).length ≤ rows.length
    rw [List.length_map, hfound.length_eq]
    exact List.length_filter_le _ _
  | insert _ _ _ _ hresult _ _ =>
    rw [hresult]
    exact Nat.zero_le _
  | full _ _ _ _ hresult _ _ =>
    rw [hresult]
    exact Nat.zero_le _

/-- So the rows that a SELECT found can be counted. -/
theorem length_found_le (hm : TableInv m rows) (hn : Numbered m rows) (hok : m.NoFailure)
    {query : Cursor} {empty : SQLStatus} {found : Rows} {m' : Memory}
    (hrun : (sqlExecute query).run m =
      some (sqlSelectResult empty (some (found.map Prod.fst)), m')) : found.length ≤ 2 ^ 32 := by
  have hlength := length_records_le hm hn hok hrun
  change (found.map Prod.fst).length ≤ rows.length at hlength
  rw [List.length_map] at hlength
  exact hlength.trans hn.bound

/-- The rows behind an outcome: the same ones, or one more with the values of an INSERT. -/
theorem SqlOutcome.appended {query : Cursor} {result : SQLResult} {m' : Memory}
    (h : SqlOutcome query m rows result m') (hm : TableInv m rows) (hn : Numbered m rows) :
    ∃ rows', TableInv m' rows' ∧ Numbered m' rows' ∧
      (rows' = rows ∨ ∃ record name age, sqlParse query = .ok (.insert name age) ∧
        rows' = rows ++ [(record, newRecord (wrapInt (rows.length + 1)) name age)]) := by
  cases h with
  | error _ hsame => exact ⟨rows, hsame ▸ hm, hsame ▸ hn, .inl rfl⟩
  | select _ _ _ _ _ hsame => exact ⟨rows, hsame ▸ hm, hsame ▸ hn, .inl rfl⟩
  | insert name age record hparse _ hm' hn' =>
    exact ⟨_, hm', hn', .inr ⟨record, name, age, hparse, rfl⟩⟩
  | full _ _ _ _ _ hm' hn' => exact ⟨rows, hm', hn', .inl rfl⟩

/-- The invariants survive every outcome. -/
theorem SqlOutcome.inv {query : Cursor} {result : SQLResult} {m' : Memory}
    (h : SqlOutcome query m rows result m') (hm : TableInv m rows) (hn : Numbered m rows) :
    ∃ rows', TableInv m' rows' ∧ Numbered m' rows' := by
  obtain ⟨rows', hm', hn', -⟩ := h.appended hm hn
  exact ⟨rows', hm', hn'⟩

/-- What holds of every server between calls. -/
theorem DBServer.Reachable.inv {server : DBServer} (h : server.Reachable) :
    server.memory.NoFailure ∧ ∃ rows, TableInv server.memory rows ∧
      Numbered server.memory rows := by
  induction h with
  | init => exact ⟨rfl, [], tableCreate_inv, tableCreate_numbered⟩
  | @execute server server' granted query execution _ hrun ih =>
    obtain ⟨hok, rows, hm, hn⟩ := ih
    rcases dbServerExecute_eq_some hrun with ⟨-, -, hsame⟩ | ⟨-, result, hsql, -⟩
    · rw [hsame]
      exact ⟨hok, rows, hm, hn⟩
    · exact ⟨hok.run hsql, (sqlOutcome_of_run hm hn hok hsql).inv hm hn⟩

/-- The table holds values of the C types. -/
theorem DBServer.Reachable.typed {server : DBServer} (h : server.Reachable) :
    server.memory.Typed := by
  induction h with
  | init => exact tableCreate_typed
  | @execute server server' granted query execution _ hrun ih =>
    rcases dbServerExecute_eq_some hrun with ⟨-, -, hsame⟩ | ⟨-, result, hsql, -⟩
    · rwa [hsame]
    · exact (typed_sqlExecute query).run ih hsql

end Outcome

end SqlApi.Server

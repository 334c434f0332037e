import SqlApi.Lib.Guarded
import SqlApi.Server.DBServer

/-!
# `db_server.c`: concurrent calls

Any number of workers call `db_server_execute` at the same time. A step of the system is
one of: the metrics at either end of a call, an attempt at the lock, a timeout, one
operation of `sql_execute`, the release of the lock. Steps of different workers come in
any order.

The lock and the table are an instance of programs under a readers–writer lock
(`dbServerGuarded`): queries of no kind do not touch the table, reads leave it alone.
-/

namespace SqlApi.Server

open SqlApi.Lib SqlApi.Core

/-! ## The system -/

/-- The access `db_server_try_acquire_lock` asks the lock for. -/
def DBServerQueryKind.access : DBServerQueryKind → Access
  | .none => .none
  | .read => .read
  | .write => .write

theorem DBServerQueryKind.access_injective : Function.Injective DBServerQueryKind.access := by
  intro kind kind' h
  cases kind <;> cases kind' <;> first | rfl | cases h

/-- Where a worker is in `db_server_execute`. -/
inductive CallPhase where
  /-- In no call. -/
  | idle
  /-- In `db_server_try_acquire_lock`, before an attempt. -/
  | trying (query : Cursor)
  /-- In `db_server_try_acquire_lock`, after a failed attempt. -/
  | refused (query : Cursor)
  /-- In `sql_execute`, until the lock is released; this is left of it. -/
  | executing (query : Cursor) (program : Prog SQLResult)
  /-- Before `db_server_metrics_query_finished`. -/
  | finishing (query : Cursor) (execution : DBServerExecution)

/-- What a worker does. -/
inductive CallEvent (W : Type) where
  | start (w : W) (query : Cursor)
  | refuse (w : W)
  | retry (w : W)
  | timeout (w : W) (query : Cursor)
  | acquire (w : W) (query : Cursor)
  | operation (w : W)
  | release (w : W) (query : Cursor) (result : SQLResult)
  | finish (w : W) (query : Cursor) (execution : DBServerExecution)

/-- The server, its lock, and where each worker is. -/
structure System (W : Type) where
  server : DBServer
  lock : RWLock
  phase : W → CallPhase

section System

variable {W : Type}

/-- A server that was just initialised. -/
def System.init : System W := ⟨dbServerInit, .free, fun _ => .idle⟩

/-- The server's table after an operation. -/
def System.setMemory (s : System W) (memory : Memory) : System W :=
  { s with server := ⟨memory, s.server.metrics⟩ }

/-- The server's metrics after an update under their mutex. -/
def System.setMetrics (s : System W) (metrics : DBServerMetrics) : System W :=
  { s with server := ⟨s.server.memory, metrics⟩ }

/-- The lock after an attempt or a release. -/
def System.setLock (s : System W) (lock : RWLock) : System W := { s with lock }

section Setters

variable (s : System W) (memory : Memory) (metrics : DBServerMetrics) (lock : RWLock)

@[simp] theorem System.setMemory_phase : (s.setMemory memory).phase = s.phase := rfl

@[simp] theorem System.setMetrics_phase : (s.setMetrics metrics).phase = s.phase := rfl

@[simp] theorem System.setLock_phase : (s.setLock lock).phase = s.phase := rfl

end Setters

variable [DecidableEq W]

/-- A worker moves on. -/
def System.enter (s : System W) (w : W) (ph : CallPhase) : System W :=
  { s with phase := Function.update s.phase w ph }

@[simp] theorem System.enter_phase_self (s : System W) (w : W) (ph : CallPhase) :
    (s.enter w ph).phase w = ph := Function.update_self ..

theorem System.enter_phase_other (s : System W) {v w : W} (ph : CallPhase) (h : v ≠ w) :
    (s.enter v ph).phase w = s.phase w := Function.update_of_ne h.symm ..

/-- One step of one worker. An attempt may fail at any time, also when the lock is free;
whether the time is up after it is not determined. -/
inductive System.Step (s : System W) : CallEvent W → System W → Prop
  -- the call is counted before it asks for the lock
  | start {w : W} (query : Cursor) : s.phase w = .idle →
      System.Step s (.start w query)
        ((s.enter w (.trying query)).setMetrics
          (dbServerMetricsQueryStarted (dbServerClassifyQuery query) s.server.metrics))
  -- one attempt fails; a plain attempt may fail whatever the lock is
  | refuse {w : W} {query : Cursor} : s.phase w = .trying query →
      dbServerClassifyQuery query ≠ .none →
      System.Step s (.refuse w) (s.enter w (.refused query))
  -- it sleeps a millisecond and tries again
  | retry {w : W} {query : Cursor} : s.phase w = .refused query →
      System.Step s (.retry w) (s.enter w (.trying query))
  -- the time is over after a failed attempt
  | timeout {w : W} {query : Cursor} : s.phase w = .refused query →
      System.Step s (.timeout w query)
        (s.enter w (.finishing query (dbServerTimeout (dbServerBegin query))))
  -- a text of no kind takes no lock and goes on at once
  | acquire {w : W} {query : Cursor} {lock : RWLock} : s.phase w = .trying query →
      s.lock.tryLock (dbServerClassifyQuery query).access = some lock →
      System.Step s (.acquire w query)
        ((s.enter w (.executing query (sqlExecute query))).setLock lock)
  -- one operation of the statement on the memory
  | operation {w : W} {query : Cursor} {p p' : Prog SQLResult} {memory : Memory} :
      s.phase w = .executing query p → p.step exec s.server.memory = some (p', memory) →
      System.Step s (.operation w)
        ((s.enter w (.executing query p')).setMemory memory)
  -- the result is copied before the lock is given back
  | release {w : W} {query : Cursor} {result : SQLResult} :
      s.phase w = .executing query (.ret result) →
      System.Step s (.release w query result)
        ((s.enter w (.finishing query (dbServerDone (dbServerBegin query) result))).setLock
          (s.lock.unlock (dbServerClassifyQuery query).access))
  -- the outcome is counted last
  | finish {w : W} {query : Cursor} {execution : DBServerExecution} :
      s.phase w = .finishing query execution →
      System.Step s (.finish w query execution)
        ((s.enter w .idle).setMetrics (dbServerMetricsQueryFinished execution s.server.metrics))

/-- What happens from the start on, in any order of steps. -/
inductive System.Run : List (CallEvent W) → System W → Prop
  | init : System.Run [] .init
  | step {t : List (CallEvent W)} {s s' : System W} {e : CallEvent W} : System.Run t s →
      s.Step e s' → System.Run (t ++ [e]) s'

end System

/-! ## The system as guarded programs -/

/-- The table has its invariants, and memory never fails. -/
def TableReady (m : Memory) : Prop :=
  m.NoFailure ∧ ∃ rows, TableInv m rows ∧ Numbered m rows

theorem tableReady_tableCreate : TableReady tableCreate :=
  ⟨rfl, [], tableCreate_inv, tableCreate_numbered⟩

/-- Queries, the lock they take and what they execute. -/
def dbServerGuarded : Guarded Op Op.Ans Memory Cursor SQLResult where
  handler := exec
  access query := (dbServerClassifyQuery query).access
  body := sqlExecute
  inv := TableReady
  reads := Op.Reads
  body_total query m hm := by
    obtain ⟨hok, rows, hinv, hn⟩ := hm
    obtain ⟨result, m', hrun, houtcome⟩ := run_sqlExecute hinv hn hok query
    exact ⟨result, m', hrun, hok.run hrun, houtcome.inv hinv hn⟩
  body_none query haccess := by
    obtain ⟨result, -, hpure⟩ :=
      sqlExecute_of_none (DBServerQueryKind.access_injective haccess : _ = DBServerQueryKind.none)
    exact ⟨result, hpure⟩
  body_read query haccess :=
    readOnly_of_read (DBServerQueryKind.access_injective haccess : _ = DBServerQueryKind.read)
  reads_same o m r ho hm hr := (exec_of_reads ho hr).2 hm.1

/-- What a phase is to the lock and the table. -/
def CallPhase.client : CallPhase → ClientPhase Op Op.Ans Cursor SQLResult
  | .executing query program => .running query program
  | _ => .idle

/-- What an event is to the lock and the table. -/
def CallEvent.client {W : Type} : CallEvent W → Option (ClientEvent W Cursor SQLResult)
  | .acquire w query => some (.acquire w query)
  | .operation w => some (.operation w)
  | .release w query result => some (.release w query result)
  | _ => none

/-- The lock, the table, and who is in `sql_execute`. -/
def System.clients {W : Type} (s : System W) : GuardedState Op Op.Ans Memory Cursor SQLResult W :=
  ⟨s.server.memory, s.lock, fun w => (s.phase w).client⟩

/-- The events that concern the lock and the table. -/
def clientTrace {W : Type} (t : List (CallEvent W)) : List (ClientEvent W Cursor SQLResult) :=
  t.filterMap CallEvent.client

section Clients

variable {W : Type} [DecidableEq W] {s s' : System W} {t : List (CallEvent W)} {e : CallEvent W}
  {w : W}

private theorem clients_enter (s : System W) (w : W) (ph : CallPhase) (server : DBServer)
    (lock : RWLock) : System.clients ⟨server, lock, (s.enter w ph).phase⟩ =
      ⟨server.memory, lock, Function.update s.clients.phase w ph.client⟩ := by
  have hphase := Function.comp_update CallPhase.client s.phase w ph
  exact congrArg (fun phase => GuardedState.mk server.memory lock phase) hphase

/-- Outside `sql_execute` a step changes neither the lock nor the table. -/
private theorem clients_enter_same {ph : CallPhase} (h : ph.client = (s.phase w).client) :
    (s.enter w ph).clients = s.clients := by
  have hsame : Function.update s.clients.phase w ph.client = s.clients.phase := by
    rw [h]
    exact Function.update_eq_self w s.clients.phase
  refine (clients_enter s w ph s.server s.lock).trans ?_
  rw [hsame]
  rfl

/-- Each step of the system is a step of the guarded programs, or none. -/
theorem System.Step.client (h : s.Step e s') :
    e.client = none ∧ s'.clients = s.clients ∨
      ∃ e', e.client = some e' ∧ dbServerGuarded.Step s.clients e' s'.clients := by
  have hclient {ph : CallPhase} {w : W} (hph : s.phase w = ph) : s.clients.phase w = ph.client := by
    rw [← hph]
    rfl
  -- only taking the lock, working under it and giving it back are steps of the guarded clients
  cases h with
  | @start w query hidle =>
    have hsame : (CallPhase.trying query).client = (s.phase w).client := by rw [hidle]; rfl
    exact .inl ⟨rfl, clients_enter_same hsame⟩
  | refuse htrying _ => exact .inl ⟨rfl, clients_enter_same (by rw [htrying]; rfl)⟩
  | retry hrefused => exact .inl ⟨rfl, clients_enter_same (by rw [hrefused]; rfl)⟩
  | timeout hrefused => exact .inl ⟨rfl, clients_enter_same (by rw [hrefused]; rfl)⟩
  | @finish w _ _ hfinishing =>
    have hsame : CallPhase.idle.client = (s.phase w).client := by rw [hfinishing]; rfl
    exact .inl ⟨rfl, clients_enter_same hsame⟩
  | @acquire w query lock htrying hlock =>
    have hstep := Guarded.Step.acquire (G := dbServerGuarded) (hclient htrying) hlock
    have heq := clients_enter s w (.executing query (sqlExecute query)) s.server lock
    exact .inr ⟨_, rfl, heq.symm.subst hstep⟩
  | @operation w query p p' memory hexecuting hop =>
    have hstep := Guarded.Step.operation (G := dbServerGuarded) (hclient hexecuting) hop
    have heq := clients_enter s w (.executing query p') { s.server with memory } s.lock
    exact .inr ⟨_, rfl, heq.symm.subst hstep⟩
  | @release w query result hexecuting =>
    have hstep := Guarded.Step.release (G := dbServerGuarded) (hclient hexecuting)
    have heq := clients_enter s w (.finishing query (dbServerDone (dbServerBegin query) result))
      s.server (s.lock.unlock (dbServerClassifyQuery query).access)
    exact .inr ⟨_, rfl, heq.symm.subst hstep⟩

private theorem clientTrace_none {W : Type} {t : List (CallEvent W)} {e : CallEvent W}
    (h : e.client = none) : clientTrace (t ++ [e]) = clientTrace t := by
  unfold clientTrace
  rw [List.filterMap_append, List.filterMap_cons_none h, List.filterMap_nil, List.append_nil]

private theorem clientTrace_some {W : Type} {t : List (CallEvent W)} {e : CallEvent W}
    {e' : ClientEvent W Cursor SQLResult} (h : e.client = some e') :
    clientTrace (t ++ [e]) = clientTrace t ++ [e'] := by
  unfold clientTrace
  rw [List.filterMap_append, List.filterMap_cons_some h, List.filterMap_nil]

/-- A run of the system is a run of the guarded programs. -/
theorem System.Run.client (h : System.Run t s) :
    dbServerGuarded.Run tableCreate (clientTrace t) s.clients := by
  induction h with
  | init => exact .start
  | step _ hstep ih =>
    rcases hstep.client with ⟨hnone, hsame⟩ | ⟨e', hsome, hclient⟩
    · rw [hsame, clientTrace_none hnone]
      exact ih
    · rw [clientTrace_some hsome]
      exact .step ih hclient

end Clients

/-! ## Calls and returns -/

section Calls

variable {W : Type} [DecidableEq W] {s s' : System W} {t : List (CallEvent W)} {e : CallEvent W}
  {w : W}

/-- A call that returned: the query and what `db_server_execute` made of it. -/
abbrev Returned := Cursor × DBServerExecution

/-- Whether a call timed out. -/
def timedOut (call : Returned) : Bool := call.2.serverStatus == .lockTimeout

/-- What a call returns that has a result. -/
def doneCall (served : Cursor × SQLResult) : Returned :=
  (served.1, dbServerDone (dbServerBegin served.1) served.2)

/-- What a call returns that times out. -/
def timeoutCall (query : Cursor) : Returned := (query, dbServerTimeout (dbServerBegin query))

/-- The call an event of the worker starts. -/
def CallEvent.started (w : W) : CallEvent W → List Cursor
  | .start v query => if v = w then [query] else []
  | _ => []

/-- The call with which an event of the worker returns. -/
def CallEvent.returned (w : W) : CallEvent W → List Returned
  | .finish v query execution => if v = w then [(query, execution)] else []
  | _ => []

/-- The queries a worker called `db_server_execute` with. -/
def startedBy (w : W) (t : List (CallEvent W)) : List Cursor := t.flatMap (CallEvent.started w)

/-- The calls of a worker that returned. -/
def returnedBy (w : W) (t : List (CallEvent W)) : List Returned := t.flatMap (CallEvent.returned w)

/-- The query of the call a worker is in. -/
def CallPhase.current : CallPhase → List Cursor
  | .idle => []
  | .trying query | .refused query | .executing query _ | .finishing query _ => [query]

/-- What a call is about to return. -/
def CallPhase.outcome : CallPhase → List Returned
  | .finishing query execution => [(query, execution)]
  | _ => []

theorem CallPhase.outcome_idle : CallPhase.idle.outcome = [] := rfl

/-- Every call of a worker returns once, with its result or a timeout. -/
structure Accounted (w : W) (t : List (CallEvent W)) (ph : CallPhase) : Prop where
  started : startedBy w t = (returnedBy w t).map Prod.fst ++ ph.current
  done : (returnedBy w t ++ ph.outcome).filter (fun call => !timedOut call) =
    (servedBy w (clientTrace t)).map doneCall
  timeout : ∀ call ∈ returnedBy w t ++ ph.outcome, timedOut call = true → call = timeoutCall call.1

/-- What an event of the worker settles about the call it is in. -/
private def CallEvent.settled (w : W) : CallEvent W → List Returned
  | .timeout v query => if v = w then [timeoutCall query] else []
  | .release v query result => if v = w then [doneCall (query, result)] else []
  | _ => []

private theorem settled_timedOut :
    ∀ call ∈ e.settled w, timedOut call = true → call = timeoutCall call.1 := by
  intro call hcall htimedOut
  cases e with
  | timeout v query =>
    simp only [CallEvent.settled, List.mem_ite_nil_right, List.mem_singleton] at hcall
    rw [hcall.2]
    rfl
  | release v query result =>
    simp only [CallEvent.settled, List.mem_ite_nil_right, List.mem_singleton] at hcall
    rw [hcall.2] at htimedOut
    cases htimedOut
  | _ => simp [CallEvent.settled] at hcall

private theorem servedBy_append :
    (servedBy w (clientTrace (t ++ [e]))).map doneCall =
      (servedBy w (clientTrace t)).map doneCall ++
        (e.settled w).filter fun call => !timedOut call := by
  cases e with
  | acquire v query =>
    rw [clientTrace_some rfl, servedBy_acquire]
    simp [CallEvent.settled]
  | operation v =>
    rw [clientTrace_some rfl, servedBy_operation]
    simp [CallEvent.settled]
  -- only a release ends a call that was served, and only the call of its own worker
  | release v query result =>
    rw [clientTrace_some rfl]
    rcases eq_or_ne v w with rfl | hne
    · rw [servedBy_release_self, List.map_append, CallEvent.settled, if_pos rfl]
      rfl
    · rw [servedBy_release_other _ _ _ hne, CallEvent.settled, if_neg hne, List.filter_nil,
        List.append_nil]
  -- a timed-out call is settled but never served, so the filter drops it
  | timeout v query =>
    rw [clientTrace_none rfl]
    rcases eq_or_ne v w with rfl | hne
    · simp [CallEvent.settled, timedOut, timeoutCall, dbServerTimeout]
    · simp [CallEvent.settled, hne]
  | _ =>
    rw [clientTrace_none rfl]
    simp [CallEvent.settled]

/-- A step of any worker keeps the books of this one. -/
private theorem System.Step.account (h : s.Step e s') (w : W) :
    (s.phase w).current ++ e.started w = (e.returned w).map Prod.fst ++ (s'.phase w).current ∧
      (s.phase w).outcome ++ e.settled w = e.returned w ++ (s'.phase w).outcome := by
  cases h with
  | @start v query hphase | @refuse v query hphase | @retry v query hphase
  | @timeout v query hphase | @acquire v query lock hphase
  | @operation v query p p' memory hphase | @release v query result hphase
  | @finish v query execution hphase =>
    rcases eq_or_ne v w with rfl | hne
    · simp [hphase, CallEvent.started, CallEvent.returned, CallEvent.settled,
        CallPhase.current, CallPhase.outcome, doneCall, timeoutCall]
    · simp [System.enter_phase_other, CallEvent.started, CallEvent.returned, CallEvent.settled, hne]

private theorem Accounted.step (h : Accounted w t (s.phase w)) (hstep : s.Step e s') :
    Accounted w (t ++ [e]) (s'.phase w) := by
  obtain ⟨hcurrent, houtcome⟩ := hstep.account w
  have hstarted : startedBy w (t ++ [e]) = startedBy w t ++ e.started w := by simp [startedBy]
  have hreturned : returnedBy w (t ++ [e]) = returnedBy w t ++ e.returned w := by
    simp [returnedBy]
  have hsettled : returnedBy w (t ++ [e]) ++ (s'.phase w).outcome =
      (returnedBy w t ++ (s.phase w).outcome) ++ e.settled w := by
    rw [hreturned, List.append_assoc, ← houtcome, List.append_assoc]
  refine ⟨?_, ?_, ?_⟩
  · rw [hstarted, h.started, hreturned, List.append_assoc, hcurrent, List.map_append,
      List.append_assoc]
  · rw [hsettled, List.filter_append, h.done, servedBy_append]
  · rw [hsettled]
    intro call hcall
    rcases List.mem_append.mp hcall with hbefore | hnow
    · exact h.timeout call hbefore
    · exact settled_timedOut call hnow

/-- Every call of every worker is accounted for. -/
theorem System.Run.accounted (h : System.Run t s) (w : W) : Accounted w t (s.phase w) := by
  induction h with
  | init => exact ⟨rfl, rfl, fun _ hcall => absurd hcall List.not_mem_nil⟩
  | step _ hstep ih => exact ih.step hstep

end Calls

/-! ## Ids -/

/-- The ids of the successful INSERTs, in the order of the results. -/
def insertedIds (results : List SQLResult) : List Int :=
  (results.filter fun result => result.status == .ok && result.action == .insert).map
    SQLResult.insertedId

theorem insertedIds_append (results results' : List SQLResult) :
    insertedIds (results ++ results') = insertedIds results ++ insertedIds results' := by
  simp [insertedIds]

/-- One statement uses at most the next id. -/
theorem SqlOutcome.insertedIds {query : Cursor} {m m' : Memory} {rows : Rows} {result : SQLResult}
    (h : SqlOutcome query m rows result m') (hm : TableInv m rows) (hn : Numbered m rows) :
    ∃ rows', TableInv m' rows' ∧ Numbered m' rows' ∧
      rowIds rows'.length = rowIds rows.length ++ insertedIds [result] := by
  -- a result other than a successful INSERT reports no id
  have hnone (hstatus : result.status ≠ .ok ∨ result.action ≠ .insert) :
      Server.insertedIds [result] = [] := by
    rcases hstatus with hstatus | haction
    · simp [Server.insertedIds, hstatus]
    · simp [Server.insertedIds, haction]
  cases h with
  | error hparse hsame =>
    refine ⟨rows, hsame ▸ hm, hsame ▸ hn, ?_⟩
    rw [hnone, List.append_nil]
    rw [(sqlParse_error_noRows hparse).1]
    exact .inr nofun
  | select query' found hparse hfound hresult hsame =>
    refine ⟨rows, hsame ▸ hm, hsame ▸ hn, ?_⟩
    rw [hnone, List.append_nil]
    rw [hresult]
    exact .inr nofun
  -- the one outcome that adds a row reports the id of that row
  | insert name age record hparse hresult hm' hn' =>
    refine ⟨_, hm', hn', ?_⟩
    rw [List.length_append, List.length_singleton, rowIds_succ, hresult]
    generalize wrapInt (rows.length + 1) = id
    rfl
  | full name age hparse hfull hresult hm' hn' =>
    refine ⟨rows, hm', hn', ?_⟩
    rw [hnone, List.append_nil]
    rw [hresult]
    exact .inl nofun

/-- Statements one after the other use the ids one after the other. -/
theorem run_serial_insertedIds {W : Type} {m m' : Memory} {rows : Rows} (hm : TableInv m rows)
    (hn : Numbered m rows) (hok : m.NoFailure) {calls : List (W × Cursor)}
    {answers : List (W × Cursor × SQLResult)}
    (hrun : (serial sqlExecute calls).run exec m = some (answers, m')) :
    ∃ rows', TableInv m' rows' ∧ Numbered m' rows' ∧
      rowIds rows'.length =
        rowIds rows.length ++ insertedIds (answers.map fun answer => answer.2.2) := by
  induction calls generalizing m rows answers with
  | nil =>
    obtain ⟨rfl, rfl⟩ : [] = answers ∧ m = m' := by simpa [serial] using hrun
    exact ⟨rows, hm, hn, (List.append_nil _).symm⟩
  | cons call rest ih =>
    obtain ⟨w, query⟩ := call
    obtain ⟨result, m₁, hquery, houtcome⟩ := run_sqlExecute hm hn hok query
    obtain ⟨rows₁, hm₁, hn₁, hids₁⟩ := houtcome.insertedIds hm hn
    unfold serial at hrun
    rw [Program.run_bind_of_eq hquery, Program.run_bind, Option.bind_eq_some_iff] at hrun
    obtain ⟨⟨answers', m''⟩, hrest, hanswers⟩ := hrun
    obtain ⟨rfl, rfl⟩ : (w, query, result) :: answers' = answers ∧ m'' = m' := by
      simpa using hanswers
    obtain ⟨rows', hm', hn', hids⟩ := ih hm₁ hn₁ (hok.run hquery) hrest
    refine ⟨rows', hm', hn', ?_⟩
    rw [hids, hids₁, List.append_assoc, ← insertedIds_append]
    rfl

/-! ## Serializability -/

section Serializable

variable {W : Type} [DecidableEq W] {s s' : System W} {t : List (CallEvent W)} {e : CallEvent W}

/-- The calls in the order in which `db_server_try_acquire_lock` let them pass. -/
def lockOrder (t : List (CallEvent W)) : List (W × Cursor) := grantOrder (clientTrace t)

omit [DecidableEq W] in
/-- Each of them got its lock. -/
theorem acquire_mem_of_lockOrder {w : W} {query : Cursor} (h : (w, query) ∈ lockOrder t) :
    CallEvent.acquire w query ∈ t := by
  obtain ⟨event, hevent, hgrant⟩ := List.mem_filterMap.mp h
  obtain ⟨e, he, hclient⟩ := List.mem_filterMap.mp hevent
  cases e with
  | acquire w' query' =>
    obtain rfl := Option.some.inj hclient
    obtain ⟨rfl, rfl⟩ := Prod.mk.inj (Option.some.inj hgrant)
    exact he
  | operation w' =>
    obtain rfl := Option.some.inj hclient
    cases hgrant
  | release w' query' result =>
    obtain rfl := Option.some.inj hclient
    cases hgrant
  | _ => cases hclient

/-- No worker is in `sql_execute` for an INSERT while another worker is there for an INSERT
or a SELECT. -/
def System.Exclusive (s : System W) : Prop :=
  ∀ v w query query' program program', v ≠ w → s.phase v = .executing query program →
    s.phase w = .executing query' program' → dbServerClassifyQuery query = .write →
    dbServerClassifyQuery query' = .none

/-- Each worker released every lock it acquired before it acquired the next, and released no
other; it holds at most the lock of the call it is in. -/
def LocksPaired (t : List (CallEvent W)) (s : System W) : Prop :=
  ∀ w, ∃ accesses, lockEvents dbServerGuarded.access w (clientTrace t) =
    lockPairs accesses ++ heldNow (dbServerGuarded.holds s.clients.phase w)

/-- A completed run, next to `sql_execute` for the calls that got their lock, one after the
other from the initial table. -/
structure Serialized (t : List (CallEvent W)) (s : System W)
    (answers : List (W × Cursor × SQLResult)) : Prop where
  /-- The same table. -/
  table : (serial sqlExecute (lockOrder t)).run exec tableCreate = some (answers, s.server.memory)
  /-- Every call returned. -/
  returned : ∀ w, startedBy w t = (returnedBy w t).map Prod.fst
  /-- The same results. -/
  results : ∀ w, (returnedBy w t).filter (fun call => !timedOut call) =
    (answersOf w answers).map doneCall
  /-- All other calls timed out. -/
  timeouts : ∀ w, ∀ call ∈ returnedBy w t, timedOut call = true → call = timeoutCall call.1
  lock : s.lock = .free
  /-- The ids of the INSERTs are the first ones, in lock order. -/
  ids : insertedIds (answers.map fun answer => answer.2.2) =
    rowIds (insertedIds (answers.map fun answer => answer.2.2)).length
  distinct : (insertedIds (answers.map fun answer => answer.2.2)).Nodup
  /-- While they fit an `int` they are 1, 2, 3 and so on. -/
  counted : (insertedIds (answers.map fun answer => answer.2.2)).length < 2 ^ 31 →
    insertedIds (answers.map fun answer => answer.2.2) =
      (List.range (insertedIds (answers.map fun answer => answer.2.2)).length).map
        fun k : Nat => (k : Int) + 1

/-- Only a call that has its lock changes the table. -/
theorem System.Step.memory_eq (h : s.Step e s') (hchange : s'.server.memory ≠ s.server.memory) :
    ∃ w query program, e = .operation w ∧ s.phase w = .executing query program := by
  cases h with
  | operation hexecuting _ => exact ⟨_, _, _, rfl, hexecuting⟩
  | _ => exact absurd rfl hchange

/-- A call in `sql_execute` is never stuck. -/
theorem System.Run.progress (h : System.Run t s) {w : W} {query : Cursor} {p : Prog SQLResult}
    (hexecuting : s.phase w = .executing query p) :
    (∃ result, p = .ret result) ∨ ∃ p' m, p.step exec s.server.memory = some (p', m) := by
  obtain ⟨answers, final, hserial⟩ := h.client.serial tableReady_tableCreate
  refine hserial.progress (w := w) (q := query) ?_
  change (s.phase w).client = _
  rw [hexecuting]
  rfl

/-- A worker runs `sql_execute` to its end while the others wait. -/
theorem System.Run.operations (h : System.Run t s) {w : W} {query : Cursor} {p : Prog SQLResult}
    {result : SQLResult} {memory : Memory} (hexecuting : s.phase w = .executing query p)
    (hrun : p.run s.server.memory = some (result, memory)) :
    ∃ n, System.Run (t ++ List.replicate n (.operation w))
      ((s.enter w (.executing query (.ret result))).setMemory memory) := by
  induction p generalizing s t with
  | ret result' =>
    obtain ⟨rfl, rfl⟩ : result' = result ∧ s.server.memory = memory := by simpa using hrun
    refine ⟨0, ?_⟩
    have hsame : (s.enter w (.executing query (.ret result'))).setMemory s.server.memory = s := by
      unfold System.enter System.setMemory
      rw [← hexecuting, Function.update_eq_self]
    rw [List.replicate_zero, List.append_nil, hsame]
    exact h
  | call o k ih =>
    rw [Prog.run, Program.run_call, Option.bind_eq_some_iff] at hrun
    obtain ⟨a, ha, hrest⟩ := hrun
    have hop : Program.step exec (.call o k) s.server.memory = some (k a.1, a.2) := by
      rw [Program.step, ha]
      rfl
    have hnext := h.step (.operation hexecuting hop)
    obtain ⟨n, hn⟩ := ih a.1 hnext (Function.update_self ..) hrest
    refine ⟨n + 1, ?_⟩
    simpa [System.enter, System.setMemory, List.replicate_succ] using hn

/-- The lock is exclusive. -/
theorem System.Run.exclusive (h : System.Run t s) : s.Exclusive := by
  obtain ⟨answers, final, hserial⟩ := h.client.serial tableReady_tableCreate
  intro v w query query' program program' hne hv hw hwrite
  have hholds {u : W} {q : Cursor} {p : Prog SQLResult} (hu : s.phase u = .executing q p) :
      dbServerGuarded.holds s.clients.phase u = (dbServerClassifyQuery q).access := by
    refine dbServerGuarded.holds_of_running (p := p) ?_
    change (s.phase u).client = _
    rw [hu]
    rfl
  by_contra hsome
  refine hne (hserial.counts.alone v w ?_ ?_)
  · rw [hholds hv, hwrite]
    rfl
  · rw [hholds hw]
    exact fun hnone => hsome (DBServerQueryKind.access_injective hnone)

/-- A completed run is serial. -/
theorem System.Run.serialized (h : System.Run t s) (hidle : ∀ w, s.phase w = .idle) :
    ∃ answers, Serialized t s answers := by
  obtain ⟨answers, final, hserial⟩ := h.client.serial tableReady_tableCreate
  have hclient (w : W) : s.clients.phase w = .idle := by
    change (s.phase w).client = _
    rw [hidle]
    rfl
  -- nobody holds the lock, so the table is the one the last release left
  have hnone (w : W) : dbServerGuarded.holds s.clients.phase w = .none :=
    dbServerGuarded.holds_of_idle (hclient w)
  have htable : s.server.memory = final := by
    refine hserial.settled fun w => ?_
    rw [hnone]
    exact nofun
  subst htable
  -- the serial run numbers its insertions in the order of the lock
  obtain ⟨rows, -, hn, hids⟩ :=
    run_serial_insertedIds tableCreate_inv tableCreate_numbered rfl hserial.serial
  have hfirst : insertedIds (answers.map fun answer => answer.2.2) = rowIds rows.length :=
    (List.nil_append _).symm.trans hids.symm
  refine ⟨answers, hserial.serial, fun w => ?_, fun w => ?_, fun w => ?_, ?_, ?_, ?_, fun hlt => ?_⟩
  · -- what each worker started, got and lost is what its accounts say when it is idle
    have hstarted := (h.accounted w).started
    rwa [hidle, CallPhase.current, List.append_nil] at hstarted
  · have hdone := (h.accounted w).done
    have hserved := hserial.clients w
    rw [hclient] at hserved
    rw [hidle, CallPhase.outcome_idle, List.append_nil] at hdone
    rw [hdone, hserved]
  · have htimeout := (h.accounted w).timeout
    rwa [hidle, CallPhase.outcome_idle, List.append_nil] at htimeout
  · exact hserial.counts.eq_free hnone
  · rw [hfirst, length_rowIds]
  · rw [hfirst]
    exact rowIds_nodup hn.bound
  · rw [hfirst, length_rowIds] at hlt ⊢
    exact rowIds_eq hlt

omit [DecidableEq W] in
theorem lockOrder_append (t t' : List (CallEvent W)) :
    lockOrder (t ++ t') = lockOrder t ++ lockOrder t' := by
  simp [lockOrder, clientTrace, grantOrder]

omit [DecidableEq W] in
theorem lockOrder_operations (n : Nat) (w : W) :
    lockOrder (List.replicate n (.operation w)) = [] := by
  induction n with
  | zero => rfl
  | succ n ih => exact ih

private theorem System.Run.restore (h : System.Run t s') (hphase : s'.phase = s.phase)
    (hlock : s'.lock = s.lock) : System.Run t { s with server := s'.server } := by
  rw [← hphase, ← hlock]
  exact h

/-- The call of one worker while all others wait is `dbServerExecute`. -/
theorem System.Run.execute (h : System.Run t s) {w : W} (hidle : s.phase w = .idle)
    {granted : Bool} {query : Cursor} {execution : DBServerExecution} {server : DBServer}
    (hlock : granted = true →
      ∃ lock, s.lock.tryLock (dbServerClassifyQuery query).access = some lock)
    (hexecute : dbServerExecute granted query s.server = some (execution, server)) :
    ∃ t', System.Run (t ++ t') { s with server } ∧ returnedBy w t' = [(query, execution)] := by
  have hphase : Function.update s.phase w .idle = s.phase := by
    rw [← hidle, Function.update_eq_self]
  unfold dbServerExecute at hexecute
  dsimp only at hexecute
  have hstart := h.step (.start query hidle)
  split at hexecute
  · next hpass =>
    obtain ⟨⟨result, memory⟩, hrun, heq⟩ := Option.map_eq_some_iff.mp hexecute
    obtain ⟨rfl, rfl⟩ := Prod.mk.inj heq
    -- a query that takes no lock always passes
    have hfree : ∃ lock, s.lock.tryLock (dbServerClassifyQuery query).access = some lock := by
      cases granted with
      | true => exact hlock rfl
      | false =>
        have hkind : dbServerClassifyQuery query = .none := by
          simpa [dbServerTryAcquireLock] using hpass
        rw [hkind]
        exact ⟨s.lock, rfl⟩
    obtain ⟨lock, hlock⟩ := hfree
    have hacquire := hstart.step (.acquire (w := w) (System.enter_phase_self ..) hlock)
    obtain ⟨n, hoperations⟩ := hacquire.operations (w := w) (System.enter_phase_self ..) hrun
    have hrelease := hoperations.step (.release (w := w) (System.enter_phase_self ..))
    have hfinish := hrelease.step (.finish (w := w) (System.enter_phase_self ..))
    have hfinal := hfinish.restore (s := s) (by simp [System.enter, hphase])
      (RWLock.unlock_of_tryLock hlock)
    simp only [List.append_assoc] at hfinal
    refine ⟨_, hfinal, ?_⟩
    simp [returnedBy, CallEvent.returned, List.flatMap_replicate]
  · next hfail =>
    obtain ⟨rfl, rfl⟩ := Prod.mk.inj (Option.some.inj hexecute)
    -- only a query that wants a lock can be refused
    have hkind : dbServerClassifyQuery query ≠ .none := by
      intro hnone
      rw [hnone] at hfail
      exact hfail rfl
    have hrefuse := hstart.step (.refuse (w := w) (System.enter_phase_self ..) hkind)
    have htimeout := hrefuse.step (.timeout (w := w) (System.enter_phase_self ..))
    have hfinish := htimeout.step (.finish (w := w) (System.enter_phase_self ..))
    have hfinal := hfinish.restore (s := s) (by simp [System.enter, hphase]) rfl
    simp only [List.append_assoc] at hfinal
    refine ⟨_, hfinal, ?_⟩
    simp [returnedBy, CallEvent.returned]

end Serializable

/-- Concurrent calls are serializable in lock order. In every state that any workers reach
with any queries, INSERTs exclude other statements and the locks are paired; only calls
that got their lock change the table; and when all calls have returned, the table and all
results are those of `sql_execute` for these calls in lock order. -/
theorem dbServerExecute_serializable {W : Type} [DecidableEq W] {t : List (CallEvent W)}
    {s : System W} (h : System.Run t s) :
    s.Exclusive ∧ LocksPaired t s ∧
    (∀ e s', s.Step e s' → s'.server.memory ≠ s.server.memory →
      ∃ w query program, e = .operation w ∧ s.phase w = .executing query program) ∧
    ((∀ w, s.phase w = .idle) → ∃ answers, Serialized t s answers) :=
  ⟨h.exclusive, h.client.lockEvents_paired, fun _ _ => System.Step.memory_eq, h.serialized⟩

/-- A writer holds the lock until a reader has given up. -/
theorem dbServerExecute_serializable_timeout :
    ∃ (t : List (CallEvent Bool)) (s : System Bool), System.Run t s ∧
      lockOrder t = [(true, bytes "INSERT INTO users VALUES ('Slow Writer', 99);")] ∧
      (s.Exclusive ∧ LocksPaired t s ∧ ∃ answers, Serialized t s answers) := by
  generalize hinsert : bytes "INSERT INTO users VALUES ('Slow Writer', 99);" = insert
  generalize hselect : bytes "SELECT * FROM users;" = select
  have hwrite : dbServerClassifyQuery insert = .write := by
    rw [← hinsert]
    decide
  have hread : dbServerClassifyQuery select ≠ .none := by
    rw [← hselect]
    decide
  obtain ⟨result, memory, hrun, -⟩ :=
    run_sqlExecute tableCreate_inv tableCreate_numbered rfl insert
  have hlock : RWLock.free.tryLock (dbServerClassifyQuery insert).access = some ⟨0, true⟩ := by
    rw [hwrite]
    rfl
  -- the INSERT takes the lock, and the SELECT is refused while it works
  have hacquired := (System.Run.init.step (.start (w := true) insert rfl)).step
    (.acquire (w := true) rfl hlock)
  have hrefused := (hacquired.step (.start (w := false) select rfl)).step
    (.refuse (w := false) rfl hread)
  obtain ⟨n, hexecuted⟩ := hrefused.operations (w := true) rfl hrun
  -- the SELECT runs out of time before the INSERT gives the lock back
  have hreleased := (hexecuted.step (.timeout (w := false) rfl)).step (.release (w := true) rfl)
  have hdone := (hreleased.step (.finish (w := true) rfl)).step (.finish (w := false) rfl)
  obtain ⟨hexclusive, hlocks, -, hserial⟩ := dbServerExecute_serializable hdone
  have hidle := hserial fun w => by cases w <;> rfl
  refine ⟨_, _, hdone, ?_, hexclusive, hlocks, hidle⟩
  simp only [lockOrder_append, lockOrder_operations]
  rfl

end SqlApi.Server

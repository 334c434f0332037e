import Mathlib.Order.Interval.Set.Nat
import SqlApi.Server.EndToEnd
import SqlApi.Server.NoLostWakeup

/-!
# The books of the whole server

The metrics against the threads and the connections: the gauge of active queries is the number of
workers that are in `db_server_execute`, the counter of full queues the number of connections that
were rejected. When `http_server_run` has returned nobody holds anything: no connection, no lock and
no call is left, and the table is the one of a serial run.

## How the proof goes

Which thread may report a full queue is a property of the programs they run
(`ServerThread.May`, `Program.Uses`); that it reports once for each rejection is another
(`Program.Exactly`). At the end every worker has been joined, so every connection is closed
(`closed_of_returned`), no thread serves one, and no call is left.
-/

namespace SqlApi.Server

open SqlApi.Lib SqlApi.Core

/-! ## What handlers never do -/

/-- What a thread may do for its connections: the main thread executes no query, a worker reports no
full queue. -/
def ServerThread.May : ServerThread → HandlerOp → Prop
  | .main, .execute _ => False
  | .worker _, .recordQueueFull => False
  | _, _ => True

section Handlers

variable {P : HandlerOp → Prop}

private theorem httpServerSendAndCount_uses (hsend : ∀ response, P (.sendResponse response))
    (hnote : P .noteResponseComplete) (response : Option APIResponse) :
    (httpServerSendAndCount response).Uses P := by
  cases response with
  | none => exact Program.uses_perform hnote
  | some response =>
    exact (Program.uses_perform (hsend response)).bind fun _ => Program.uses_perform hnote

private theorem httpServerSendErrorAndCount_uses (hsend : ∀ response, P (.sendResponse response))
    (hnote : P .noteResponseComplete) {statusCode : Int} {errorType message : List UInt8}
    (herror : P (.buildErrorResponse statusCode errorType message)) :
    (httpServerSendErrorAndCount statusCode errorType message).Uses P :=
  (Program.uses_perform herror).bind (httpServerSendAndCount_uses hsend hnote)

private theorem httpServerRespond_uses (hP : ∀ o, o ≠ .recordQueueFull → P o)
    (request : APIRequest) : (httpServerRespond request).Uses P := by
  have hop {o : HandlerOp} (ho : o ≠ .recordQueueFull) :
      Program.Uses P (Program.perform o : HandlerProg o.Ans) := Program.uses_perform (hP o ho)
  have hreply := httpServerSendAndCount_uses (P := P) (fun _ => hP _ (by rintro ⟨⟩))
    (hP _ (by rintro ⟨⟩))
  have herror (statusCode : Int) (errorType message : List UInt8) :
      (httpServerSendErrorAndCount statusCode errorType message).Uses P :=
    httpServerSendErrorAndCount_uses (fun _ => hP _ (by rintro ⟨⟩)) (hP _ (by rintro ⟨⟩))
      (hP _ (by rintro ⟨⟩))
  -- no branch of the routes records a full queue
  unfold httpServerRespond
  split
  · exact (hop (by rintro ⟨⟩)).bind fun _ => (hop (by rintro ⟨⟩)).bind hreply
  split
  · exact (hop (by rintro ⟨⟩)).bind fun _ => (hop (by rintro ⟨⟩)).bind fun _ =>
      (hop (by rintro ⟨⟩)).bind hreply
  split
  · refine (hop (by rintro ⟨⟩)).bind fun execution => ?_
    cases execution with
    | none => exact herror ..
    | some execution =>
      refine (hop (by rintro ⟨⟩)).bind fun response => ?_
      cases response with
      | none => exact herror ..
      | some response => exact hreply _
  split
  · exact herror ..
  split
  · exact herror ..
  split
  · exact herror ..
  · exact herror ..

/-- Each handler keeps to what its thread may do. -/
theorem ServerThread.handler_uses (thread : ServerThread) : thread.handler.Uses thread.May := by
  cases thread with
  | main =>
    exact (Program.uses_perform trivial).bind fun _ =>
      httpServerSendErrorAndCount_uses (fun _ => trivial) trivial trivial
  | worker w =>
    have hP (o : HandlerOp) (ho : o ≠ .recordQueueFull) : (ServerThread.worker w).May o := by
      cases o with
      | recordQueueFull => exact absurd rfl ho
      | _ => trivial
    have herror (message : List UInt8) :
        (httpServerSendErrorAndCount 400 (bytes "malformed_http") message).Uses
          (ServerThread.worker w).May :=
      httpServerSendErrorAndCount_uses (fun _ => trivial) trivial trivial
    refine (Program.uses_perform trivial).bind fun request => ?_
    cases request with
    | error message => exact herror message
    | ok requestBuffer =>
      refine (Program.uses_perform trivial).bind fun parsed => ?_
      cases parsed with
      | error message => exact herror message
      | ok request => exact httpServerRespond_uses hP request

end Handlers

section Books

variable {options : HTTPServerOptions} {spurious : Prop} {t : List ServiceEvent} {s s' : Service}
  {thread : ServerThread}

/-- What is left of a handler keeps to it. -/
theorem ServiceRun.uses (h : ServiceRun options spurious t s) :
    ∀ thread c program, s.server.serving thread = some (c, program) →
      program.Uses thread.May := by
  induction h with
  | start hitems hstart =>
    intro thread c program hserving
    obtain ⟨-, queue, -, rfl⟩ := httpServerStart_eq_some hstart
    cases thread <;> cases hserving
  | @step t s s' e hrun hstep ih =>
    intro thread c program hserving
    have hmoves := hstep.serving hrun.inv.server.inv
    generalize s'.server.serving = serving at hmoves hserving
    generalize e.server = event at hmoves
    cases hmoves with
    | same _ => exact ih thread c program hserving
    -- the thread gets a fresh program, of the kind it may run
    | @serve thread' c' _ =>
      rcases eq_or_ne thread thread' with rfl | hne
      · rw [Function.update_self] at hserving
        obtain ⟨-, rfl⟩ := Prod.mk.inj (Option.some.inj hserving)
        exact thread.handler_uses
      · rw [Function.update_of_ne hne] at hserving
        exact ih thread c program hserving
    -- its program goes on with the answer of the operation
    | @answer thread' c' o k answer hcall =>
      rcases eq_or_ne thread thread' with rfl | hne
      · rw [Function.update_self] at hserving
        obtain ⟨-, rfl⟩ := Prod.mk.inj (Option.some.inj hserving)
        exact (ih thread c' _ hcall).2 answer
      · rw [Function.update_of_ne hne] at hserving
        exact ih thread c program hserving
    -- it runs nothing any more
    | @close thread' c' r _ =>
      rcases eq_or_ne thread thread' with rfl | hne
      · rw [Function.update_self] at hserving
        cases hserving
      · rw [Function.update_of_ne hne] at hserving
        exact ih thread c program hserving

/-! ## The gauge of active queries -/

/-- Only a worker is in `db_server_execute`. -/
theorem ServiceRun.inFlight_subset (h : ServiceRun options spurious t s) :
    s.database.inFlight ⊆ ServerThread.worker '' Set.Iio options.workerCount := by
  intro thread hthread
  have hcurrent : ∃ query, query ∈ (s.database.phase thread).current := by
    cases hphase : s.database.phase thread with
    | idle => exact absurd hphase hthread
    | trying query | refused query | executing query _ | finishing query _ =>
      exact ⟨query, List.mem_singleton_self _⟩
  obtain ⟨query, hquery⟩ := hcurrent
  obtain ⟨⟨c, k, hserving⟩, -⟩ := (h.inv.serves thread).phase query hquery
  cases thread with
  | main => exact ((h.uses .main c _ hserving).1 : False).elim
  | worker w =>
    refine ⟨w, ?_, rfl⟩
    have hworker : (s.server.worker w).serving = some (c, .call (.execute query) k) := hserving
    refine Decidable.byContradiction fun hge => ?_
    have hcreated : createdWorkers options s.server.main ≤ w :=
      h.inv.server.createdWorkers_le.trans (not_lt.mp hge)
    rw [h.inv.server.inv.notCreated w hcreated] at hworker
    cases hworker

theorem ServiceRun.ncard_inFlight_le (h : ServiceRun options spurious t s) :
    s.database.inFlight.ncard ≤ options.workerCount := by
  have hfinite : (Set.Iio options.workerCount).Finite := Set.finite_Iio _
  calc s.database.inFlight.ncard
      ≤ (ServerThread.worker '' Set.Iio options.workerCount).ncard :=
        Set.ncard_le_ncard h.inFlight_subset (hfinite.image _)
    _ ≤ (Set.Iio options.workerCount).ncard := Set.ncard_image_le hfinite
    _ = options.workerCount := Set.ncard_Iio_nat _

/-- A run passes through all the prefixes of what happens to the database. -/
theorem ServiceRun.passes (h : ServiceRun options spurious t s)
    {m : List (MetricsEvent ServerThread)} (hm : m <+: databaseTrace t) :
    ∃ t' s', ServiceRun options spurious t' s' ∧ databaseTrace t' = m := by
  induction h with
  | start hitems hstart => exact ⟨[], _, .start hitems hstart, (List.prefix_nil.mp hm).symm⟩
  | @step t s s' e hrun hstep ih =>
    rw [databaseTrace_append] at hm
    cases hevent : e.database with
    | none =>
      rw [hevent, Option.toList_none, List.append_nil] at hm
      exact ih hm
    | some event =>
      rw [hevent, Option.toList_some] at hm
      rcases List.prefix_concat_iff.mp hm with rfl | hm
      · refine ⟨t ++ [e], s', hrun.step hstep, ?_⟩
        rw [databaseTrace_append, hevent, Option.toList_some]
      · exact ih hm

/-- There are never as many calls as the gauge has values. -/
theorem ServiceRun.callsFit (h : ServiceRun options spurious t s)
    (hcount : options.workerCount < 2 ^ 64) : CallsFit (databaseTrace t) := by
  intro m hm
  obtain ⟨t', s', h', rfl⟩ := h.passes hm
  have hle := h'.ncard_inFlight_le
  have hcalls := h'.inv.database.inFlight.2
  omega

/-- The gauge of active queries is exact at any time of any run: it is the number of workers that
are in `db_server_execute`, so it never exceeds their number. -/
theorem ServiceRun.activeQueries_exact (h : ServiceRun options spurious t s)
    (hcount : options.workerCount < 2 ^ 64) :
    s.database.server.metrics.activeQueryRequests.toNat = s.database.inFlight.ncard ∧
      s.database.server.metrics.activeQueryRequests.toNat ≤ options.workerCount := by
  have hactive := h.inv.database.active (h.callsFit hcount)
  exact ⟨hactive, hactive.trans_le h.ncard_inFlight_le⟩

/-- A call that got its lock was let pass at some time, and is then in `sql_execute`. -/
theorem ServiceRun.executing_of_lockOrder (h : ServiceRun options spurious t s)
    {thread : ServerThread} {query : Cursor}
    (hcall : (thread, query) ∈ lockOrder (callTrace (databaseTrace t))) :
    ∃ t' s', ServiceRun options spurious t' s' ∧
      s'.database.phase thread = .executing query (sqlExecute query) := by
  have hacquire := acquire_mem_of_lockOrder hcall
  have hmem : MetricsEvent.call (CallEvent.acquire thread query) ∈ databaseTrace t := by
    obtain ⟨m, hm, hsome⟩ := List.mem_filterMap.mp hacquire
    cases m with
    | call e' =>
      obtain rfl := Option.some.inj hsome
      exact hm
    | _ => cases hsome
  -- the run up to it
  obtain ⟨before, after, hsplit⟩ := List.append_of_mem hmem
  obtain ⟨t', s', h', htrace⟩ := h.passes
    (⟨after, by rw [hsplit, List.append_assoc]; rfl⟩ :
      before ++ [.call (.acquire thread query)] <+: databaseTrace t)
  refine ⟨t', s', h', ?_⟩
  have hdatabase := h'.inv.database
  rw [htrace] at hdatabase
  generalize s'.database = database at hdatabase
  generalize hlist : before ++ [MetricsEvent.call (CallEvent.acquire thread query)] = list
    at hdatabase
  cases hdatabase with
  | init => exact absurd hlist (List.append_ne_nil_of_right_ne_nil _ (List.cons_ne_nil _ _))
  | step _ hstep =>
    obtain ⟨-, hlast⟩ := List.append_inj' hlist rfl
    obtain rfl := (List.cons.inj hlast).1
    cases hstep with
    | call hstep =>
      cases hstep with
      | acquire _ _ => exact System.enter_phase_self ..

/-- The INSERT of a client of that server is in flight. -/
theorem ServiceRun.activeQueries_exact_insert : ∃ t s, ServiceRun oneOptions False t s ∧
    s.database.phase (.worker 0) = .executing insertKim (sqlExecute insertKim) ∧
    s.database.inFlight = {.worker 0} ∧
    s.database.server.metrics.activeQueryRequests.toNat = s.database.inFlight.ncard ∧
    s.database.server.metrics.activeQueryRequests.toNat ≤ 1 := by
  obtain ⟨t₀, t, t₁, t₂, s, s₁, s', s'', -, hsessions⟩ := kim_session
  have hrun := (hsessions.first.steps hsessions.between).steps hsessions.second
  have hcall : (ServerThread.worker 0, insertKim) ∈
      lockOrder (callTrace (databaseTrace (t₀ ++ t ++ t₁ ++ t₂))) := by
    have horder := hsessions.order
    simp only [lockOrder_trace_append, List.append_assoc] at horder ⊢
    rw [horder]
    exact List.mem_append_right _ (List.mem_cons_self ..)
  obtain ⟨t', r, hexecuting, hphase⟩ := hrun.executing_of_lockOrder hcall
  refine ⟨t', r, hexecuting, hphase, ?_, hexecuting.activeQueries_exact (by decide)⟩
  refine Set.Subset.antisymm (fun thread hthread => ?_) (Set.singleton_subset_iff.mpr ?_)
  · obtain ⟨w, hw, rfl⟩ := hexecuting.inFlight_subset hthread
    obtain rfl : w = 0 := Nat.lt_one_iff.mp hw
    rfl
  · rw [System.mem_inFlight, hphase]
    rintro ⟨⟩

/-! ## The counter of full queues -/

/-- The number of connections that the main thread took to reject them. -/
def rejectedConnections (t : List ServerEvent) : Nat :=
  t.countP fun
    | .serve .main _ => true
    | _ => false

/-- The call that reports a full queue. -/
def HandlerOp.Reports : HandlerOp → Prop
  | .recordQueueFull => True
  | _ => False

/-- The reports that are still to come from a thread that serves this. -/
def ReportsLeft (n : Nat) : Option (HTTPSocket × HandlerProg Unit) → Prop
  | none => n = 0
  | some (_, program) => program.Exactly HandlerOp.Reports n

/-- A rejection is reported once. -/
theorem httpServerReject_reports : httpServerReject.Exactly HandlerOp.Reports 1 := by
  refine .inl ⟨trivial, 0, rfl, fun _ => ?_⟩
  refine Program.exactly_perform_bind not_false fun response => ?_
  cases response with
  | none => exact Program.exactly_perform_bind (f := .ret) not_false fun _ => rfl
  | some response =>
    exact Program.exactly_perform_bind not_false fun _ =>
      Program.exactly_perform_bind (f := .ret) not_false fun _ => rfl

/-- No step of a call adds to the counter of full queues. -/
theorem tally_call_queueFull (m : List (MetricsEvent ServerThread)) (e : CallEvent ServerThread) :
    tally (m ++ [.call e]) .queueFull = tally m .queueFull := by
  rw [tally_append]
  have hnone : (MetricsEvent.call e).counters.count .queueFull = 0 := by
    cases e with
    | start w query =>
      change (dbServerClassifyQuery query).counters.count .queueFull = 0
      cases dbServerClassifyQuery query <;> rfl
    | finish w query execution =>
      change execution.outcome.counters.count .queueFull = 0
      cases execution.outcome <;> rfl
    | _ => rfl
  rw [hnone, Nat.add_zero]

/-- An answer adds to it if it reports one. -/
theorem Service.Answers.queueFull {o : HandlerOp} {answer : o.Ans}
    {e : Option (MetricsEvent ServerThread)} {database' : System ServerThread} {x' : Exchange}
    (h : s.Answers thread o answer e database' x') {before m : List (MetricsEvent ServerThread)}
    (hserves : s.Serves before m thread) :
    o.Reports ∧ tally (m ++ e.toList) .queueFull = tally m .queueFull + 1 ∨
      ¬ o.Reports ∧ tally (m ++ e.toList) .queueFull = tally m .queueFull := by
  cases h with
  | done hjob =>
    -- what a job answers is never the record of a full queue
    have hworks := (hserves.job _ _ hjob).2.1
    refine .inr ⟨?_, by rw [Option.toList_none, List.append_nil]⟩
    cases o with
    | recordQueueFull => exact hworks.elim
    | _ => exact not_false
  | recordQueueFull =>
    refine .inl ⟨trivial, ?_⟩
    rw [Option.toList_some, tally_append]
    rfl
  | recordHealthRequest | recordMetricsRequest | getMetrics =>
    refine .inr ⟨not_false, ?_⟩
    rw [Option.toList_some, tally_append]
    rfl
  | execute _ => exact .inr ⟨not_false, tally_call_queueFull m _⟩
  | noteResponseComplete =>
    refine .inr ⟨not_false, ?_⟩
    rw [Option.toList_none, List.append_nil]

theorem rejectedConnections_append (t t' : List ServerEvent) :
    rejectedConnections (t ++ t') = rejectedConnections t + rejectedConnections t' :=
  List.countP_append

/-- A step in which no call is answered brings a report for each connection that is rejected. -/
theorem ServingStep.reports {f f' : Serving} {e : Option ServerEvent} (h : ServingStep f e f')
    (hcalls : ∀ thread c o k, f thread = some (c, .call o k) → f' thread = some (c, .call o k))
    {n : Nat} (hleft : ReportsLeft n (f .main)) :
    ReportsLeft (n + rejectedConnections e.toList) (f' .main) := by
  cases h with
  | same hnot =>
    have hnone : rejectedConnections e.toList = 0 := by
      cases e with
      | none => rfl
      | some e =>
        cases e with
        | serve thread c => exact absurd rfl (hnot thread c)
        | _ => rfl
    rwa [hnone, Nat.add_zero]
  -- only the main thread serves with a refusal, and the refusal reports once
  | @serve thread c hnone =>
    cases thread with
    | main =>
      rw [hnone] at hleft
      obtain rfl : n = 0 := hleft
      rw [Function.update_self]
      exact httpServerReject_reports
    | worker w =>
      rw [Function.update_of_ne (by rintro ⟨⟩)]
      exact hleft
  -- the handler calls are answered by the service, not by this step
  | @answer thread c o k answer hcall =>
    have hstays := hcalls thread c o k hcall
    rw [Function.update_self] at hstays
    exact absurd (Prod.mk.inj (Option.some.inj hstays)).2 (Program.apply_ne_call k answer)
  | @close thread c r hret =>
    cases thread with
    | main =>
      rw [hret] at hleft
      rw [Function.update_self]
      exact hleft
    | worker w =>
      rw [Function.update_of_ne (by rintro ⟨⟩)]
      exact hleft

/-- Every rejected connection was reported to the metrics, or is about to be. -/
theorem ServiceRun.reports (h : ServiceRun options spurious t s) :
    ∃ n, ReportsLeft n (s.server.serving .main) ∧
      rejectedConnections (serverTrace t) = tally (databaseTrace t) .queueFull + n := by
  induction h with
  | start hitems hstart =>
    obtain ⟨-, queue, -, rfl⟩ := httpServerStart_eq_some hstart
    exact ⟨0, rfl, rfl⟩
  | @step t s s' e hrun hstep ih =>
    obtain ⟨n, hleft, hcount⟩ := ih
    have hinv := hrun.inv.server.inv
    rw [serverTrace_append, rejectedConnections_append, databaseTrace_append, hcount]
    cases hstep with
    | server hserver hcalls =>
      refine ⟨_, (hserver.serving hinv).reports hcalls hleft, ?_⟩
      rw [Option.toList_none, List.append_nil, Nat.add_assoc]
    | begin | operation => exact ⟨n, hleft, by simp [rejectedConnections]⟩
    | execute _ _ =>
      refine ⟨n, hleft, ?_⟩
      rw [Option.toList_some, tally_call_queueFull]
      rfl
    | database _ _ _ =>
      refine ⟨n, hleft, ?_⟩
      rw [Option.toList_some, tally_call_queueFull]
      rfl
    | @answer thread c o k answer e database' x' hcall hanswer =>
      have hserving := ServerState.serving_resume options s.server o c (k answer) thread
      have hevent : rejectedConnections (o.event thread c).toList = 0 := by cases o <;> rfl
      change ∃ n', ReportsLeft n' ((s.server.resume options o c (k answer) thread).serving .main) ∧
        tally (databaseTrace t) .queueFull + n + rejectedConnections (o.event thread c).toList =
          tally (databaseTrace t ++ e.toList) .queueFull + n'
      rw [hserving, hevent]
      cases thread with
      | main =>
        rw [hcall] at hleft
        rw [Function.update_self]
        -- the main thread answers a refusal: the report it owed is now in the tally
        rcases hanswer.queueFull (hrun.inv.serves .main) with ⟨hreports, htally⟩ | ⟨hnot, htally⟩
        · obtain ⟨n', rfl, hrest⟩ := Program.Exactly.count hreports hleft
          exact ⟨n', hrest answer, by omega⟩
        · exact ⟨n, Program.Exactly.other hnot hleft answer, by omega⟩
      | worker w =>
        rw [Function.update_of_ne (by rintro ⟨⟩)]
        -- a worker never reports
        rcases hanswer.queueFull (hrun.inv.serves (.worker w)) with ⟨hreports, -⟩ | ⟨-, htally⟩
        · have hmay := (hrun.uses (.worker w) c _ hcall).1
          cases o with
          | recordQueueFull => exact hmay.elim
          | _ => exact hreports.elim
        · exact ⟨n, hleft, by omega⟩

/-! ## The end -/

/-- Nobody holds anything, and the books balance. -/
structure Service.Settled (options : HTTPServerOptions) (t : List ServiceEvent) (s : Service) :
    Prop where
  closed : ∀ c, s.server.isOpen c = false
  queue : s.server.queue.pending = []
  threads : ∀ thread, s.server.serving thread = none ∧ s.job thread = .none ∧
    s.database.phase thread = .idle
  /-- The lock is free, and the table is that of the calls one after the other. -/
  database : ∃ answers, Serialized (callTrace (databaseTrace t)) s.database answers
  counters : ∀ c, s.database.server.metrics.value c = UInt64.ofNat (tally (databaseTrace t) c)
  active : options.workerCount < 2 ^ 64 → s.database.server.metrics.activeQueryRequests = 0
  queueFull : s.database.server.metrics.totalQueueFull =
    UInt64.ofNat (rejectedConnections (serverTrace t))
  completed : s.server.completedResponses =
    UInt64.ofNat (acceptedConnections (serverTrace t))

/-- When `http_server_run` has returned on its normal path everything is settled; the counters are
equal modulo 2^64. -/
theorem ServiceRun.settles (h : ServiceRun options spurious t s)
    (hmain : s.server.main = .returned 0) : s.Settled options t := by
  have hinv := h.inv
  obtain ⟨-, stage, hlife, hplaced⟩ := hinv.server.placed
  have hover (c : HTTPSocket) :=
    closed_of_returned hinv.server.inv hinv.server.workerCount_pos hmain (hplaced c)
  -- nobody serves: a connection that is served is not closed yet
  have hnone (thread : ServerThread) : s.server.serving thread = none := by
    cases hserving : s.server.serving thread with
    | none => rfl
    | some served =>
      obtain ⟨c, program⟩ := served
      obtain ⟨counted, hstage, -⟩ := (hplaced c).serving thread program hserving
      rw [(hover c).2] at hstage
      cases hstage
  -- and who serves nothing has no call under way
  have hidle (thread : ServerThread) : s.job thread = .none ∧ s.database.phase thread = .idle := by
    obtain ⟨hjob, hphase⟩ := (hinv.serves thread).idle fun c o k => by
      rw [hnone]
      rintro ⟨⟩
    exact ⟨hjob, CallPhase.eq_idle hphase⟩
  have hcounters := hinv.database.value
  constructor
  · intro c
    refine eq_false_of_ne_true fun hopen => ?_
    exact (hplaced c).isOpen.mp hopen (hover c).2
  · exact (hover 0).1
  · exact fun thread => ⟨hnone thread, hidle thread⟩
  · obtain ⟨metrics, hcalls⟩ := hinv.database.calls
    obtain ⟨answers, hserialized⟩ := hcalls.serialized fun thread => (hidle thread).2
    exact ⟨answers, { hserialized with table := hserialized.table, lock := hserialized.lock }⟩
  · exact hcounters
  · intro hcount
    -- no call is in flight, so the gauge is zero
    have hempty : s.database.inFlight = ∅ :=
      Set.eq_empty_iff_forall_notMem.mpr fun thread hthread => hthread (hidle thread).2
    have hactive := h.inv.database.active (h.callsFit hcount)
    rw [hempty, Set.ncard_empty] at hactive
    exact UInt64.toNat_inj.mp hactive
  · -- the main thread owes no report any more
    obtain ⟨n, hleft, hcount⟩ := h.reports
    rw [hnone] at hleft
    obtain rfl : n = 0 := hleft
    rw [hcount, Nat.add_zero]
    exact hcounters .queueFull
  · rw [hinv.server.completed, countedConnections, hlife.count_eq fun c => (hover c).2,
      acceptedConnections]

/-- A server that returns when it has served two clients. -/
theorem ServiceRun.settles_one : ∃ t s, ServiceRun oneOptions False t s ∧
    s.server.main = .returned 0 ∧ lockOrder (callTrace (databaseTrace t)) ≠ [] ∧
    s.Settled oneOptions t := by
  obtain ⟨t₀, t, t₁, t₂, s, s₁, s', s'', horder₀, hsessions⟩ := kim_session
  have hrun := (hsessions.first.steps hsessions.between).steps hsessions.second
  obtain ⟨n, hrest, hrests⟩ := hsessions.rests
  obtain ⟨s₃, hreturns, hmain⟩ := one_returns hrests.server
  obtain ⟨t₃, h₃, -, -⟩ := hrun.leads (hrest.trans hreturns)
  refine ⟨_, s₃, h₃, hmain, ?_, h₃.settles hmain⟩
  have horder := hsessions.order
  simp only [lockOrder_trace_append] at horder ⊢
  rw [horder₀, List.nil_append, horder]
  exact List.cons_ne_nil _ _

end Books

end SqlApi.Server

import SqlApi.Server.Service

/-!
# Every client gets the reply it asks for

The invariant of the whole server, thread by thread: what is left of a handler ensures its outcome
from the exchange it has (`Program.Ensures`), what is left of a call answers it as the handler
expects, and what a query returned keeps its rows. No step of any thread breaks it.

## How the proof goes

`ServiceInv` holds for every thread on its own (`Service.Serves`): a step of another thread keeps
what this one relies on, because records that were found stay what they are, and because the
trace only grows. So the step lemma has one case for the thread that moves and one for all the
others.
-/

namespace SqlApi.Server

open SqlApi.Lib SqlApi.Core

/-! ## Calls and metrics -/

section Metrics

variable {W : Type} [DecidableEq W] {s s' : System W} {e : CallEvent W}
  {t : List (MetricsEvent W)} {execution : DBServerExecution} {rows : List Row}

/-- Calls go on the same whatever the metrics are. -/
theorem System.Step.setMetrics (h : s.Step e s') (metrics : DBServerMetrics) :
    ∃ metrics', (s.setMetrics metrics).Step e (s'.setMetrics metrics') := by
  cases h with
  | start query hidle => exact ⟨_, .start (s := s.setMetrics metrics) query hidle⟩
  | refuse htrying hkind => exact ⟨_, .refuse (s := s.setMetrics metrics) htrying hkind⟩
  | retry hrefused => exact ⟨_, .retry (s := s.setMetrics metrics) hrefused⟩
  | timeout hrefused => exact ⟨_, .timeout (s := s.setMetrics metrics) hrefused⟩
  | acquire htrying hlock => exact ⟨_, .acquire (s := s.setMetrics metrics) htrying hlock⟩
  | operation hexecuting hop =>
    exact ⟨_, .operation (s := s.setMetrics metrics) hexecuting hop⟩
  | release hexecuting => exact ⟨_, .release (s := s.setMetrics metrics) hexecuting⟩
  | finish hfinishing => exact ⟨_, .finish (s := s.setMetrics metrics) hfinishing⟩

omit [DecidableEq W] in
theorem callTrace_append (t t' : List (MetricsEvent W)) :
    callTrace (t ++ t') = callTrace t ++ callTrace t' := List.filterMap_append

/-- The calls in a run with other uses of the metrics. -/
theorem MetricsRun.calls (h : MetricsRun t s) :
    ∃ metrics, System.Run (callTrace t) (s.setMetrics metrics) := by
  -- the induction is on the run; the steps of the counters alone are left out
  induction h with
  | init => exact ⟨_, .init⟩
  | step _ hstep ih =>
    obtain ⟨metrics, hrun⟩ := ih
    rw [callTrace_append]
    cases hstep with
    | call hcall =>
      obtain ⟨metrics', hcall'⟩ := hcall.setMetrics metrics
      exact ⟨metrics', hrun.step hcall'⟩
    | recordHealthRequest | recordMetricsRequest | recordQueueFull | getMetrics =>
      refine ⟨metrics, ?_⟩
      rw [show callTrace [_] = [] from rfl, List.append_nil]
      exact hrun

omit [DecidableEq W] in
theorem Spared.setMetrics {n : Nat} {m : Memory} (h : Spared n m s) (metrics : DBServerMetrics) :
    Spared n m (s.setMetrics metrics) := ⟨h.noFailure, h.records, h.programs⟩

omit [DecidableEq W] in
theorem Kept.setMetrics (h : Kept s execution rows) (metrics : DBServerMetrics) :
    Kept (s.setMetrics metrics) execution rows := by
  obtain ⟨n, m, hok, hspared, hbuilt⟩ := h.built
  exact ⟨h.typed, n, m, hok, hspared.setMetrics metrics, hbuilt⟩

/-- Other uses of the metrics keep what a call returned. -/
theorem MetricsStep.kept {e : MetricsEvent W} (hstep : MetricsStep s e s')
    (h : Kept s execution rows) : Kept s' execution rows := by
  cases hstep with
  | call hcall => exact h.step hcall
  | recordHealthRequest | recordMetricsRequest | recordQueueFull => exact h.setMetrics _
  | getMetrics => exact h

theorem MetricsStep.spared {e : MetricsEvent W} (hstep : MetricsStep s e s') {n : Nat} {m : Memory}
    (h : Spared n m s) : Spared n m s' := by
  cases hstep with
  | call hcall => exact h.step hcall
  | recordHealthRequest | recordMetricsRequest | recordQueueFull => exact h.setMetrics _
  | getMetrics => exact h

theorem MetricsRun.spared (h : MetricsRun t s) : Spared 0 tableCreate s := by
  obtain ⟨metrics, hrun⟩ := h.calls
  exact hrun.spared.setMetrics s.server.metrics

end Metrics

/-! ## What is left of a call -/

section Jobs

variable {database database' : System ServerThread} {o : HandlerOp} {x x' : Exchange}
  {program program' : Prog (Option (o.Ans × Exchange))} {answer : o.Ans}

/-- The calls that work on the memory and the connection. -/
def HandlerOp.Works : HandlerOp → Prop
  | .execute _ | .getMetrics | .recordHealthRequest | .recordMetricsRequest | .recordQueueFull
  | .noteResponseComplete => False
  | _ => True

/-- What is left of a call reads only records that nobody is going to touch, and answers the call
as the handler expects. -/
def JobOk (database : System ServerThread) (o : HandlerOp) (x : Exchange)
    (program : Prog (Option (o.Ans × Exchange))) : Prop :=
  o.Works ∧ ∃ records n m result, m.NoFailure ∧ Spared n m database ∧
    (∀ p ∈ records, p < n ∧ ∃ r, m.record? p = some r) ∧
    Program.Uses (Op.Prints records) program ∧ program.run m = some (result, m) ∧
    ∀ answer x', result = some (answer, x') → o.Answers x answer x'

/-- Printing leaves the memory alone. -/
private theorem exec_of_prints {records : List RecPtr} {op : Op} {m : Memory}
    {r : op.Ans × Memory} (hop : Op.Prints records op) (hok : m.NoFailure)
    (hr : exec op m = some r) : r.2 = m := by
  cases op with
  | getRecord p =>
    obtain ⟨record, -, rfl⟩ := Option.map_eq_some_iff.mp hr
    rfl
  | malloc =>
    have hmalloc := run_malloc_of hok
    rw [malloc, perform, Prog.run, Program.run_perform] at hmalloc
    rw [Option.some.inj (hr.symm.trans hmalloc)]
  | undefined => cases hr
  | _ => exact hop.elim

theorem JobOk.step {e : MetricsEvent ServerThread} (h : JobOk database o x program)
    (hstep : MetricsStep database e database') : JobOk database' o x program := by
  obtain ⟨hworks, records, n, m, result, hok, hspared, hrest⟩ := h
  exact ⟨hworks, records, n, m, result, hok, hstep.spared hspared, hrest⟩

/-- An operation of the call. -/
theorem JobOk.operation (h : JobOk database o x program) {memory : Memory}
    (hstep : program.step exec database.server.memory = some (program', memory)) :
    memory = database.server.memory ∧ JobOk database o x program' := by
  obtain ⟨hworks, records, n, m, result, hok, hspared, hlive, hprints, hrun, hanswers⟩ := h
  have hsame : SameLive records m database.server.memory := by
    intro p hp
    obtain ⟨hlt, r, hr⟩ := hlive p hp
    exact ⟨r, hr, (hspared.records.same p hlt).trans hr⟩
  have hback : SameLive records database.server.memory m := by
    intro p hp
    obtain ⟨r, hr, hr'⟩ := hsame p hp
    exact ⟨r, hr', hr⟩
  obtain ⟨hprints', op, r, hop, hexec, hmemory⟩ := hprints.step hstep
  obtain rfl : memory = database.server.memory :=
    hmemory.symm.trans (exec_of_prints hop hspared.noFailure hexec)
  -- what is left gives the same result from here, and so from where the call began
  have hnow := run_of_prints hprints hok hspared.noFailure hsame hrun
  rw [Prog.run, Program.run_step hstep] at hnow
  have hrun' := run_of_prints hprints' hspared.noFailure hok hback hnow
  exact ⟨rfl, hworks, records, n, m, result, hok, hspared, hlive, hprints', hrun', hanswers⟩

theorem JobOk.done (h : JobOk database o x (pure (some (answer, x')))) : o.Answers x answer x' := by
  obtain ⟨-, records, n, m, result, -, -, -, -, hrun, hanswers⟩ := h
  obtain ⟨rfl, -⟩ := Prod.mk.inj (Option.some.inj hrun)
  exact hanswers answer x' rfl

/-- A call that reads no records. -/
private theorem jobOk_of_noRecords {m : Memory} (hspared : Spared 0 m database)
    (hworks : o.Works) (hprints : Program.Uses (Op.Prints []) program)
    {result : Option (o.Ans × Exchange)}
    (hrun : program.run database.server.memory = some (result, database.server.memory))
    (hanswers : ∀ answer x', result = some (answer, x') → o.Answers x answer x') :
    JobOk database o x program := by
  have hnone : SameRecords 0 database.server.memory database.server.memory :=
    ⟨Nat.zero_le _, fun _ hp => absurd hp (Nat.not_lt_zero _)⟩
  exact ⟨hworks, [], 0, database.server.memory, result, hspared.noFailure,
    ⟨hspared.noFailure, hnone, hspared.programs⟩, fun _ hp => absurd hp List.not_mem_nil, hprints,
    hrun, hanswers⟩

theorem run_map_of {α β : Type} {p : Prog α} {m : Memory} {a : α}
    (hrun : p.run m = some (a, m)) (f : α → β) : Prog.run (f <$> p) m = some (f a, m) := by
  rw [Prog.run, Program.run_map]
  change (p.run m).map _ = _
  rw [hrun]
  rfl

private theorem prints_apiRenderHttpResponse (response : APIResponse) :
    Program.Uses (Op.Prints []) (apiRenderHttpResponse response) := by
  have hmalloc : Program.Uses (Op.Prints []) malloc := Program.uses_perform trivial
  refine hmalloc.bind fun ok => ?_
  cases ok with
  | false => exact Program.uses_pure _
  | true =>
    dsimp only
    rw [if_pos rfl]
    split
    · exact Program.uses_pure _
    · exact Program.uses_pure _

private theorem prints_httpServerSendResponse (sends : List SendResult) (response : APIResponse) :
    Program.Uses (Op.Prints []) (httpServerSendResponse sends response) := by
  refine (prints_apiRenderHttpResponse response).bind fun raw => ?_
  cases raw with
  | none => exact Program.uses_pure _
  | some rawResponse => exact Program.uses_pure _

/-- Rendering and sending leave the memory alone. -/
private theorem run_httpServerSendResponse_same {m : Memory} (hok : m.NoFailure)
    (sends : List SendResult) (response : APIResponse) :
    ∃ result, (httpServerSendResponse sends response).run m = some (result, m) := by
  -- rendering allocates and writes into its own block, the memory stays
  have hrender : ∃ raw, (apiRenderHttpResponse response).run m = some (raw, m) := by
    unfold apiRenderHttpResponse
    rw [run_bind_of (run_malloc_of hok)]
    dsimp only
    rw [if_pos rfl]
    split
    · exact ⟨_, rfl⟩
    · exact ⟨_, rfl⟩
  obtain ⟨raw, hraw⟩ := hrender
  unfold httpServerSendResponse
  rw [run_bind_of hraw]
  cases raw with
  | none => exact ⟨_, rfl⟩
  | some rawResponse => exact ⟨_, rfl⟩

theorem HandlerOp.Starts.works (h : o.Starts x program) : o.Works := by
  cases h <;> trivial

/-- Such a call changes neither what was executed nor what the metrics were. -/
theorem HandlerOp.Works.keeps (hworks : o.Works) (h : o.Answers x answer x') :
    x'.executed = x.executed ∧ x'.metrics = x.metrics := by
  cases o with
  | readRequest =>
    obtain ⟨recvs, -, rfl⟩ := h
    exact ⟨rfl, rfl⟩
  -- sending notes what was sent and nothing else
  | sendResponse response =>
    have hx' : x' = { x with sent := x'.sent, complete := answer } := h.2
    rw [hx']
    exact ⟨rfl, rfl⟩
  | parseHttpRequest | buildHealthResponse | buildMetricsResponse | buildExecutionResponse
  | buildErrorResponse =>
    obtain rfl : x' = x := h.2
    exact ⟨rfl, rfl⟩
  | _ => exact hworks.elim

/-- A call starts as the handler expects. -/
theorem HandlerOp.Starts.jobOk (h : o.Starts x program) (hallowed : o.Allowed x) {m : Memory}
    (hspared : Spared 0 m database)
    (hkept : ∀ executed, x.executed = some executed →
      Kept database executed.execution executed.rows) : JobOk database o x program := by
  have hok := hspared.noFailure
  have hworks := h.works
  cases h with
  -- each operation that runs by itself, with the memory it reads kept for it
  | @readRequest recvs answer hread =>
    refine jobOk_of_noRecords hspared hworks (Program.uses_pure _) rfl ?_
    rintro _ _ ⟨⟩
    exact ⟨recvs, hread, rfl⟩
  | @parseHttpRequest requestBuffer rest _ =>
    refine jobOk_of_noRecords hspared hworks (Program.uses_pure _) rfl ?_
    intro answer x' hresult
    obtain ⟨answer', hparse, heq⟩ := Option.map_eq_some_iff.mp hresult
    obtain ⟨rfl, rfl⟩ := Prod.mk.inj heq
    exact ⟨⟨rest, hparse⟩, rfl⟩
  | buildHealthResponse =>
    refine jobOk_of_noRecords hspared hworks ((prints_apiSetResponseBody _ _).map _)
      (run_map_of (run_apiBuildHealthResponse hok) _) ?_
    rintro _ _ ⟨⟩
    exact ⟨rfl, rfl⟩
  | buildMetricsResponse metrics =>
    refine jobOk_of_noRecords hspared hworks ((prints_apiSetResponseBody _ _).map _)
      (run_map_of (run_apiBuildMetricsResponse hok metrics) _) ?_
    rintro _ _ ⟨⟩
    exact ⟨rfl, rfl⟩
  | buildErrorResponse statusCode errorType message =>
    have htyped : (APIAnswer.error statusCode errorType message).Typed := hallowed
    have hself : cstr message = message := cstr_eq_self (htyped.error _ _ _ rfl).2.2.2.1
    have hrun := run_error hok (hself.symm ▸ htyped)
    rw [hself] at hrun
    refine jobOk_of_noRecords hspared hworks ((prints_apiBuildErrorResponse _ _ _).map _)
      (run_map_of hrun _) ?_
    rintro _ _ ⟨⟩
    exact ⟨rfl, rfl⟩
  | sendResponse response sends =>
    obtain ⟨result, hrun⟩ := run_httpServerSendResponse_same hok sends response
    refine jobOk_of_noRecords hspared hworks ((prints_httpServerSendResponse _ _).map _)
      (run_map_of hrun _) ?_
    intro ok x' hresult
    obtain ⟨⟨ok', out⟩, rfl, heq⟩ := Option.map_eq_some_iff.mp hresult
    obtain ⟨rfl, rfl⟩ := Prod.mk.inj heq
    refine ⟨fun reply htyped hreply => ?_, rfl⟩
    subst hreply
    exact (httpServerSendResponse_received htyped hok hrun).2
  -- the one that reads records: the rows of its own execution, which are kept
  | buildExecutionResponse execution =>
    obtain ⟨query, rows, hexecuted⟩ := hallowed
    obtain ⟨n, m', hok', hspared', hlive, -, hrun⟩ := (hkept _ hexecuted).built
    refine ⟨hworks, execution.result.records, n, m', _, hok', hspared', hlive,
      (prints_apiBuildExecutionResponse execution).map _, run_map_of hrun _, ?_⟩
    rintro _ _ ⟨⟩
    refine ⟨fun query' rows' heq => ?_, rfl⟩
    rw [hexecuted] at heq
    obtain ⟨-, -, rfl⟩ := Executed.mk.inj (Option.some.inj heq)
    rfl

end Jobs

/-! ## The invariant of a thread -/

/-- What a thread has done when it closes its connection: the client has the reply. -/
def ServerThread.Outcome : ServerThread → Exchange → Prop
  | .main, x => x.Delivers queueFullReply
  | .worker _, x => ∃ reply, x.AsksFor reply ∧ x.Delivers reply

theorem ServerThread.handler_ensures (thread : ServerThread) :
    HandlerProg.Ensures thread.handler thread.Outcome .init := by
  cases thread with
  | main => exact httpServerReject_ensures
  | worker w => exact httpServerHandleClient_ensures

/-- What a thread was told of the database and the metrics on a connection it took behind `before`:
it was true at a moment since then, and still is of the rows. -/
structure Told (database : System ServerThread) (before m : List (MetricsEvent ServerThread))
    (thread : ServerThread) (x : Exchange) : Prop where
  executed : ∀ executed, x.executed = some executed →
    Kept database executed.execution executed.rows ∧
      ∃ earlier later, callTrace m = earlier ++ later ∧
        StartedAfter (callTrace before) earlier thread executed.query ∧
        Linearized earlier thread executed.query executed.execution executed.rows
  metrics : ∀ metrics, x.metrics = some metrics →
    ∃ earlier later, m = earlier ++ later ∧ before <+: earlier ∧
      ∀ c, metrics.value c = UInt64.ofNat (tally earlier c)

section Told

variable {database database' : System ServerThread} {before m : List (MetricsEvent ServerThread)}
  {thread : ServerThread} {x x' : Exchange}

theorem told_init : Told database before m thread .init :=
  ⟨by rintro executed ⟨⟩, by rintro metrics ⟨⟩⟩

theorem Told.of_eq (h : Told database before m thread x) (hexecuted : x'.executed = x.executed)
    (hmetrics : x'.metrics = x.metrics) : Told database before m thread x' :=
  ⟨hexecuted.symm ▸ h.executed, hmetrics.symm ▸ h.metrics⟩

theorem Told.step (h : Told database before m thread x) {e : MetricsEvent ServerThread}
    (hstep : MetricsStep database e database') : Told database' before (m ++ [e]) thread x where
  executed executed hexecuted := by
    obtain ⟨hkept, earlier, later, hsplit, hplace⟩ := h.executed executed hexecuted
    refine ⟨hstep.kept hkept, earlier, later ++ callTrace [e], ?_, hplace⟩
    rw [callTrace_append, hsplit, List.append_assoc]
  metrics metrics hmetrics := by
    obtain ⟨earlier, later, rfl, hvalue⟩ := h.metrics metrics hmetrics
    exact ⟨earlier, later ++ [e], List.append_assoc .., hvalue⟩

end Told

/-- What is left of a handler leads to its outcome, what is left of its call answers it, and what it
was told of the metrics and the database is true. -/
structure Service.Serves (s : Service) (before m : List (MetricsEvent ServerThread))
    (thread : ServerThread) : Prop where
  program : ∀ c program, s.server.serving thread = some (c, program) →
    HandlerProg.Ensures program thread.Outcome (s.exchange thread)
  job : ∀ o program, s.job thread = .working o program →
    (∃ c k, s.server.serving thread = some (c, .call o k)) ∧
      JobOk s.database o (s.exchange thread) program
  /-- A thread is in `db_server_execute` for the call of its handler. -/
  phase : ∀ query ∈ (s.database.phase thread).current,
    (∃ c k, s.server.serving thread = some (c, .call (.execute query) k)) ∧
      StartedAfter (callTrace before) (callTrace m) thread query
  told : s.server.serving thread ≠ none → Told s.database before m thread (s.exchange thread)

section Invariant

variable {options : HTTPServerOptions} {spurious : Prop} {s s' : Service}
  {before m : List (MetricsEvent ServerThread)} {thread : ServerThread}

/-- What happens to the database leaves a thread where it is. -/
theorem Service.Serves.database (h : s.Serves before m thread) {e : MetricsEvent ServerThread}
    {database' : System ServerThread} (hstep : MetricsStep s.database e database')
    (hserving : s'.server.serving thread = s.server.serving thread)
    (hexchange : s'.exchange thread = s.exchange thread) (hjob : s'.job thread = s.job thread)
    (hdatabase : s'.database = database')
    (hphase : ∀ query ∈ (database'.phase thread).current,
      (∃ c k, s.server.serving thread = some (c, .call (.execute query) k)) ∧
        StartedAfter (callTrace before) (callTrace (m ++ [e])) thread query) :
    s'.Serves before (m ++ [e]) thread where
  program := by
    rw [hserving, hexchange]
    exact h.program
  job := by
    rw [hjob, hserving, hexchange, hdatabase]
    intro o program hworking
    obtain ⟨hcall, hok⟩ := h.job o program hworking
    exact ⟨hcall, hok.step hstep⟩
  phase := by
    rw [hdatabase, hserving]
    exact hphase
  told := by
    rw [hserving, hexchange, hdatabase]
    exact fun hserves => (h.told hserves).step hstep

/-- A thread that nothing happens to. -/
theorem Service.Serves.same (h : s.Serves before m thread)
    (hserving : s'.server.serving thread = s.server.serving thread)
    (hexchange : s'.exchange thread = s.exchange thread) (hjob : s'.job thread = s.job thread)
    (hdatabase : s'.database = s.database) : s'.Serves before m thread where
  program := by
    rw [hserving, hexchange]
    exact h.program
  job := by
    rw [hjob, hserving, hexchange, hdatabase]
    exact h.job
  phase := by
    rw [hdatabase, hserving]
    exact h.phase
  told := by
    rw [hserving, hexchange, hdatabase]
    exact h.told

theorem CallPhase.eq_idle {phase : CallPhase} (h : phase.current = []) : phase = .idle := by
  cases phase with
  | idle => rfl
  | _ => cases h

/-- A thread whose handler is at no call works on none. -/
theorem Service.Serves.idle (h : s.Serves before m thread)
    (hidle : ∀ c o k, s.server.serving thread ≠ some (c, .call o k)) :
    s.job thread = .none ∧ (s.database.phase thread).current = [] := by
  constructor
  · cases hjob : s.job thread with
    | none => rfl
    | working o program =>
      obtain ⟨⟨c, k, hserving⟩, -⟩ := h.job o program hjob
      exact absurd hserving (hidle c o k)
  · refine List.eq_nil_iff_forall_not_mem.mpr fun query hquery => ?_
    obtain ⟨⟨c, k, hserving⟩, -⟩ := h.phase query hquery
    exact hidle c _ k hserving

/-- A thread that serves no connection has been told nothing yet. -/
theorem Service.Serves.renew (h : s.Serves before m thread)
    (hnone : s.server.serving thread = none) (before' : List (MetricsEvent ServerThread)) :
    s.Serves before' m thread := by
  have hidle : ∀ c o k, s.server.serving thread ≠ some (c, .call o k) := by
    rw [hnone]
    rintro c o k ⟨⟩
  refine ⟨h.program, h.job, ?_, fun hserves => absurd hnone hserves⟩
  rw [(h.idle hidle).2]
  exact fun _ hquery => absurd hquery List.not_mem_nil

/-- A step of the threads in which no call is answered. -/
theorem Service.Serves.server (h : s.Serves before m thread) {e : Option ServerEvent}
    {server' : ServerState} (hstep : ServingStep s.server.serving e server'.serving)
    (hcalls : ∀ thread c o k, s.server.serving thread = some (c, .call o k) →
      server'.serving thread = some (c, .call o k)) :
    Service.Serves { s with server := server', exchange := s.exchangeAfter e } before m thread := by
  generalize hserving : server'.serving = serving at hstep
  -- a thread that was at no call, and goes on with this program
  have hfresh {served : Option (HTTPSocket × HandlerProg Unit)}
      (hidle : ∀ c o k, s.server.serving thread ≠ some (c, .call o k))
      (hserved : serving thread = served)
      (hprogram : ∀ c program, served = some (c, program) →
        HandlerProg.Ensures program thread.Outcome (s.exchangeAfter e thread))
      (htold : served ≠ none → Told s.database before m thread (s.exchangeAfter e thread)) :
      Service.Serves { s with server := server', exchange := s.exchangeAfter e } before m
        thread := by
    obtain ⟨hjob, hphase⟩ := h.idle hidle
    refine ⟨?_, ?_, ?_, ?_⟩
    · change ∀ c program, server'.serving thread = _ → _
      rw [hserving, hserved]
      exact hprogram
    · change ∀ o program, s.job thread = _ → _
      rw [hjob]
      rintro o program ⟨⟩
    · change ∀ query ∈ (s.database.phase thread).current, _
      rw [hphase]
      exact fun _ hquery => absurd hquery List.not_mem_nil
    · change server'.serving thread ≠ none → _
      rw [hserving, hserved]
      exact htold
  cases hstep with
  | @same e hnot =>
    refine h.same (congrFun hserving thread) ?_ rfl rfl
    unfold Service.exchangeAfter
    split
    · exact absurd rfl (hnot _ _)
    · rfl
  | @serve thread' c hidle =>
    rcases eq_or_ne thread thread' with rfl | hne
    · have hexchange : s.exchangeAfter (some (.serve thread c)) thread = .init :=
        Function.update_self ..
      refine hfresh (fun c o k => ?_) (Function.update_self ..) ?_ ?_
      · rw [hidle]
        rintro ⟨⟩
      · rintro c' program ⟨⟩
        rw [hexchange]
        exact thread.handler_ensures
      · rw [hexchange]
        exact fun _ => told_init
    · refine h.same ?_ (Function.update_of_ne hne ..) rfl rfl
      exact (congrFun hserving thread).trans (Function.update_of_ne hne ..)
  | @answer thread' c o k answer hcall =>
    have hstays := hcalls thread' c o k hcall
    rw [hserving, Function.update_self] at hstays
    exact absurd (Prod.mk.inj (Option.some.inj hstays)).2 (Program.apply_ne_call k answer)
  | @close thread' c r hret =>
    rcases eq_or_ne thread thread' with rfl | hne
    · refine hfresh (fun c o k => ?_) (Function.update_self ..) ?_ (fun hserves => absurd rfl hserves)
      · rw [hret]
        rintro ⟨⟩
      · rintro c' program ⟨⟩
    · refine h.same ?_ rfl rfl rfl
      exact (congrFun hserving thread).trans (Function.update_of_ne hne ..)

/-- How a call is answered is a step of the metrics and the database, or none. -/
theorem Service.Answers.database {o : HandlerOp} {answer : o.Ans}
    {e : Option (MetricsEvent ServerThread)} {database' : System ServerThread} {x' : Exchange}
    (h : s.Answers thread o answer e database' x') :
    e = none ∧ database' = s.database ∨ ∃ e', e = some e' ∧ MetricsStep s.database e' database' := by
  cases h with
  | done | noteResponseComplete => exact .inl ⟨rfl, rfl⟩
  | recordHealthRequest => exact .inr ⟨_, rfl, .recordHealthRequest⟩
  | recordMetricsRequest => exact .inr ⟨_, rfl, .recordMetricsRequest⟩
  | recordQueueFull => exact .inr ⟨_, rfl, .recordQueueFull⟩
  | getMetrics => exact .inr ⟨_, rfl, .getMetrics⟩
  | execute hfinish => exact .inr ⟨_, rfl, .call hfinish⟩

/-- A step of calls takes no worker into a call unless it starts one. -/
theorem System.Step.current {W : Type} [DecidableEq W] {s s' : System W} {e : CallEvent W}
    (h : s.Step e s') {w : W} (hstart : ∀ query, e ≠ .start w query) :
    (s'.phase w).current ⊆ (s.phase w).current := by
  rcases eq_or_ne e.worker w with rfl | hne
  · cases h with
    | start query _ => exact absurd rfl (hstart query)
    | refuse hw _ | retry hw | timeout hw | acquire hw _ | operation hw _ | release hw =>
      have hself := System.enter_phase_self s
      refine (hself _ _).symm ▸ ?_
      exact (congrArg CallPhase.current hw).symm ▸ List.Subset.refl _
    | finish _ => exact (System.enter_phase_self s _ _).symm ▸ List.nil_subset _
  · rw [h.phase_other hne]
    exact List.Subset.refl _

/-- Nor does any step of an answer. -/
theorem Service.Answers.current {o : HandlerOp} {answer : o.Ans}
    {e : Option (MetricsEvent ServerThread)} {database' : System ServerThread} {x' : Exchange}
    (h : s.Answers thread o answer e database' x') (thread' : ServerThread) :
    (database'.phase thread').current ⊆ (s.database.phase thread').current := by
  cases h with
  | execute hfinish => exact hfinish.current (by rintro query ⟨⟩)
  | _ => exact List.Subset.refl _

/-- An event that starts no call. -/
theorem CallEvent.started_eq_nil {W : Type} [DecidableEq W] {e : CallEvent W} {w : W}
    (h : ∀ query, e ≠ .start w query) : e.started w = [] := by
  cases e with
  | start v query =>
    refine CallEvent.started_of_worker_ne fun hv => ?_
    exact h query (congrArg (CallEvent.start · query) hv)
  | _ => rfl

/-- A call that goes on started where it did. -/
theorem Service.Serves.goesOn (h : s.Serves before m thread) {e : MetricsEvent ServerThread}
    {phase : CallPhase} (hcurrent : phase.current ⊆ (s.database.phase thread).current)
    (he : ∀ query, e ≠ .call (.start thread query)) :
    ∀ query ∈ phase.current,
      (∃ c k, s.server.serving thread = some (c, .call (.execute query) k)) ∧
        StartedAfter (callTrace before) (callTrace (m ++ [e])) thread query := by
  intro query hquery
  obtain ⟨hcall, hstarted⟩ := h.phase query (hcurrent hquery)
  refine ⟨hcall, ?_⟩
  rw [callTrace_append]
  cases e with
  | call e =>
    have he' (query : Cursor) : e ≠ .start thread query := fun heq =>
      he query (congrArg MetricsEvent.call heq)
    exact hstarted.concat (CallEvent.started_eq_nil he')
  | recordHealthRequest | recordMetricsRequest | recordQueueFull | getMetrics =>
    rw [show callTrace [_] = [] from rfl, List.append_nil]
    exact hstarted

/-- No answer starts a call. -/
theorem Service.Answers.not_start {o : HandlerOp} {answer : o.Ans}
    {e : MetricsEvent ServerThread} {database' : System ServerThread} {x' : Exchange}
    (h : s.Answers thread o answer (some e) database' x') (thread' : ServerThread)
    (query : Cursor) : e ≠ .call (.start thread' query) := by
  cases h <;> rintro ⟨⟩

/-- What a query is about to return. -/
theorem MetricsRun.finishing {database : System ServerThread} (h : MetricsRun m database)
    {query : Cursor} {execution : DBServerExecution}
    (hfinishing : database.phase thread = .finishing query execution) :
    ∃ rows, Linearized (callTrace m) thread query execution rows ∧ Kept database execution rows ∧
      (database.server.memory.rowsAt execution.result.records).getD [] = rows := by
  obtain ⟨metrics, hrun⟩ := h.calls
  obtain ⟨rows, hplace, hkept⟩ := hrun.linearized hfinishing
  have hkept' : Kept database execution rows := hkept.setMetrics database.server.metrics
  have hrows : database.server.memory.rowsAt execution.result.records = some rows := hkept'.rowsAt
  exact ⟨rows, hplace, hkept', by rw [hrows, Option.getD_some]⟩

/-- What a thread knows and has for the call it makes, once the call is answered. -/
structure Service.Answered (before m : List (MetricsEvent ServerThread)) (thread : ServerThread)
    (o : HandlerOp) (x : Exchange) (answer : o.Ans) (database' : System ServerThread)
    (x' : Exchange) : Prop where
  answers : o.Answers x answer x'
  phase : (database'.phase thread).current = []
  told : Told database' before m thread x'

/-- A call is answered as its handler expects, and what the thread is told is true. -/
theorem Service.Serves.answers (h : s.Serves before m thread) (hrun : MetricsRun m s.database)
    (hbefore : before <+: m) {c : HTTPSocket} {o : HandlerOp} {k : o.Ans → HandlerProg Unit}
    (hcall : s.server.serving thread = some (c, .call o k)) {answer : o.Ans}
    {e : Option (MetricsEvent ServerThread)} {database' : System ServerThread} {x' : Exchange}
    (hanswer : s.Answers thread o answer e database' x') :
    Service.Answered before (m ++ e.toList) thread o (s.exchange thread) answer database' x' := by
  -- what the thread was told before stays true
  have htold : Told database' before (m ++ e.toList) thread (s.exchange thread) := by
    have hnow := h.told (by rw [hcall]; rintro ⟨⟩)
    rcases hanswer.database with ⟨rfl, rfl⟩ | ⟨e', rfl, hstep⟩
    · rw [Option.toList_none, List.append_nil]
      exact hnow
    · exact hnow.step hstep
  -- a thread in another call is in none of the database
  have hphase (hother : ∀ query, o ≠ .execute query) : (database'.phase thread).current = [] := by
    refine List.eq_nil_iff_forall_not_mem.mpr fun query hquery => ?_
    obtain ⟨⟨c', k', hserving⟩, -⟩ := h.phase query (hanswer.current thread hquery)
    rw [hcall] at hserving
    obtain ⟨rfl, -⟩ := Program.call.inj (Prod.mk.inj (Option.some.inj hserving)).2
    exact hother query rfl
  cases hanswer with
  | done hjob =>
    obtain ⟨-, hok⟩ := h.job _ _ hjob
    obtain ⟨hexecuted, hmetrics⟩ := hok.1.keeps hok.done
    refine ⟨hok.done, hphase ?_, htold.of_eq hexecuted hmetrics⟩
    rintro query rfl
    exact hok.1
  | recordHealthRequest | recordMetricsRequest | recordQueueFull | noteResponseComplete =>
    exact ⟨rfl, hphase (by rintro query ⟨⟩), htold⟩
  | getMetrics =>
    refine ⟨rfl, hphase (by rintro query ⟨⟩), htold.executed, ?_⟩
    rintro metrics ⟨⟩
    exact ⟨m, _, rfl, hbefore, hrun.value⟩
  | @execute query execution _ hfinish =>
    have hfinishing : s.database.phase thread = .finishing query execution := by
      cases hfinish with
      | finish hfinishing => exact hfinishing
    have hidle : (database'.phase thread).current = [] := by
      cases hfinish with
      | finish _ =>
        exact congrArg CallPhase.current (System.enter_phase_self s.database thread .idle)
    have hstarted := (h.phase query (hfinishing ▸ List.mem_singleton_self _)).2
    obtain ⟨rows, hplace, hkept, hrows⟩ := hrun.finishing hfinishing
    rw [hrows]
    refine ⟨⟨execution, rows, rfl, hkept.typed, rfl⟩, hidle, ?_, htold.metrics⟩
    rintro executed ⟨⟩
    exact ⟨hkept.step hfinish, callTrace m, _, callTrace_append .., hstarted, hplace⟩

/-- A step keeps what every thread serves. -/
theorem Service.Step.serves {e : ServiceEvent} (hstep : s.Step options spurious e s')
    (hinv : ServerInv options s.server) (hrun : MetricsRun m s.database) (hbefore : before <+: m)
    (hall : ∀ thread', s.Serves [] m thread') (h : s.Serves before m thread) :
    s'.Serves before (m ++ e.database.toList) thread := by
  have hnone {s' : Service} (h : s'.Serves before m thread) :
      s'.Serves before (m ++ (none : Option (MetricsEvent ServerThread)).toList) thread :=
    (List.append_nil m).symm ▸ h
  -- what a thread works on is its job
  have hworking' {o o' : HandlerOp}
      {program : Prog (Option (o.Ans × Exchange))} {program' : Prog (Option (o'.Ans × Exchange))}
      (hworking : Function.update s.job thread (.working o program) thread =
        .working o' program') : ∃ ho : o = o', ho ▸ program = program' := by
    rw [Function.update_self] at hworking
    obtain ⟨rfl, hprogram⟩ := Job.working.inj hworking
    exact ⟨rfl, eq_of_heq hprogram⟩
  cases hstep with
  | server hserver hcalls => exact hnone (h.server (hserver.serving hinv) hcalls)
  | @begin thread' c o k program hcall hidle hstarts =>
    refine hnone ?_
    rcases eq_or_ne thread thread' with rfl | hne
    · refine { h with job := fun o' program' hworking => ?_ }
      obtain ⟨rfl, rfl⟩ := hworking' hworking
      have hallowed := (h.program c _ hcall).allowed
      have htold := h.told (by rw [hcall]; rintro ⟨⟩)
      exact ⟨⟨c, k, hcall⟩, hstarts.jobOk hallowed hrun.spared fun executed hexecuted =>
        (htold.executed executed hexecuted).1⟩
    · exact h.same rfl rfl (Function.update_of_ne hne ..) rfl
  | @operation thread' o program program' memory hworking hop =>
    refine hnone ?_
    obtain ⟨hcall, hok⟩ := (hall thread').job o program hworking
    obtain ⟨rfl, hok'⟩ := hok.operation hop
    rcases eq_or_ne thread thread' with rfl | hne
    · refine { h with job := fun o' program'' hworking => ?_ }
      obtain ⟨rfl, rfl⟩ := hworking' hworking
      exact ⟨hcall, hok'⟩
    · exact h.same rfl rfl (Function.update_of_ne hne ..) rfl
  | @execute thread' c query k database' hcall hstart =>
    refine h.database (.call hstart) rfl rfl rfl rfl ?_
    intro query' hquery
    rcases eq_or_ne thread' thread with rfl | hne
    · have hphase : database'.phase thread' = .trying query := by
        cases hstart with
        | start _ _ => exact System.enter_phase_self s.database thread' _
      rw [hphase] at hquery
      obtain rfl := List.mem_singleton.mp hquery
      refine ⟨⟨c, k, hcall⟩, ?_⟩
      obtain ⟨later, rfl⟩ := hbefore
      rw [callTrace_append]
      exact StartedAfter.start ⟨_, (callTrace_append ..).symm⟩ _ _
    · refine h.goesOn (hstart.current ?_) ?_ query' hquery
      · rintro q ⟨⟩
        exact hne rfl
      · rintro q ⟨⟩
        exact hne rfl
  | database hstart _ hcall =>
    refine h.database (.call hcall) rfl rfl rfl rfl ?_
    refine h.goesOn (hcall.current fun q => hstart thread q) fun q heq => ?_
    exact hstart thread q (MetricsEvent.call.inj heq)
  | @answer thread' c o k answer e database' x' hcall hanswer =>
    have hserving := ServerState.serving_resume options s.server o c (k answer) thread'
    rcases eq_or_ne thread thread' with rfl | hne
    · have hanswered := h.answers hrun hbefore hcall hanswer
      have hexchange : Function.update s.exchange thread x' thread = x' := Function.update_self ..
      have hjob : Function.update s.job thread .none thread = .none := Function.update_self ..
      refine ⟨?_, ?_, ?_, ?_⟩
      · intro c' program hprogram
        change (s.server.resume options o c (k answer) thread).serving thread = _ at hprogram
        rw [hserving, Function.update_self] at hprogram
        obtain ⟨-, rfl⟩ := Prod.mk.inj (Option.some.inj hprogram)
        change HandlerProg.Ensures (k answer) thread.Outcome
          (Function.update s.exchange thread x' thread)
        rw [hexchange]
        exact (h.program c _ hcall).answer hanswered.answers
      · change ∀ o program, Function.update s.job thread .none thread = _ → _
        rw [hjob]
        rintro o' program ⟨⟩
      · change ∀ query ∈ (database'.phase thread).current, _
        rw [hanswered.phase]
        exact fun _ hquery => absurd hquery List.not_mem_nil
      · change _ → Told database' _ _ _ (Function.update s.exchange thread x' thread)
        rw [hexchange]
        exact fun _ => hanswered.told
    · have hother := (congrFun hserving thread).trans (Function.update_of_ne hne ..)
      have hexchange : Function.update s.exchange thread' x' thread = s.exchange thread :=
        Function.update_of_ne hne ..
      have hjob : Function.update s.job thread' .none thread = s.job thread :=
        Function.update_of_ne hne ..
      rcases hanswer.database with ⟨rfl, rfl⟩ | ⟨e', rfl, hdatabase⟩
      · exact hnone (h.same hother hexchange hjob rfl)
      · refine h.database hdatabase hother hexchange hjob rfl ?_
        exact h.goesOn (hanswer.current thread) fun query => hanswer.not_start thread query

/-- What the threads do is a run of the server, what their calls do to the database is a run of it
with its metrics, and every thread keeps its invariant. -/
structure ServiceInv (options : HTTPServerOptions) (spurious : Prop) (t : List ServiceEvent)
    (s : Service) : Prop where
  server : ServerRun options spurious (serverTrace t) s.server
  database : MetricsRun (databaseTrace t) s.database
  serves : ∀ thread, s.Serves [] (databaseTrace t) thread

theorem serverTrace_append (t : List ServiceEvent) (e : ServiceEvent) :
    serverTrace (t ++ [e]) = serverTrace t ++ e.server.toList := by
  obtain ⟨server, database⟩ := e
  cases server <;> simp [serverTrace]

theorem databaseTrace_append (t : List ServiceEvent) (e : ServiceEvent) :
    databaseTrace (t ++ [e]) = databaseTrace t ++ e.database.toList := by
  obtain ⟨server, database⟩ := e
  cases database <;> simp [databaseTrace]

/-- A step of the whole is a step of the threads, or none. -/
theorem Service.Step.server_run {e : ServiceEvent} (hstep : s.Step options spurious e s')
    {t : List ServerEvent} (h : ServerRun options spurious t s.server) :
    ServerRun options spurious (t ++ e.server.toList) s'.server := by
  cases hstep with
  | server hserver _ => exact h.step hserver
  | begin | operation | execute | database =>
    rw [Option.toList_none, List.append_nil]
    exact h
  | answer hcall _ => exact h.step (ServerState.step_resume hcall _)

/-- A step of the whole is a step of the database and its metrics, or none. -/
theorem Service.Step.database_run {e : ServiceEvent} (hstep : s.Step options spurious e s')
    (hserves : ∀ thread, s.Serves [] m thread) (h : MetricsRun m s.database) :
    MetricsRun (m ++ e.database.toList) s'.database := by
  cases hstep with
  | server | begin =>
    rw [Option.toList_none, List.append_nil]
    exact h
  | operation hworking hop =>
    obtain ⟨rfl, -⟩ := ((hserves _).job _ _ hworking).2.operation hop
    rw [Option.toList_none, List.append_nil]
    exact h
  | execute _ hstart => exact h.step (.call hstart)
  | database _ _ hcall => exact h.step (.call hcall)
  | answer _ hanswer =>
    rcases hanswer.database with ⟨rfl, rfl⟩ | ⟨e', rfl, hdatabase⟩
    · rw [Option.toList_none, List.append_nil]
      exact h
    · exact h.step hdatabase

/-- The invariant holds in every run. -/
theorem ServiceRun.inv {t : List ServiceEvent} (h : ServiceRun options spurious t s) :
    ServiceInv options spurious t s := by
  induction h with
  | @start items server hitems hstart =>
    refine ⟨.start hitems hstart, .init, fun thread => ⟨?_, ?_, ?_, fun _ => told_init⟩⟩
    · intro c program hserving
      obtain ⟨-, queue, -, rfl⟩ := httpServerStart_eq_some hstart
      cases thread <;> cases hserving
    · rintro o program ⟨⟩
    · exact fun _ hquery => absurd hquery List.not_mem_nil
  | step _ hstep ih =>
    refine ⟨?_, ?_, ?_⟩
    · rw [serverTrace_append]
      exact hstep.server_run ih.server
    · rw [databaseTrace_append]
      exact hstep.database_run ih.serves ih.database
    · rw [databaseTrace_append]
      exact fun thread => hstep.serves ih.server.inv ih.database List.nil_prefix ih.serves
        (ih.serves thread)

/-- The steps from one state on. -/
inductive Service.Steps (options : HTTPServerOptions) (spurious : Prop) (s : Service) :
    List ServiceEvent → Service → Prop
  | refl : Service.Steps options spurious s [] s
  | step {t : List ServiceEvent} {s' s'' : Service} {e : ServiceEvent} :
      Service.Steps options spurious s t s' → s'.Step options spurious e s'' →
      Service.Steps options spurious s (t ++ [e]) s''

theorem ServiceRun.steps {t t' : List ServiceEvent} (h : ServiceRun options spurious t s)
    (hsteps : s.Steps options spurious t' s') : ServiceRun options spurious (t ++ t') s' := by
  induction hsteps with
  | refl =>
    rw [List.append_nil]
    exact h
  | step _ hstep ih =>
    rw [← List.append_assoc]
    exact ih.step hstep

theorem Service.Steps.trans {s'' : Service} {t t' : List ServiceEvent}
    (h : s.Steps options spurious t s') (h' : s'.Steps options spurious t' s'') :
    s.Steps options spurious (t ++ t') s'' := by
  induction h' with
  | refl =>
    rw [List.append_nil]
    exact h
  | step _ hstep ih =>
    rw [← List.append_assoc]
    exact ih.step hstep

/-- What a thread is told on a connection was true at a moment since it last served none. -/
theorem Service.Steps.serves {t t' : List ServiceEvent} (hsteps : s.Steps options spurious t' s')
    (h : ServiceRun options spurious t s) (hnone : s.server.serving thread = none) :
    s'.Serves (databaseTrace t) (databaseTrace (t ++ t')) thread := by
  induction hsteps with
  | refl =>
    rw [List.append_nil]
    exact (h.inv.serves thread).renew hnone _
  | @step t' s' s'' e hsteps hstep ih =>
    have hinv := (h.steps hsteps).inv
    have hbefore : databaseTrace t <+: databaseTrace (t ++ t') :=
      ⟨_, List.filterMap_append.symm⟩
    rw [← List.append_assoc, databaseTrace_append]
    exact hstep.serves hinv.server.inv hinv.database hbefore hinv.serves ih

/-- How a step of the whole changes what the threads serve. -/
theorem Service.Step.serving {e : ServiceEvent} (hstep : s.Step options spurious e s')
    (hinv : ServerInv options s.server) :
    ServingStep s.server.serving e.server s'.server.serving := by
  cases hstep with
  | server hserver _ => exact hserver.serving hinv
  | begin | operation | execute | database => exact .same (by rintro thread c ⟨⟩)
  | @answer thread c o k answer _ _ _ hcall _ =>
    have hresume : ServerStep options spurious s.server (o.event thread c) _ :=
      ServerState.step_resume hcall answer
    exact hresume.serving hinv

end Invariant

end SqlApi.Server

import SqlApi.Server.Connections
import SqlApi.Server.Exchange
import SqlApi.Server.ReferenceServer

/-!
# The whole server

The threads of `http_server.c`, the calls of their handlers and the database of `db_server.c` in
one system. A step is a step of the threads, one operation of a call on the memory that all share,
one step of `db_server_execute` or one critical section of the metrics, in any order.

- **Projections**: what the threads do is a run of the server, and what their calls do to the
  database is a run of the database with its metrics.
- **Exchanges**: every client is sent the one reply that its request asks for, and what it is told
  about a query has its place in the order of the locks.
-/

namespace SqlApi.Server

open SqlApi.Lib SqlApi.Core

/-! ## The system -/

/-- What a thread does for the call its handler is at: nothing yet, or this is left to do. -/
inductive Job where
  | none
  | working (o : HandlerOp) (program : Prog (Option (o.Ans × Exchange)))

/-- The threads and their connections, the database, and the call each thread works on. -/
structure Service where
  server : ServerState
  database : System ServerThread
  exchange : ServerThread → Exchange
  job : ServerThread → Job

/-- What a call that works on the memory does: what `recv` and `send` answer, and what the buffer
holds behind the request, is not determined. -/
inductive HandlerOp.Starts (x : Exchange) : (o : HandlerOp) → Prog (Option (o.Ans × Exchange)) → Prop
  -- any cutting of any bytes into answers of recv
  | readRequest {recvs : List RecvResult} {answer : Except (List UInt8) (List UInt8)} :
      httpServerReadRequest recvs = some answer →
      Starts x .readRequest (pure (some (answer, { x with received := recvs })))
  -- behind the terminator stands what the stack held before
  | parseHttpRequest {requestBuffer rest : List UInt8} :
      (requestBuffer ++ 0 :: rest).length = httpServerRequestBufferSize →
      Starts x (.parseHttpRequest requestBuffer)
        (pure ((apiParseHttpRequest (requestBuffer ++ 0 :: rest)).map fun answer => (answer, x)))
  | buildHealthResponse :
      Starts x .buildHealthResponse ((fun response => some (response, x)) <$> apiBuildHealthResponse)
  | buildMetricsResponse (metrics : DBServerMetrics) :
      Starts x (.buildMetricsResponse metrics)
        ((fun response => some (response, x)) <$> apiBuildMetricsResponse metrics)
  | buildExecutionResponse (execution : DBServerExecution) :
      Starts x (.buildExecutionResponse execution)
        ((fun response => some (response, x)) <$> apiBuildExecutionResponse execution)
  | buildErrorResponse (statusCode : Int) (errorType message : List UInt8) :
      Starts x (.buildErrorResponse statusCode errorType message)
        ((fun response => some (response, x)) <$> apiBuildErrorResponse statusCode errorType message)
  -- any answers of send
  | sendResponse (response : APIResponse) (sends : List SendResult) :
      Starts x (.sendResponse response)
        ((fun result => result.map fun (ok, out) => (ok, { x with sent := out, complete := ok })) <$>
          httpServerSendResponse sends response)

/-- How a call is answered: what it does to the metrics and the database, and what the exchange is
afterwards. -/
inductive Service.Answers (s : Service) (thread : ServerThread) :
    (o : HandlerOp) → o.Ans → Option (MetricsEvent ServerThread) → System ServerThread → Exchange →
      Prop
  -- an operation that runs by itself has come to its result
  | done {o : HandlerOp} {answer : o.Ans} {x' : Exchange} :
      s.job thread = .working o (pure (some (answer, x'))) →
      Answers s thread o answer none s.database x'
  | recordHealthRequest : Answers s thread .recordHealthRequest () (some .recordHealthRequest)
      (s.database.setMetrics (dbServerRecordHealthRequest s.database.server.metrics))
      (s.exchange thread)
  | recordMetricsRequest : Answers s thread .recordMetricsRequest () (some .recordMetricsRequest)
      (s.database.setMetrics (dbServerRecordMetricsRequest s.database.server.metrics))
      (s.exchange thread)
  | recordQueueFull : Answers s thread .recordQueueFull () (some .recordQueueFull)
      (s.database.setMetrics (dbServerRecordQueueFull s.database.server.metrics))
      (s.exchange thread)
  | getMetrics : Answers s thread .getMetrics (dbServerGetMetrics s.database.server)
      (some (.getMetrics (dbServerGetMetrics s.database.server))) s.database
      { s.exchange thread with metrics := some (dbServerGetMetrics s.database.server) }
  -- the call of the database ends, and the rows it found are noted
  | execute {query : Cursor} {execution : DBServerExecution} {database' : System ServerThread} :
      s.database.Step (.finish thread query execution) database' →
      Answers s thread (.execute query) (some execution)
        (some (.call (.finish thread query execution))) database'
        { s.exchange thread with
          executed := some ⟨query, execution,
            (s.database.server.memory.rowsAt execution.result.records).getD []⟩ }
  | noteResponseComplete : Answers s thread .noteResponseComplete () none s.database
      (s.exchange thread)

/-- A thread goes on behind a call. -/
def ServerState.resume (options : HTTPServerOptions) (s : ServerState) (o : HandlerOp)
    (c : HTTPSocket) (program : HandlerProg Unit) : ServerThread → ServerState
  | .main => (s.afterOp options o).setMain (.rejecting c program)
  | .worker w => (s.afterOp options o).setWorker w (.handling c program)

/-- The exchanges after a step of the threads. -/
def Service.exchangeAfter (s : Service) : Option ServerEvent → ServerThread → Exchange
  | some (.serve thread _) => Function.update s.exchange thread .init
  | _ => s.exchange

/-- What happens: to the connections, and to the metrics and the database. -/
structure ServiceEvent where
  server : Option ServerEvent
  database : Option (MetricsEvent ServerThread)

/-- One step. -/
inductive Service.Step (options : HTTPServerOptions) (spurious : Prop) (s : Service) :
    ServiceEvent → Service → Prop
  /-- A step of the threads, in which no call is answered. -/
  | server {e : Option ServerEvent} {server' : ServerState} :
      ServerStep options spurious s.server e server' →
      (∀ thread c o k, s.server.serving thread = some (c, .call o k) →
        server'.serving thread = some (c, .call o k)) →
      Service.Step options spurious s ⟨e, none⟩
        { s with server := server', exchange := s.exchangeAfter e }
  | begin {thread : ServerThread} {c : HTTPSocket} {o : HandlerOp} {k : o.Ans → HandlerProg Unit}
      {program : Prog (Option (o.Ans × Exchange))} :
      s.server.serving thread = some (c, .call o k) → s.job thread = .none →
      o.Starts (s.exchange thread) program →
      Service.Step options spurious s ⟨none, none⟩
        { s with job := Function.update s.job thread (.working o program) }
  | operation {thread : ServerThread} {o : HandlerOp}
      {program program' : Prog (Option (o.Ans × Exchange))} {memory : Memory} :
      s.job thread = .working o program →
      program.step exec s.database.server.memory = some (program', memory) →
      Service.Step options spurious s ⟨none, none⟩
        { s with
          database := s.database.setMemory memory
          job := Function.update s.job thread (.working o program') }
  | execute {thread : ServerThread} {c : HTTPSocket} {query : Cursor}
      {k : Option DBServerExecution → HandlerProg Unit} {database' : System ServerThread} :
      s.server.serving thread = some (c, .call (.execute query) k) →
      s.database.Step (.start thread query) database' →
      Service.Step options spurious s ⟨none, some (.call (.start thread query))⟩
        { s with database := database' }
  /-- A step of `db_server_execute` between its start and its return. -/
  | database {e : CallEvent ServerThread} {database' : System ServerThread} :
      (∀ thread query, e ≠ .start thread query) →
      (∀ thread query execution, e ≠ .finish thread query execution) →
      s.database.Step e database' →
      Service.Step options spurious s ⟨none, some (.call e)⟩ { s with database := database' }
  | answer {thread : ServerThread} {c : HTTPSocket} {o : HandlerOp} {k : o.Ans → HandlerProg Unit}
      {answer : o.Ans} {e : Option (MetricsEvent ServerThread)} {database' : System ServerThread}
      {x' : Exchange} :
      s.server.serving thread = some (c, .call o k) → s.Answers thread o answer e database' x' →
      Service.Step options spurious s ⟨o.event thread c, e⟩
        { server := s.server.resume options o c (k answer) thread
          database := database'
          exchange := Function.update s.exchange thread x'
          job := Function.update s.job thread .none }

/-- What happens from `http_server_run` on, with a database that was just initialised. -/
inductive ServiceRun (options : HTTPServerOptions) (spurious : Prop) :
    List ServiceEvent → Service → Prop
  | start {items : List HTTPSocket} {server : ServerState} :
      items.length = options.queueCapacity → httpServerStart options items = some server →
      ServiceRun options spurious [] ⟨server, .init, fun _ => .init, fun _ => .none⟩
  | step {t : List ServiceEvent} {s s' : Service} {e : ServiceEvent} :
      ServiceRun options spurious t s → s.Step options spurious e s' →
      ServiceRun options spurious (t ++ [e]) s'

/-- What happened to the connections. -/
def serverTrace (t : List ServiceEvent) : List ServerEvent := t.filterMap ServiceEvent.server

/-- What happened to the metrics and the database. -/
def databaseTrace (t : List ServiceEvent) : List (MetricsEvent ServerThread) :=
  t.filterMap ServiceEvent.database

/-- The steps of calls among what happened to the database. -/
def callTrace {W : Type} (t : List (MetricsEvent W)) : List (CallEvent W) :=
  t.filterMap fun
    | .call e => some e
    | _ => none

/-! ## What threads serve -/

section Serving

variable {options : HTTPServerOptions} {spurious : Prop} {s s' : ServerState}
  {e : Option ServerEvent}

/-- What a thread does with a connection. -/
def ServerThread.handler : ServerThread → HandlerProg Unit
  | .main => httpServerReject
  | .worker _ => httpServerHandleClient

/-- What threads serve, and how that changes. -/
abbrev Serving : Type := ServerThread → Option (HTTPSocket × HandlerProg Unit)

/-- How a step of the threads changes what they serve. -/
inductive ServingStep (f : Serving) : Option ServerEvent → Serving → Prop
  -- nobody starts or stops to serve
  | same {e : Option ServerEvent} : (∀ thread c, e ≠ some (.serve thread c)) → ServingStep f e f
  -- the thread starts the program of its kind
  | serve {thread : ServerThread} {c : HTTPSocket} : f thread = none →
      ServingStep f (some (.serve thread c))
        (Function.update f thread (some (c, thread.handler)))
  | answer {thread : ServerThread} {c : HTTPSocket} {o : HandlerOp} {k : o.Ans → HandlerProg Unit}
      (answer : o.Ans) : f thread = some (c, .call o k) →
      ServingStep f (o.event thread c) (Function.update f thread (some (c, k answer)))
  | close {thread : ServerThread} {c : HTTPSocket} {r : Unit} : f thread = some (c, .ret r) →
      ServingStep f (some (.close thread c)) (Function.update f thread none)

private theorem serving_wakeAll (s : ServerState) : s.wakeAll.serving = s.serving := by
  funext thread
  cases thread with
  | main => rfl
  | worker w =>
    unfold ServerState.wakeAll ServerState.serving
    dsimp only
    cases s.worker w <;> rfl

/-- A step of the threads serves a connection, answers a call, closes a connection, or leaves all
that as it is. -/
theorem ServerStep.serving (h : ServerStep options spurious s e s') (hs : ServerInv options s) :
    ServingStep s.serving e s'.serving := by
  have hnone : ∀ thread c, (none : Option ServerEvent) ≠ some (.serve thread c) := by
    rintro _ _ ⟨⟩
  -- a worker moves on and serves what it served
  have hworker {w : Nat} {phase : WorkerPhase} (s₁ : ServerState) (hs₁ : s₁.serving = s.serving)
      (hserving : phase.serving = (s.worker w).serving) :
      (s₁.setWorker w phase).serving = s.serving := by
    rw [serving_setWorker, hs₁, hserving]
    exact Function.update_eq_self (ServerThread.worker w) s.serving
  have hstay {w : Nat} {phase : WorkerPhase} (s₁ : ServerState) (hs₁ : s₁.serving = s.serving)
      (hserving : phase.serving = (s.worker w).serving) :
      ServingStep s.serving none (s₁.setWorker w phase).serving := by
    rw [hworker s₁ hs₁ hserving]
    exact .same hnone
  -- the main thread does
  have hmove {main : MainPhase} (s₁ : ServerState) (hs₁ : s₁.serving = s.serving)
      (hserving : main.serving = s.main.serving) (he : ∀ thread c, e ≠ some (.serve thread c)) :
      ServingStep s.serving e (s₁.setMain main).serving := by
    rw [serving_setMain, hs₁, serving_main s hserving]
    exact .same he
  cases h with
  | signal => exact .same hnone
  | @create i hmain _ =>
    have hidle : (s.worker i).serving = none := by
      rw [hs.notCreated i (hmain ▸ le_rfl)]
      rfl
    exact hmove _ (hworker s rfl hidle.symm) (by rw [hmain]; rfl) hnone
  | createFails hmain _ | listenFails hmain =>
    exact hmove s.requestStop rfl (by rw [hmain]; rfl) hnone
  | raiseShuttingDown hmain =>
    exact hmove (s.setQueue _) rfl (by rw [hmain]; rfl) (by rintro _ _ ⟨⟩)
  | joinBack hmain _ | returnFailure hmain | created hmain | listen hmain | stop hmain _
  | goOn hmain _ | selectFails hmain | selectTimeout hmain | selectReady hmain
  | acceptFails hmain | join hmain _ _ | joined hmain =>
    exact hmove s rfl (by rw [hmain]; rfl) hnone
  | accept hmain _ _ =>
    exact hmove (s.setOpen _ true) rfl (by rw [hmain]; rfl) (by rintro _ _ ⟨⟩)
  | @pushSignal c w queue hmain _ _ hw =>
    have hwake : ((s.setQueue queue).wake w).serving = s.serving :=
      hworker (s.setQueue queue) rfl (by rw [hw]; rfl)
    exact hmove _ hwake (by rw [hmain]; rfl) hnone
  | pushNoWaiter hmain _ _ _ => exact hmove (s.setQueue _) rfl (by rw [hmain]; rfl) hnone
  | shutdown hmain _ =>
    exact hmove _ (serving_wakeAll _) (by rw [hmain]; rfl) hnone
  | lock hw _ => exact hstay (s.setMutex _) rfl (by rw [hw]; rfl)
  | wait hw => exact hstay (s.setMutex none) rfl (by rw [hw]; rfl)
  | testWait hw _ | wakeUp _ hw | leave hw _ | stay hw _ _ => exact hstay s rfl (by rw [hw]; rfl)
  | @takeNone w queue hw _ _ =>
    exact hstay ((s.setQueue queue).setMutex none) rfl (by rw [hw]; rfl)
  -- up to here no thread serves another connection than before
  | @pushRefused c queue hmain _ _ =>
    have hidle : s.serving .main = none := congrArg MainPhase.serving hmain
    rw [serving_setMain]
    exact .serve hidle
  | @take w c queue hw _ _ _ =>
    have hidle : s.serving (.worker w) = none := congrArg WorkerPhase.serving hw
    rw [serving_setWorker]
    exact .serve hidle
  | @reject c o k answer hmain =>
    have hcall : s.serving .main = some (c, .call o k) := congrArg MainPhase.serving hmain
    rw [serving_setMain, afterOp_serving]
    exact .answer answer hcall
  | @handle w c o k answer hw =>
    have hcall : s.serving (.worker w) = some (c, .call o k) := congrArg WorkerPhase.serving hw
    rw [serving_setWorker, afterOp_serving]
    exact .answer answer hcall
  | @closeRejected c r hmain =>
    have hret : s.serving .main = some (c, .ret r) := congrArg MainPhase.serving hmain
    rw [serving_setMain]
    exact .close hret
  | @closeHandled w c r hw =>
    have hret : s.serving (.worker w) = some (c, .ret r) := congrArg WorkerPhase.serving hw
    rw [serving_setWorker]
    exact .close hret

/-- Who serves a connection is in the phase that says so. -/
theorem phase_of_serving {thread : ServerThread} {c : HTTPSocket} {program : HandlerProg Unit}
    (h : s.serving thread = some (c, program)) :
    match thread with
    | .main => s.main = .rejecting c program
    | .worker w => s.worker w = .handling c program := by
  cases thread with
  | main =>
    change s.main.serving = _ at h
    cases hmain : s.main with
    | rejecting c' program' =>
      rw [hmain] at h
      obtain ⟨rfl, rfl⟩ := Prod.mk.inj (Option.some.inj h)
      rfl
    | _ =>
      rw [hmain] at h
      cases h
  | worker w =>
    change (s.worker w).serving = _ at h
    cases hw : s.worker w with
    | handling c' program' =>
      rw [hw] at h
      obtain ⟨rfl, rfl⟩ := Prod.mk.inj (Option.some.inj h)
      exact hw
    | _ =>
      rw [hw] at h
      cases h

/-- To go on behind a call is a step of the threads. -/
theorem ServerState.step_resume {thread : ServerThread} {c : HTTPSocket} {o : HandlerOp}
    {k : o.Ans → HandlerProg Unit} (h : s.serving thread = some (c, .call o k)) (answer : o.Ans) :
    ServerStep options spurious s (o.event thread c)
      (s.resume options o c (k answer) thread) := by
  have hphase := phase_of_serving h
  cases thread with
  | main => exact .reject answer hphase
  | worker w => exact .handle answer hphase

theorem ServerState.serving_resume (options : HTTPServerOptions) (s : ServerState) (o : HandlerOp)
    (c : HTTPSocket) (program : HandlerProg Unit) (thread : ServerThread) :
    (s.resume options o c program thread).serving =
      Function.update s.serving thread (some (c, program)) := by
  cases thread with
  | main =>
    rw [ServerState.resume, serving_setMain, afterOp_serving]
    rfl
  | worker w =>
    rw [ServerState.resume, serving_setWorker, afterOp_serving]
    rfl

end Serving

end SqlApi.Server

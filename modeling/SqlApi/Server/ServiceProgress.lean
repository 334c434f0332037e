import SqlApi.Server.ServiceReplies

/-!
# Threads that come to an end

Whatever the other threads are doing, a thread can work off the call its handler is at: the
operations on the memory, the steps of `db_server_execute`, and the answer.

`Service.Leads` is a sequence of steps together with the calls it grants the lock to. From a request
to its reply the steps are put together from those of the handler, of the database and of the
building of the response. Runs of a server with one worker are made of them, so that what is said of
every run is about runs that exist.
-/

namespace SqlApi.Server

open SqlApi.Lib SqlApi.Core

/-- A thread goes on behind a call that was answered. -/
def Service.resume (options : HTTPServerOptions) (s : Service) (thread : ServerThread)
    (c : HTTPSocket) (o : HandlerOp) (program : HandlerProg Unit) (database : System ServerThread)
    (x : Exchange) : Service where
  server := s.server.resume options o c program thread
  database := database
  exchange := Function.update s.exchange thread x
  job := Function.update s.job thread .none

/-- A thread works on its call. -/
def Service.working (s : Service) (thread : ServerThread) (o : HandlerOp)
    (program : Prog (Option (o.Ans × Exchange))) (memory : Memory) : Service :=
  { s with
    database := s.database.setMemory memory
    job := Function.update s.job thread (.working o program) }

section Resume

variable (options : HTTPServerOptions) (s : Service) (thread : ServerThread) (c : HTTPSocket)
  (o : HandlerOp) (program : HandlerProg Unit) (database : System ServerThread) (x : Exchange)

@[simp] theorem Service.resume_database :
    (s.resume options thread c o program database x).database = database := rfl

@[simp] theorem Service.resume_exchange :
    (s.resume options thread c o program database x).exchange thread = x :=
  Function.update_self ..

@[simp] theorem Service.resume_job :
    (s.resume options thread c o program database x).job thread = .none := Function.update_self ..

@[simp] theorem Service.resume_serving :
    (s.resume options thread c o program database x).server.serving thread = some (c, program) := by
  change (s.server.resume options o c program thread).serving thread = _
  rw [ServerState.serving_resume, Function.update_self]

end Resume

/-! ## Where the threads lead -/

/-- A state leads to another in steps that grant the lock to these calls. -/
def Service.Leads (options : HTTPServerOptions) (spurious : Prop) (s : Service)
    (calls : List (ServerThread × Cursor)) (s' : Service) : Prop :=
  ∃ t, s.Steps options spurious t s' ∧ lockOrder (callTrace (databaseTrace t)) = calls

section Progress

variable {options : HTTPServerOptions} {spurious : Prop} {t : List ServiceEvent}
  {s s' s'' : Service} {thread : ServerThread} {c : HTTPSocket} {o : HandlerOp}
  {k : o.Ans → HandlerProg Unit} {calls calls' : List (ServerThread × Cursor)}

theorem lockOrder_trace_append (t t' : List ServiceEvent) :
    lockOrder (callTrace (databaseTrace (t ++ t'))) =
      lockOrder (callTrace (databaseTrace t)) ++ lockOrder (callTrace (databaseTrace t')) := by
  rw [databaseTrace, List.filterMap_append, callTrace_append, lockOrder_append]
  rfl

theorem Service.Leads.refl (s : Service) : s.Leads options spurious [] s := ⟨[], .refl, rfl⟩

theorem Service.Leads.trans (h : s.Leads options spurious calls s')
    (h' : s'.Leads options spurious calls' s'') : s.Leads options spurious (calls ++ calls') s'' := by
  obtain ⟨t, hsteps, rfl⟩ := h
  obtain ⟨t', hsteps', rfl⟩ := h'
  exact ⟨t ++ t', hsteps.trans hsteps', lockOrder_trace_append t t'⟩

/-- One step. -/
theorem Service.Step.leads {e : ServiceEvent} (h : s.Step options spurious e s') :
    s.Leads options spurious (lockOrder (callTrace e.database.toList)) s' := by
  refine ⟨[e], Service.Steps.refl.step h, ?_⟩
  obtain ⟨server, database⟩ := e
  cases database <;> rfl

theorem ServiceRun.leads (h : ServiceRun options spurious t s)
    (hleads : s.Leads options spurious calls s') :
    ∃ t', ServiceRun options spurious (t ++ t') s' ∧ s.Steps options spurious t' s' ∧
      lockOrder (callTrace (databaseTrace t')) = calls := by
  obtain ⟨t', hsteps, hcalls⟩ := hleads
  exact ⟨t', h.steps hsteps, hsteps, hcalls⟩

/-- What a thread was working on does not matter behind the answer. -/
theorem Service.working_resume {program : Prog (Option (o.Ans × Exchange))} {memory : Memory}
    (program' : HandlerProg Unit) (database : System ServerThread) (x : Exchange) :
    (s.working thread o program memory).resume options thread c o program' database x =
      s.resume options thread c o program' database x := by
  unfold Service.working Service.resume
  rw [Function.update_idem]

/-- A thread performs all operations of its call. -/
theorem Service.leads_operations {program : Prog (Option (o.Ans × Exchange))}
    {result : Option (o.Ans × Exchange)} {memory : Memory}
    (hworking : s.job thread = .working o program)
    (hrun : program.run s.database.server.memory = some (result, memory)) :
    s.Leads options spurious [] (s.working thread o (pure result) memory) := by
  -- the induction is on the program that is left to run
  induction program generalizing s with
  | ret result' =>
    obtain ⟨rfl, rfl⟩ : result' = result ∧ s.database.server.memory = memory := by simpa using hrun
    have hjob : Function.update s.job thread (.working o (pure result')) = s.job :=
      Function.update_eq_self_iff.mpr hworking.symm
    unfold Service.working
    rw [hjob]
    exact .refl s
  | call op k ih =>
    rw [Prog.run, Program.run_call, Option.bind_eq_some_iff] at hrun
    obtain ⟨r, hr, hrest⟩ := hrun
    have hop : Program.step exec (.call op k) s.database.server.memory = some (k r.1, r.2) := by
      rw [Program.step, hr]
      rfl
    have hstep : s.Step options spurious ⟨none, none⟩ (s.working thread o (k r.1) r.2) :=
      .operation hworking hop
    have hlater := ih r.1 (s := s.working thread o (k r.1) r.2) (Function.update_self ..) hrest
    unfold Service.working at hlater ⊢
    rw [Function.update_idem] at hlater
    exact hstep.leads.trans hlater

/-- What a thread is working on can be finished, if it comes to an answer. -/
theorem Service.leads_job (hcall : s.server.serving thread = some (c, .call o k))
    {program : Prog (Option (o.Ans × Exchange))} {answer : o.Ans} {x' : Exchange} {memory : Memory}
    (hworking : s.job thread = .working o program)
    (hrun : program.run s.database.server.memory = some (some (answer, x'), memory)) :
    s.Leads options spurious []
      (s.resume options thread c o (k answer) (s.database.setMemory memory) x') := by
  have hworked : s.Leads options spurious [] (s.working thread o _ memory) :=
    Service.leads_operations hworking hrun
  have hdone : (s.working thread o (pure (some (answer, x'))) memory).Answers thread o answer none
      (s.database.setMemory memory) x' := .done (Function.update_self ..)
  have hanswer : (s.working thread o (pure (some (answer, x'))) memory).Step options spurious
      ⟨o.event thread c, none⟩ _ := .answer hcall hdone
  exact hworked.trans (Service.working_resume .. ▸ hanswer.leads)

/-- A call that works on the memory can be worked off. -/
theorem Service.leads_work (hcall : s.server.serving thread = some (c, .call o k))
    (hidle : s.job thread = .none) {program : Prog (Option (o.Ans × Exchange))} {answer : o.Ans}
    {x' : Exchange} {memory : Memory} (hstarts : o.Starts (s.exchange thread) program)
    (hrun : program.run s.database.server.memory = some (some (answer, x'), memory)) :
    s.Leads options spurious []
      (s.resume options thread c o (k answer) (s.database.setMemory memory) x') := by
  have hbegin : s.Step options spurious ⟨none, none⟩
      (s.working thread o program s.database.server.memory) := .begin hcall hidle hstarts
  have hjob : Service.Leads options spurious _ [] _ := Service.leads_job
    (s := s.working thread o program s.database.server.memory) hcall (Function.update_self ..) hrun
  rw [Service.working_resume] at hjob
  exact hbegin.leads.trans hjob

/-- A call that is answered at once. -/
theorem Service.leads_answer (hcall : s.server.serving thread = some (c, .call o k))
    {answer : o.Ans} {e : Option (MetricsEvent ServerThread)} {database' : System ServerThread}
    {x' : Exchange} (hanswer : s.Answers thread o answer e database' x') :
    s.Leads options spurious []
      (s.resume options thread c o (k answer) database' x') := by
  have hstep : s.Step options spurious _ _ := .answer hcall hanswer
  have hleads := hstep.leads
  have hnone : lockOrder (callTrace e.toList) = [] := by
    cases hanswer <;> rfl
  rwa [hnone] at hleads

end Progress

/-! ## Queries -/

section Execute

variable {options : HTTPServerOptions} {spurious : Prop} {t : List ServiceEvent} {s : Service}
  {thread : ServerThread} {c : HTTPSocket} {query : Cursor}
  {k : Option DBServerExecution → HandlerProg Unit}
  {Q : List (ServerThread × Cursor) → DBServerExecution → Memory → Prop}

/-- Nobody but this thread has moved in the database. -/
def System.Beside (s s' : System ServerThread) (thread : ServerThread) : Prop :=
  ∀ thread' ≠ thread, s'.phase thread' = s.phase thread'

theorem System.Beside.trans {s₁ s₂ s₃ : System ServerThread} (h : s₁.Beside s₂ thread)
    (h' : s₂.Beside s₃ thread) : s₁.Beside s₃ thread :=
  fun thread' hne => (h' thread' hne).trans (h thread' hne)

theorem System.Step.beside {database database' : System ServerThread} {e : CallEvent ServerThread}
    (h : database.Step e database') (he : e.worker = thread) : database.Beside database' thread :=
  fun _ hne => h.phase_other (he.trans_ne hne.symm)

/-- The call of `db_server_execute` can come to its return, and this holds then of the grants, of
what it returns and of the memory. -/
def Service.Executes (options : HTTPServerOptions) (spurious : Prop) (s : Service)
    (thread : ServerThread) (c : HTTPSocket) (query : Cursor)
    (k : Option DBServerExecution → HandlerProg Unit)
    (Q : List (ServerThread × Cursor) → DBServerExecution → Memory → Prop) : Prop :=
  ∃ calls execution database',
    s.Leads options spurious calls
      (s.resume options thread c (.execute query) (k (some execution)) database'
        { s.exchange thread with
          executed := some ⟨query, execution,
            (database'.server.memory.rowsAt execution.result.records).getD []⟩ }) ∧
      s.database.Beside database' thread ∧ database'.phase thread = .idle ∧
      Q calls execution database'.server.memory

/-- It can if it can from a later state. -/
private theorem Service.Executes.step {e : CallEvent ServerThread}
    {database' : System ServerThread} (hdatabase : s.database.Step e database')
    (hstep : s.Step options spurious ⟨none, some (.call e)⟩ { s with database := database' })
    (he : e.worker = thread)
    (h : Service.Executes options spurious { s with database := database' } thread c query k
      fun calls => Q (e.grant ++ calls)) :
    Service.Executes options spurious s thread c query k Q := by
  obtain ⟨calls, execution, database'', hleads, hbeside, hdone⟩ := h
  have hgrant : lockOrder (callTrace [.call e]) = e.grant := lockOrder_concat [] e
  have hall := hstep.leads.trans hleads
  rw [show (Option.some (MetricsEvent.call e)).toList = [.call e] from rfl, hgrant] at hall
  exact ⟨_, execution, database'', hall, (hdatabase.beside he).trans hbeside, hdone⟩

/-- The call returns. -/
private theorem Service.executes_finishing
    (hcall : s.server.serving thread = some (c, .call (.execute query) k))
    {execution : DBServerExecution} (hphase : s.database.phase thread = .finishing query execution)
    (hQ : Q [] execution s.database.server.memory) :
    Service.Executes options spurious s thread c query k Q := by
  have hstep : s.database.Step (.finish thread query execution) _ := .finish hphase
  have hanswered : s.Leads options spurious [] _ := Service.leads_answer hcall (.execute hstep)
  exact ⟨[], execution, (s.database.enter thread .idle).setMetrics
    (dbServerMetricsQueryFinished execution s.database.server.metrics), hanswered,
    hstep.beside rfl, System.enter_phase_self .., hQ⟩

/-- `sql_execute` comes to its end, and the lock is released. -/
private theorem ServiceRun.executes_executing {p : Prog SQLResult}
    (h : ServiceRun options spurious t s)
    (hcall : s.server.serving thread = some (c, .call (.execute query) k))
    (hphase : s.database.phase thread = .executing query p)
    (hQ : ∀ result m, p.run s.database.server.memory = some (result, m) →
      Q [] (dbServerDone (dbServerBegin query) result) m) :
    Service.Executes options spurious s thread c query k Q := by
  induction p generalizing s t with
  | ret result =>
    have hdatabase : s.database.Step (.release thread query result) _ := .release hphase
    refine Service.Executes.step hdatabase
      (.database (by rintro _ _ ⟨⟩) (by rintro _ _ _ ⟨⟩) hdatabase) rfl ?_
    exact Service.executes_finishing hcall (System.enter_phase_self ..) (hQ result _ rfl)
  | call op k' ih =>
    -- no operation of a statement is undefined
    obtain ⟨metrics, hcalls⟩ := h.inv.database.calls
    rcases hcalls.progress hphase with ⟨result, heq⟩ | ⟨p', memory, hop⟩
    · cases heq
    have hop' : Program.step exec (.call op k') s.database.server.memory = some (p', memory) := hop
    have hdatabase : s.database.Step (.operation thread) _ := .operation hphase hop'
    have hstep : s.Step options spurious _ _ :=
      .database (by rintro _ _ ⟨⟩) (by rintro _ _ _ ⟨⟩) hdatabase
    refine Service.Executes.step hdatabase hstep rfl ?_
    have hrest (result : SQLResult) (m : Memory) (hrun : Prog.run p' memory = some (result, m)) :
        Q [] (dbServerDone (dbServerBegin query) result) m :=
      hQ result m ((Program.run_step hop').trans hrun)
    rw [Program.step] at hop'
    obtain ⟨⟨answer, memory'⟩, -, heq⟩ := Option.map_eq_some_iff.mp hop'
    obtain ⟨rfl, rfl⟩ := Prod.mk.inj heq
    exact ih answer (h.step hstep) hcall (System.enter_phase_self ..) hrest

/-- A query that is refused its lock times out. -/
private theorem Service.executes_refused
    (hcall : s.server.serving thread = some (c, .call (.execute query) k))
    (hphase : s.database.phase thread = .refused query)
    (hQ : Q [] (dbServerTimeout (dbServerBegin query)) s.database.server.memory) :
    Service.Executes options spurious s thread c query k Q := by
  have hdatabase : s.database.Step (.timeout thread query) _ := .timeout hphase
  refine Service.Executes.step hdatabase
    (.database (by rintro _ _ ⟨⟩) (by rintro _ _ _ ⟨⟩) hdatabase) rfl ?_
  exact Service.executes_finishing hcall (System.enter_phase_self ..) hQ

private theorem ServiceRun.executes_trying (h : ServiceRun options spurious t s)
    (hcall : s.server.serving thread = some (c, .call (.execute query) k))
    (hphase : s.database.phase thread = .trying query)
    (hdone : ∀ result m, (sqlExecute query).run s.database.server.memory = some (result, m) →
      Q [(thread, query)] (dbServerDone (dbServerBegin query) result) m)
    (htimeout : s.database.lock.tryLock (dbServerClassifyQuery query).access = none →
      Q [] (dbServerTimeout (dbServerBegin query)) s.database.server.memory) :
    Service.Executes options spurious s thread c query k Q := by
  cases hlock : s.database.lock.tryLock (dbServerClassifyQuery query).access with
  -- the lock is free for it: it takes it and runs
  | some lock =>
    have hdatabase : s.database.Step (.acquire thread query) _ := .acquire hphase hlock
    have hstep : s.Step options spurious _ _ :=
      .database (by rintro _ _ ⟨⟩) (by rintro _ _ _ ⟨⟩) hdatabase
    refine Service.Executes.step hdatabase hstep rfl ?_
    exact (h.step hstep).executes_executing hcall (System.enter_phase_self ..) hdone
  -- the lock is held: it is refused, which only a statement that needs the lock can be
  | none =>
    have hkind : dbServerClassifyQuery query ≠ .none := by
      intro hnone
      rw [hnone] at hlock
      cases hlock
    have hdatabase : s.database.Step (.refuse thread) _ := .refuse hphase hkind
    refine Service.Executes.step hdatabase
      (.database (by rintro _ _ ⟨⟩) (by rintro _ _ _ ⟨⟩) hdatabase) rfl ?_
    exact Service.executes_refused hcall (System.enter_phase_self ..) (htimeout hlock)

/-- A new call can come to its return, with the lock if it can have it. -/
theorem ServiceRun.executes_idle (h : ServiceRun options spurious t s)
    (hcall : s.server.serving thread = some (c, .call (.execute query) k))
    (hphase : s.database.phase thread = .idle)
    (hdone : ∀ result m, (sqlExecute query).run s.database.server.memory = some (result, m) →
      Q [(thread, query)] (dbServerDone (dbServerBegin query) result) m)
    (htimeout : s.database.lock.tryLock (dbServerClassifyQuery query).access = none →
      Q [] (dbServerTimeout (dbServerBegin query)) s.database.server.memory) :
    Service.Executes options spurious s thread c query k Q := by
  have hdatabase : s.database.Step (.start thread query) _ := .start query hphase
  have hstep : s.Step options spurious _ _ := .execute hcall hdatabase
  refine Service.Executes.step hdatabase hstep rfl ?_
  exact (h.step hstep).executes_trying hcall (System.enter_phase_self ..) hdone htimeout

end Execute

/-! ## A query from its request to its reply -/

section Query

variable {options : HTTPServerOptions} {spurious : Prop} {t : List ServiceEvent} {s : Service}
  {w : Nat} {c : HTTPSocket} {query : Cursor}

/-- The calls of the handler for a query that is answered. -/
private theorem httpServerHandleClient_query (requestBuffer query : Cursor) (contentLength : Nat)
    (execution : DBServerExecution) (response : APIResponse) (ok : Bool) :
    ∃ read, httpServerHandleClient = .call .readRequest read ∧
    ∃ parse, read (.ok requestBuffer) = .call (.parseHttpRequest requestBuffer) parse ∧
    ∃ execute, parse (.ok ⟨.post, bytes "/query", query, contentLength⟩) =
      .call (.execute query) execute ∧
    ∃ build, execute (some execution) = .call (.buildExecutionResponse execution) build ∧
    ∃ send, build (some response) = .call (.sendResponse response) send ∧
      send ok = .call .noteResponseComplete .ret := by
  refine ⟨_, rfl, _, rfl, ?_⟩
  change ∃ execute, httpServerRespond _ = .call (.execute query) execute ∧ _
  rw [httpServerRespond, if_neg (by rintro ⟨⟨⟩, -⟩), if_neg (by rintro ⟨⟨⟩, -⟩), if_pos ⟨rfl, rfl⟩]
  exact ⟨_, rfl, _, rfl, _, rfl, rfl⟩

/-- A worker is at this point of its handler. -/
def Service.handling (s : Service) (w : Nat) (c : HTTPSocket) (program : HandlerProg Unit)
    (database : System ServerThread) (x : Exchange) : Service where
  server := s.server.setWorker w (.handling c program)
  database := database
  exchange := Function.update s.exchange (.worker w) x
  job := Function.update s.job (.worker w) .none

section Handling

variable {program program' : HandlerProg Unit} {database database' : System ServerThread}
  {x x' : Exchange} {o : HandlerOp} {k : o.Ans → HandlerProg Unit} {answer : o.Ans}

private theorem handling_serving :
    (s.handling w c program database x).server.serving (.worker w) = some (c, program) := by
  change (Function.update s.server.worker w (.handling c program) w).serving = _
  rw [Function.update_self]
  rfl

private theorem handling_exchange :
    (s.handling w c program database x).exchange (.worker w) = x := Function.update_self ..

private theorem handling_job : (s.handling w c program database x).job (.worker w) = .none :=
  Function.update_self ..

private theorem handling_self (hserving : s.server.serving (.worker w) = some (c, program))
    (hjob : s.job (.worker w) = .none) :
    s.handling w c program s.database (s.exchange (.worker w)) = s := by
  have hphase : s.server.worker w = .handling c program := phase_of_serving hserving
  unfold Service.handling ServerState.setWorker
  rw [← hphase, ← hjob, Function.update_eq_self, Function.update_eq_self, Function.update_eq_self]

private theorem handling_resume (ho : ∀ server, ServerState.afterOp options server o = server) :
    (s.handling w c program database x).resume options (.worker w) c o program' database' x' =
      s.handling w c program' database' x' := by
  unfold Service.resume Service.handling ServerState.resume
  dsimp only
  rw [ho, Function.update_idem, Function.update_idem]
  unfold ServerState.setWorker
  rw [Function.update_idem]

/-- A call that works on the memory. -/
private theorem leads_handling_work (ho : ∀ server, ServerState.afterOp options server o = server)
    {p : Prog (Option (o.Ans × Exchange))} {memory : Memory} (hstarts : o.Starts x p)
    (hrun : p.run database.server.memory = some (some (answer, x'), memory)) :
    (s.handling w c (.call o k) database x).Leads options spurious []
      (s.handling w c (k answer) (database.setMemory memory) x') := by
  have hwork : (s.handling w c (.call o k) database x).Leads options spurious [] _ :=
    Service.leads_work handling_serving handling_job (handling_exchange.symm ▸ hstarts) hrun
  rwa [handling_resume ho] at hwork

/-- The request is read and parsed. -/
private theorem leads_readQuery {recvs : List RecvResult} {requestBuffer rest : List UInt8}
    {contentLength : Nat} {read : HandlerOp.readRequest.Ans → HandlerProg Unit}
    {parse : (HandlerOp.parseHttpRequest requestBuffer).Ans → HandlerProg Unit}
    (hserving : s.server.serving (.worker w) = some (c, .call .readRequest read))
    (hjob : s.job (.worker w) = .none)
    (hread : httpServerReadRequest recvs = some (.ok requestBuffer))
    (hlength : (requestBuffer ++ 0 :: rest).length = httpServerRequestBufferSize)
    (hparse : apiParseHttpRequest (requestBuffer ++ 0 :: rest) =
      some (.ok ⟨.post, bytes "/query", query, contentLength⟩))
    (hkread : read (.ok requestBuffer) = .call (.parseHttpRequest requestBuffer) parse) :
    s.Leads options spurious [] (s.handling w c
      (parse (.ok ⟨.post, bytes "/query", query, contentLength⟩)) s.database
      { s.exchange (.worker w) with received := recvs }) := by
  have hreads : (s.handling w c (.call .readRequest read) s.database
      (s.exchange (.worker w))).Leads options spurious []
      (s.handling w c (read (.ok requestBuffer)) s.database
        { s.exchange (.worker w) with received := recvs }) :=
    leads_handling_work (fun _ => rfl) (.readRequest hread) rfl
  rw [handling_self hserving hjob, hkread] at hreads
  refine hreads.trans (leads_handling_work (fun _ => rfl) (.parseHttpRequest hlength) ?_)
  rw [hparse]
  rfl

/-- The query is executed: its lock is free, so it is let pass. -/
private theorem ServiceRun.leads_executeQuery {result : SQLResult} {m : Memory} {rows : List Row}
    {execute : (HandlerOp.execute query).Ans → HandlerProg Unit}
    (h : ServiceRun options spurious t (s.handling w c (.call (.execute query) execute) database x))
    (hphase : database.phase (.worker w) = .idle) (hlock : database.lock = .free)
    (hrun : (sqlExecute query).run database.server.memory = some (result, m))
    (hrows : m.rowsAt result.records = some rows) :
    ∃ database', database'.server.memory = m ∧
      (s.handling w c (.call (.execute query) execute) database x).Leads options spurious
        [(.worker w, query)] (s.handling w c
          (execute (some (dbServerDone (dbServerBegin query) result))) database'
          { x with executed := some ⟨query, dbServerDone (dbServerBegin query) result, rows⟩ }) := by
  -- a free lock is granted at once, so the call does not time out
  have hgranted : database.lock.tryLock (dbServerClassifyQuery query).access ≠ none := by
    obtain ⟨lock, hfree⟩ := RWLock.tryLock_free (dbServerClassifyQuery query).access
    rw [hlock, hfree]
    rintro ⟨⟩
  obtain ⟨calls, execution, database', hexecute, hbeside, hidle, rfl, rfl, hm⟩ :=
    h.executes_idle (Q := fun calls execution memory => calls = [(.worker w, query)] ∧
      execution = dbServerDone (dbServerBegin query) result ∧ memory = m) handling_serving hphase
      (fun result' m' hrun' => by
        obtain ⟨rfl, rfl⟩ := Prod.mk.inj (Option.some.inj (hrun'.symm.trans hrun))
        exact ⟨rfl, rfl, rfl⟩)
      (fun hnone => absurd hnone hgranted)
  have hfound : (database'.server.memory.rowsAt
      (dbServerDone (dbServerBegin query) result).result.records).getD [] = rows := by
    rw [hm]
    change (m.rowsAt result.records).getD [] = rows
    rw [hrows, Option.getD_some]
  rw [handling_resume fun _ => rfl, handling_exchange, hfound] at hexecute
  exact ⟨database', hm, hexecute⟩

/-- The answer is built and sent, at once. -/
private theorem leads_sendAnswer {execution : DBServerExecution} {answer : APIAnswer}
    {build : (HandlerOp.buildExecutionResponse execution).Ans → HandlerProg Unit}
    {send : (HandlerOp.sendResponse answer.response).Ans → HandlerProg Unit}
    (hok : database.server.memory.NoFailure)
    (hresponse : (apiBuildExecutionResponse execution).run database.server.memory =
      some (some answer.response, database.server.memory))
    (htyped : (Reply.answer answer).Typed) (hsize : (Reply.answer answer).message.length < 2 ^ 31)
    (hkbuild : build (some answer.response) = .call (.sendResponse answer.response) send) :
    (s.handling w c (.call (.buildExecutionResponse execution) build) database x).Leads options
      spurious [] (s.handling w c (send true) database
        { x with sent := (Reply.answer answer).message, complete := true }) := by
  have hbuild : (s.handling w c (.call (.buildExecutionResponse execution) build) database
      x).Leads options spurious []
      (s.handling w c (build (some answer.response)) database x) :=
    leads_handling_work (fun _ => rfl) (.buildExecutionResponse _) (run_map_of hresponse _)
  rw [hkbuild] at hbuild
  -- one call of `send` takes the whole message
  have hsent := htyped.run_httpServerSendResponse hok
    [.sent (Reply.answer answer).message.length]
  rw [if_pos hsize, httpServerSocketSendAll_once hsize] at hsent
  exact hbuild.trans
    (leads_handling_work (fun _ => rfl) (.sendResponse _ _) (run_map_of hsent _))

end Handling

/-- A worker that has just taken a connection with this request can serve it to the end, if the lock
is free for its query: the query is executed and the whole reply is sent. -/
theorem ServiceRun.leads_query {recvs : List RecvResult} {requestBuffer rest : List UInt8}
    {contentLength : Nat} {result : SQLResult} {m : Memory} {rows : List Row}
    (h : ServiceRun options spurious t s)
    (hserving : s.server.serving (.worker w) = some (c, httpServerHandleClient))
    (hjob : s.job (.worker w) = .none) (hphase : s.database.phase (.worker w) = .idle)
    (hlock : s.database.lock = .free)
    (hread : httpServerReadRequest recvs = some (.ok requestBuffer))
    (hlength : (requestBuffer ++ 0 :: rest).length = httpServerRequestBufferSize)
    (hparse : apiParseHttpRequest (requestBuffer ++ 0 :: rest) =
      some (.ok ⟨.post, bytes "/query", query, contentLength⟩))
    (hrun : (sqlExecute query).run s.database.server.memory = some (result, m))
    (hrows : m.rowsAt result.records = some rows)
    (hsize : (Reply.answer (apiExecutionAnswer rows
      (dbServerDone (dbServerBegin query) result))).message.length < 2 ^ 31) :
    ∃ s', s.Leads options spurious [(.worker w, query)] s' ∧
      s'.server.serving (.worker w) = some (c, .ret ()) ∧
      (s'.exchange (.worker w)).received = recvs ∧ (s'.exchange (.worker w)).complete = true ∧
      s'.database.server.memory = m ∧
      s'.server = (s.server.noteResponseComplete options).setWorker w (.handling c (.ret ())) := by
  obtain ⟨read, hhandler, parse, hkread, execute, hkparse, build, hkexecute, send, hkbuild, hksend⟩ :=
    httpServerHandleClient_query requestBuffer query contentLength
      (dbServerDone (dbServerBegin query) result)
      (apiExecutionAnswer rows (dbServerDone (dbServerBegin query) result)).response true
  rw [hhandler] at hserving
  have hparsed : s.Leads options spurious [] _ :=
    leads_readQuery hserving hjob hread hlength hparse hkread
  rw [hkparse] at hparsed
  obtain ⟨t', hrun', -, -⟩ := h.leads hparsed
  obtain ⟨database, hm, hexecuted⟩ := hrun'.leads_executeQuery hphase hlock hrun hrows
  rw [hkexecute] at hexecuted
  obtain ⟨t'', hrun'', -, -⟩ := hrun'.leads hexecuted
  -- the rows are still those of the table when the answer is built
  have htold := (hrun''.inv.serves (.worker w)).told (by rw [handling_serving]; rintro ⟨⟩)
  rw [handling_exchange] at htold
  have hkept := (htold.executed _ rfl).1
  have hsent (x : Exchange) : (s.handling w c _ database x).Leads options spurious [] _ :=
    leads_sendAnswer hrun''.inv.database.spared.noFailure hkept.response hkept.typed hsize hkbuild
  rw [hksend] at hsent
  -- and it is counted
  have hnoted (x : Exchange) : (s.handling w c (.call .noteResponseComplete .ret)
      database x).Leads options spurious [] _ :=
    Service.leads_answer handling_serving .noteResponseComplete
  refine ⟨_, (hparsed.trans hexecuted).trans ((hsent _).trans (hnoted _)),
    Service.resume_serving .., ?_, ?_, hm, ?_⟩
  · rw [Service.resume_exchange, handling_exchange]
  · rw [Service.resume_exchange, handling_exchange]
  · change ((s.server.setWorker w _).noteResponseComplete options).setWorker w _ = _
    unfold ServerState.noteResponseComplete ServerState.setWorker
    dsimp only
    rw [Function.update_idem]

end Query

/-! ## A server with one worker -/

section OneWorker

variable {t : List ServiceEvent} {s : Service} {server server' : ServerState}
  {e : Option ServerEvent} {item : HTTPSocket} {n : UInt64}

/-- Nothing is going on: the server waits for a connection, the worker for something to do. -/
structure Service.Rests (s : Service) (item : HTTPSocket) (n : UInt64) : Prop where
  server : s.server = oneIdle item n
  job : ∀ thread, s.job thread = .none
  phase : ∀ thread, s.database.phase thread = .idle

/-- Where no thread serves a connection. -/
private theorem oneState_serving {queue : HTTPRequestQueue} {queueMutex : Option Nat}
    {stopRequested isOpen : Bool} {phase : WorkerPhase} {main : MainPhase}
    (hphase : phase.serving = none) (hmain : main.serving = none) (thread : ServerThread) :
    (oneState queue queueMutex stopRequested n phase main isOpen).serving thread = none := by
  cases thread with
  | main => exact hmain
  | worker w =>
    change (Function.update (fun _ => WorkerPhase.notCreated) 0 phase w).serving = none
    rcases eq_or_ne w 0 with rfl | hne
    · rw [Function.update_self]
      exact hphase
    · rw [Function.update_of_ne hne]
      rfl

private theorem not_serve_none (thread : ServerThread) (c : HTTPSocket) :
    (none : Option ServerEvent) ≠ some (.serve thread c) := by rintro ⟨⟩

/-- The whole with these threads. -/
private def Service.withServer (s : Service) (server : ServerState) : Service := { s with server }

/-- A step of the threads while none serves a connection, and none takes one. -/
private theorem one_leads (hstep : OneStep server e server')
    (hnone : ∀ thread, server.serving thread = none)
    (hserve : ∀ thread c, e ≠ some (.serve thread c)) :
    (s.withServer server).Leads oneOptions False [] (s.withServer server') := by
  have hsame : (s.withServer server).exchangeAfter e = s.exchange := by
    unfold Service.exchangeAfter
    split
    · next thread c => exact absurd rfl (hserve thread c)
    · rfl
  have hleads : (s.withServer server).Leads oneOptions False [] _ :=
    Service.Step.leads (.server hstep fun thread c o k hcall => by
      rw [show (s.withServer server).server = server from rfl, hnone] at hcall
      cases hcall)
  rw [hsame] at hleads
  exact hleads

/-- The worker takes a connection. -/
private theorem one_accepts (h : s.server = oneIdle item n) :
    s.Leads oneOptions False []
      { s with
        server := oneState (oneQueue 5 0 false) none false n (.handling 5 httpServerHandleClient)
          .looping true
        exchange := Function.update s.exchange (.worker 0) .init } := by
  have hself : s.withServer (oneIdle item n) = s := by
    unfold Service.withServer
    rw [← h]
  -- the main thread sees the connection and accepts it
  have hgoOn : OneStep (oneIdle item n) none
      (oneState (oneQueue item 0 false) none false n .waiting .selecting false) := .goOn rfl rfl
  have hready : OneStep (oneState (oneQueue item 0 false) none false n .waiting .selecting false)
      none (oneState (oneQueue item 0 false) none false n .waiting .accepting false) :=
    .selectReady rfl
  have haccept : OneStep (oneState (oneQueue item 0 false) none false n .waiting .accepting false)
      (some (.accept 5))
      (oneState (oneQueue item 0 false) none false n .waiting (.pushing 5) true) := by
    have hstep : OneStep (oneState (oneQueue item 0 false) none false n .waiting .accepting false)
      (some (.accept 5)) _ := .accept rfl (by decide) rfl
    rwa [oneState_setOpen, oneState_setMain] at hstep
  -- it queues the connection and wakes the worker
  have hpush : OneStep (oneState (oneQueue item 0 false) none false n .waiting (.pushing 5) true)
      none (oneState (oneQueue 5 1 false) none false n .entering .looping true) := by
    have hstep : OneStep (oneState (oneQueue item 0 false) none false n .waiting (.pushing 5) true)
      none _ := .pushSignal (w := 0) rfl rfl (one_push item) rfl
    rwa [ServerState.wake, oneState_setQueue, oneState_setWorker, oneState_setMain] at hstep
  have htake : OneStep (oneState (oneQueue 5 1 false) (some 0) false n .testing .looping true)
      (some (.serve (.worker 0) 5)) (oneState (oneQueue 5 0 false) none false n
        (.handling 5 httpServerHandleClient) .looping true) := by
    have hstep : OneStep (oneState (oneQueue 5 1 false) (some 0) false n .testing .looping true)
      (some (.serve (.worker 0) 5)) _ := .take rfl rfl one_take (by decide)
    rwa [oneState_setQueue, oneState_setMutex, oneState_setWorker] at hstep
  -- the worker starts to serve it
  have hserves : (s.withServer (oneState (oneQueue 5 1 false) (some 0) false n .testing .looping
      true)).Leads oneOptions False [] _ := Service.Step.leads (.server htake fun thread c o k hcall => by
    rw [show (s.withServer (oneState (oneQueue 5 1 false) (some 0) false n .testing .looping
      true)).server.serving thread = none from oneState_serving rfl rfl thread] at hcall
    cases hcall)
  have hleads := (one_leads (s := s) hgoOn (oneState_serving rfl rfl) not_serve_none).trans
    ((one_leads hready (oneState_serving rfl rfl) not_serve_none).trans
    ((one_leads haccept (oneState_serving rfl rfl) (by rintro _ _ ⟨⟩)).trans
    ((one_leads hpush (oneState_serving rfl rfl) not_serve_none).trans
    ((one_leads one_lock (oneState_serving rfl rfl) not_serve_none).trans hserves))))
  rw [hself] at hleads
  exact hleads

/-- The worker goes back to wait. -/
private theorem one_waits : (s.withServer (oneState (oneQueue item 0 false) none false n .entering
    .looping false)).Leads oneOptions False [] (s.withServer (oneIdle item n)) := by
  have htest : OneStep (oneState (oneQueue item 0 false) (some 0) false n .testing .looping false)
      none (oneState (oneQueue item 0 false) (some 0) false n .goingToWait .looping false) := by
    have hstep : OneStep (oneState (oneQueue item 0 false) (some 0) false n .testing .looping false)
      none _ := .testWait (w := 0) rfl rfl
    rwa [oneState_setWorker] at hstep
  have hwait : OneStep (oneState (oneQueue item 0 false) (some 0) false n .goingToWait .looping
      false) none (oneIdle item n) := by
    have hstep : OneStep (oneState (oneQueue item 0 false) (some 0) false n .goingToWait .looping
      false) none _ := .wait (w := 0) rfl
    rwa [oneState_setMutex, oneState_setWorker] at hstep
  exact (one_leads one_lock (oneState_serving rfl rfl) not_serve_none).trans
    ((one_leads htest (oneState_serving rfl rfl) not_serve_none).trans
    (one_leads hwait (oneState_serving rfl rfl) not_serve_none))

/-- Where the worker is about to close its connection no thread is at a call. -/
private theorem one_noCall (thread : ServerThread) (c : HTTPSocket) (o : HandlerOp)
    (k : o.Ans → HandlerProg Unit) :
    (oneState (oneQueue 5 0 false) none false n (.handling 5 (.ret ())) .looping true).serving
      thread ≠ some (c, .call o k) := by
  cases thread with
  | main => rintro ⟨⟩
  | worker w =>
    change (Function.update (fun _ => WorkerPhase.notCreated) 0 (.handling 5 (.ret ())) w).serving ≠ _
    rcases eq_or_ne w 0 with rfl | hne
    · rw [Function.update_self]
      rintro ⟨⟩
    · rw [Function.update_of_ne hne]
      rintro ⟨⟩

/-- The worker closes a connection. -/
private theorem one_closes (h : s.server = oneState (oneQueue 5 0 false) none false n
    (.handling 5 (.ret ())) .looping true) :
    s.Leads oneOptions False [] (s.withServer (oneIdle 5 n)) := by
  have hclose : OneStep s.server (some (.close (.worker 0) 5))
      (oneState (oneQueue 5 0 false) none false n .entering .looping false) := by
    have hstep : OneStep (oneState (oneQueue 5 0 false) none false n (.handling 5 (.ret ())) .looping
      true) (some (.close (.worker 0) 5)) _ := .closeHandled (w := 0) rfl
    rw [h]
    rwa [oneState_setOpen, oneState_setWorker] at hstep
  have hcloses : s.Leads oneOptions False [] _ :=
    Service.Step.leads (.server hclose fun thread c o k hcall =>
      absurd (h ▸ hcall) (one_noCall thread c o k))
  exact hcloses.trans one_waits

/-- The server starts. -/
theorem one_starts : ∃ t s, ServiceRun oneOptions False t s ∧ s.Rests 0 0 ∧
    s.database = .init ∧ lockOrder (callTrace (databaseTrace t)) = [] := by
  have hstart : ServiceRun oneOptions False []
      ⟨oneState (oneQueue 0 0 false) none false 0 .notCreated (.creating 0) false, .init,
        fun _ => .init, fun _ => .none⟩ := by
    refine .start (rfl : ([0] : List HTTPSocket).length = 1) ?_
    unfold oneState
    rw [Function.update_eq_self_iff.mpr rfl, Function.update_eq_self_iff.mpr rfl]
    rfl
  -- the worker is created, the socket listens and the loop begins
  have hcreate : OneStep (oneState (oneQueue 0 0 false) none false 0 .notCreated (.creating 0) false)
      none (oneState (oneQueue 0 0 false) none false 0 .entering (.creating 1) false) := by
    have hstep : OneStep (oneState (oneQueue 0 0 false) none false 0 .notCreated (.creating 0) false)
      none _ := .create rfl (by decide)
    rwa [oneState_setWorker, oneState_setMain] at hstep
  have hcreated : OneStep (oneState (oneQueue 0 0 false) none false 0 .entering (.creating 1) false)
      none (oneState (oneQueue 0 0 false) none false 0 .entering .listening false) := .created rfl
  have hlisten : OneStep (oneState (oneQueue 0 0 false) none false 0 .entering .listening false)
      none (oneState (oneQueue 0 0 false) none false 0 .entering .looping false) := .listen rfl
  have hleads (s : Service) := (one_leads (s := s) hcreate (oneState_serving rfl rfl)
    not_serve_none).trans ((one_leads hcreated (oneState_serving rfl rfl) not_serve_none).trans
    ((one_leads hlisten (oneState_serving rfl rfl) not_serve_none).trans one_waits))
  obtain ⟨t, hrun, -, hcalls⟩ := hstart.leads
    (hleads ⟨oneIdle 0 0, .init, fun _ => .init, fun _ => .none⟩)
  exact ⟨t, _, hrun, ⟨rfl, fun _ => rfl, fun _ => rfl⟩, rfl, hcalls⟩

/-- It serves a query to the end, and rests again. -/
theorem one_serves {query : Cursor} {recvs : List RecvResult} {requestBuffer rest : List UInt8}
    {contentLength : Nat} {result : SQLResult} {m : Memory} {rows : List Row}
    (h : ServiceRun oneOptions False t s) (hrests : s.Rests item n)
    (hread : httpServerReadRequest recvs = some (.ok requestBuffer))
    (hlength : (requestBuffer ++ 0 :: rest).length = httpServerRequestBufferSize)
    (hparse : apiParseHttpRequest (requestBuffer ++ 0 :: rest) =
      some (.ok ⟨.post, bytes "/query", query, contentLength⟩))
    (hrun : (sqlExecute query).run s.database.server.memory = some (result, m))
    (hrows : m.rowsAt result.records = some rows)
    (hsize : (Reply.answer (apiExecutionAnswer rows
      (dbServerDone (dbServerBegin query) result))).message.length < 2 ^ 31) :
    ∃ s' s'', s.Leads oneOptions False [(.worker 0, query)] s' ∧
      s'.server.serving (.worker 0) = some (5, .ret ()) ∧
      (s'.exchange (.worker 0)).received = recvs ∧ (s'.exchange (.worker 0)).complete = true ∧
      s'.Leads oneOptions False [] s'' ∧ s''.Rests 5 (n + 1) ∧
      s''.server.serving (.worker 0) = none ∧ s''.database.server.memory = m := by
  -- nobody is in a call, so the lock is free
  have hfree : s.database.lock = .free := by
    obtain ⟨metrics, hcalls⟩ := h.inv.database.calls
    obtain ⟨answers, hserialized⟩ := hcalls.serialized hrests.phase
    exact hserialized.lock
  have haccepts := one_accepts hrests.server
  obtain ⟨t₁, h₁, -, -⟩ := h.leads haccepts
  obtain ⟨s', hleads, hserving, hreceived, hcomplete, hm, hserver⟩ :=
    h₁.leads_query (w := 0) (c := 5) rfl (hrests.job _) (hrests.phase _) hfree hread hlength hparse
      hrun hrows hsize
  rw [oneState_noteResponseComplete, oneState_setWorker] at hserver
  obtain ⟨t₂, h₂, -, -⟩ := h₁.leads hleads
  have hidle (thread : ServerThread) := (h₂.inv.serves thread).idle fun c o k =>
    hserver ▸ one_noCall thread c o k
  exact ⟨s', _, haccepts.trans hleads, hserving, hreceived, hcomplete, one_closes hserver,
    ⟨rfl, fun thread => (hidle thread).1, fun thread => CallPhase.eq_idle (hidle thread).2⟩,
    oneState_serving rfl rfl _, hm⟩

/-- A server that rests can be stopped, and `http_server_run` returns. -/
theorem one_returns (h : s.server = oneIdle item n) :
    ∃ s', s.Leads oneOptions False [] s' ∧ s'.server.main = .returned 0 := by
  have hself : s.withServer (oneIdle item n) = s := by
    unfold Service.withServer
    rw [← h]
  -- the signal is seen at the head of the loop
  have hsignal : OneStep (oneIdle item n) none
      (oneState (oneQueue item 0 false) none true n .waiting .looping false) := .signal
  have hstop : OneStep (oneState (oneQueue item 0 false) none true n .waiting .looping false) none
      (oneState (oneQueue item 0 false) none true n .waiting (.shuttingDown 0) false) :=
    .stop rfl rfl
  -- the woken worker finds the queue empty and shut down, and leaves
  have htake : OneStep (oneState (oneQueue item 0 true) (some 0) true n .testing (.joining 0 0)
      false) none (oneState (oneQueue item 0 true) none true n .leaving (.joining 0 0) false) := by
    have hstep : OneStep (oneState (oneQueue item 0 true) (some 0) true n .testing (.joining 0 0)
      false) none _ := .takeNone (w := 0) rfl rfl rfl
    rwa [oneState_setQueue, oneState_setMutex, oneState_setWorker] at hstep
  have hleave : OneStep (oneState (oneQueue item 0 true) none true n .leaving (.joining 0 0)
      false) none (oneState (oneQueue item 0 true) none true n .finished (.joining 0 0) false) := by
    have hstep : OneStep (oneState (oneQueue item 0 true) none true n .leaving (.joining 0 0)
      false) none _ := .leave (w := 0) rfl (.inl rfl)
    rwa [oneState_setWorker] at hstep
  -- the main thread joins it and returns
  have hjoin : OneStep (oneState (oneQueue item 0 true) none true n .finished (.joining 0 0) false)
      none (oneState (oneQueue item 0 true) none true n .finished (.joining 1 0) false) :=
    .join rfl (by decide) rfl
  have hjoined : OneStep (oneState (oneQueue item 0 true) none true n .finished (.joining 1 0)
      false) none (oneState (oneQueue item 0 true) none true n .finished (.returned 0) false) :=
    .joined rfl
  have hleads := (one_leads (s := s) hsignal (oneState_serving rfl rfl) not_serve_none).trans
    ((one_leads hstop (oneState_serving rfl rfl) not_serve_none).trans
    ((one_leads (one_shutdown item n) (oneState_serving rfl rfl) not_serve_none).trans
    ((one_leads one_lock (oneState_serving rfl rfl) not_serve_none).trans
    ((one_leads htake (oneState_serving rfl rfl) not_serve_none).trans
    ((one_leads hleave (oneState_serving rfl rfl) not_serve_none).trans
    ((one_leads hjoin (oneState_serving rfl rfl) not_serve_none).trans
    (one_leads hjoined (oneState_serving rfl rfl) not_serve_none)))))))
  rw [hself] at hleads
  exact ⟨_, hleads, rfl⟩

end OneWorker

end SqlApi.Server

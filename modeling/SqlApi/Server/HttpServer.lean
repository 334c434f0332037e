import SqlApi.Server.HttpRequest
import SqlApi.Server.RequestQueue
import SqlApi.Server.Response

/-!
# `http_server.c`: the server

`http_server_run` starts the workers, accepts connections and queues them, and at the end
waits for the workers; a worker pops connections and handles them. A step of the system is
one critical section, one operation of a handler or one decision of a loop; steps of
different threads come in any order. What the operations of a handler answer is left open.

The mutex of the queue is explicit: a worker keeps it from its test of the queue to
`platform_cond_wait`, and the main thread may write `shutting_down` without it.
-/

namespace SqlApi.Server

open SqlApi.Lib SqlApi.Core

/-! ## Handling a connection -/

/-- The calls that handling a connection is made of. -/
inductive HandlerOp where
  -- `http_server_read_request` and `api_parse_http_request`
  | readRequest
  | parseHttpRequest (requestBuffer : List UInt8)
  -- the calls of the database server
  | recordHealthRequest
  | recordMetricsRequest
  | recordQueueFull
  | getMetrics
  | execute (query : List UInt8)
  -- the functions that build a response
  | buildHealthResponse
  | buildMetricsResponse (metrics : DBServerMetrics)
  | buildExecutionResponse (execution : DBServerExecution)
  | buildErrorResponse (statusCode : Int) (errorType message : List UInt8)
  -- `http_server_send_response` and the count behind it
  | sendResponse (response : APIResponse)
  | noteResponseComplete

/-- What they answer. -/
abbrev HandlerOp.Ans : HandlerOp → Type
  | .readRequest => Except (List UInt8) (List UInt8)
  | .parseHttpRequest _ => Except (List UInt8) APIRequest
  | .recordHealthRequest | .recordMetricsRequest | .recordQueueFull | .noteResponseComplete => Unit
  | .getMetrics => DBServerMetrics
  | .execute _ => Option DBServerExecution
  | .buildHealthResponse | .buildMetricsResponse _ | .buildExecutionResponse _
  | .buildErrorResponse _ _ _ => Option APIResponse
  | .sendResponse _ => Bool

/-- A program of these calls. -/
abbrev HandlerProg (α : Type) : Type := Program HandlerOp HandlerOp.Ans α

/-- One of the calls. -/
def call (o : HandlerOp) : HandlerProg o.Ans := Program.perform o

/-- Send a response if there is one, and count. -/
def httpServerSendAndCount (response : Option APIResponse) : HandlerProg Unit := do
  match response with
  | some response =>
    let _ ← call (.sendResponse response)
    call .noteResponseComplete
  | none => call .noteResponseComplete

/-- `http_server_send_error_and_count` -/
def httpServerSendErrorAndCount (statusCode : Int) (errorType message : List UInt8) :
    HandlerProg Unit := do
  let response ← call (.buildErrorResponse statusCode errorType message)
  httpServerSendAndCount response

/-- `http_server_handle_client` behind the parser. -/
def httpServerRespond (request : APIRequest) : HandlerProg Unit := do
  if request.method = .get ∧ request.path = bytes "/health" then
    call .recordHealthRequest
    let response ← call .buildHealthResponse
    httpServerSendAndCount response
  else if request.method = .get ∧ request.path = bytes "/metrics" then
    call .recordMetricsRequest
    let metrics ← call .getMetrics
    let response ← call (.buildMetricsResponse metrics)
    httpServerSendAndCount response
  else if request.method = .post ∧ request.path = bytes "/query" then
    match (← call (.execute request.query) : Option DBServerExecution) with
    -- the database server refused the arguments
    | none =>
      httpServerSendErrorAndCount 500 (bytes "internal_error") (bytes "Failed to execute query")
    | some execution =>
      match (← call (.buildExecutionResponse execution) : Option APIResponse) with
      | none =>
        httpServerSendErrorAndCount 500 (bytes "internal_error")
          (bytes "Failed to serialize query result")
      | some response => httpServerSendAndCount (some response)
  -- a known path under another method
  else if (request.path = bytes "/health" ∨ request.path = bytes "/metrics") ∧
      request.method ≠ .get then
    httpServerSendErrorAndCount 405 (bytes "method_not_allowed")
      (bytes "This endpoint only supports GET")
  else if request.path = bytes "/query" ∧ request.method ≠ .post then
    httpServerSendErrorAndCount 405 (bytes "method_not_allowed")
      (bytes "This endpoint only supports POST")
  else if request.method = .unknown then
    httpServerSendErrorAndCount 405 (bytes "method_not_allowed") (bytes "Unsupported HTTP method")
  else httpServerSendErrorAndCount 404 (bytes "not_found") (bytes "Unknown endpoint")

/-- `http_server_handle_client` -/
def httpServerHandleClient : HandlerProg Unit := do
  match (← call .readRequest : Except (List UInt8) (List UInt8)) with
  | .error message => httpServerSendErrorAndCount 400 (bytes "malformed_http") message
  | .ok requestBuffer =>
    match (← call (.parseHttpRequest requestBuffer) : Except (List UInt8) APIRequest) with
    | .error message => httpServerSendErrorAndCount 400 (bytes "malformed_http") message
    | .ok request => httpServerRespond request

/-- What the accept loop does with a connection that is not queued, before it closes it. -/
def httpServerReject : HandlerProg Unit := do
  call .recordQueueFull
  httpServerSendErrorAndCount 503 (bytes "queue_full") (bytes "Worker queue is full")

/-! ## The state -/

/-- The fields of `struct HTTPServerOptions` that decide how the threads run. -/
structure HTTPServerOptions where
  workerCount : Nat
  queueCapacity : Nat
  maxRequests : UInt32

/-- Where a worker is in `http_server_worker_main`. -/
inductive WorkerPhase where
  | notCreated
  /-- In `http_request_queue_pop`: it has no mutex yet, or woke up and has to get it back. -/
  | entering
  /-- It has the mutex and tests the queue. -/
  | testing
  /-- It has the mutex and is going to wait. -/
  | goingToWait
  /-- In `platform_cond_wait`. -/
  | waiting
  /-- In `http_server_handle_client`; this is left of it. -/
  | handling (clientSocket : HTTPSocket) (program : HandlerProg Unit)
  /-- It popped no socket. -/
  | leaving
  | finished

/-- Where the main thread is in `http_server_run`. -/
inductive MainPhase where
  /-- In the loop that creates the workers. -/
  | creating (workerIndex : Nat)
  /-- A worker could not be created; the stop is requested. -/
  | failing (workerIndex : Nat)
  /-- On the error path; the next join is the one with the worker before this. -/
  | joiningBack (workerIndex : Nat)
  /-- Before the listening socket is made. -/
  | listening
  /-- At the condition of the accept loop. -/
  | looping
  /-- In `http_server_socket_wait_for_read`. -/
  | selecting
  /-- Before `accept`. -/
  | accepting
  /-- Before `http_request_queue_push`. -/
  | pushing (clientSocket : HTTPSocket)
  /-- The push was refused; this is left to do before the socket is closed. -/
  | rejecting (clientSocket : HTTPSocket) (program : HandlerProg Unit)
  /-- Before `http_request_queue_shutdown`. -/
  | shuttingDown (exitCode : Int)
  /-- The next join is the one with this worker. -/
  | joining (workerIndex : Nat) (exitCode : Int)
  | returned (exitCode : Int)

/-- The state of a run. -/
structure ServerState where
  queue : HTTPRequestQueue
  /-- The worker that has the mutex of the queue; the main thread has it only within a step. -/
  queueMutex : Option Nat
  /-- `http_server_stop_requested` -/
  stopRequested : Bool
  completedResponses : UInt64
  worker : Nat → WorkerPhase
  main : MainPhase
  /-- The connections that are open. -/
  isOpen : HTTPSocket → Bool

/-- The start of `http_server_run`, up to the loop that creates the workers: `items` is what
`malloc` returns for the queue. -/
def httpServerStart (options : HTTPServerOptions) (items : List HTTPSocket) : Option ServerState :=
  if options.workerCount = 0 ∨ options.queueCapacity = 0 then none
  else (httpRequestQueueInit options.queueCapacity (some items) true true).map fun queue =>
    ⟨queue, none, false, 0, fun _ => .notCreated, .creating 0, fun _ => false⟩

namespace ServerState

/-- The main thread moves on. -/
def setMain (s : ServerState) (main : MainPhase) : ServerState := { s with main }

/-- A worker moves on. -/
def setWorker (s : ServerState) (w : Nat) (phase : WorkerPhase) : ServerState :=
  { s with worker := Function.update s.worker w phase }

def setQueue (s : ServerState) (queue : HTTPRequestQueue) : ServerState := { s with queue }

def setMutex (s : ServerState) (queueMutex : Option Nat) : ServerState := { s with queueMutex }

/-- `http_server_request_stop` -/
def requestStop (s : ServerState) : ServerState := { s with stopRequested := true }

/-- A connection is opened, or closed. -/
def setOpen (s : ServerState) (clientSocket : HTTPSocket) (isOpen : Bool) : ServerState :=
  { s with isOpen := Function.update s.isOpen clientSocket isOpen }

/-- `platform_cond_signal` with this waiter. -/
def wake (s : ServerState) (w : Nat) : ServerState := s.setWorker w .entering

/-- `platform_cond_broadcast` -/
def wakeAll (s : ServerState) : ServerState :=
  { s with worker := fun w =>
      match s.worker w with
      | .waiting => .entering
      | phase => phase }

/-- `http_server_note_response_complete` -/
def noteResponseComplete (options : HTTPServerOptions) (s : ServerState) : ServerState :=
  let completedResponses := s.completedResponses + 1
  { s with
    completedResponses
    stopRequested := s.stopRequested ||
      (0 < options.maxRequests && options.maxRequests.toUInt64 ≤ completedResponses) }

/-- What a call of a handler does to the state. -/
def afterOp (options : HTTPServerOptions) (s : ServerState) : HandlerOp → ServerState
  | .noteResponseComplete => s.noteResponseComplete options
  | _ => s

section AfterOp

variable (options : HTTPServerOptions) (s : ServerState) (o : HandlerOp)

@[simp] theorem afterOp_worker : (s.afterOp options o).worker = s.worker := by cases o <;> rfl

@[simp] theorem afterOp_main : (s.afterOp options o).main = s.main := by cases o <;> rfl

@[simp] theorem afterOp_queue : (s.afterOp options o).queue = s.queue := by cases o <;> rfl

@[simp] theorem afterOp_queueMutex : (s.afterOp options o).queueMutex = s.queueMutex := by
  cases o <;> rfl

@[simp] theorem afterOp_isOpen : (s.afterOp options o).isOpen = s.isOpen := by cases o <;> rfl

end AfterOp

end ServerState

/-! ## Steps -/

/-- The threads of the server. -/
inductive ServerThread where
  | main
  | worker (w : Nat)
  deriving DecidableEq

/-- What happens to connections, and the write to `shutting_down` on the error path. -/
inductive ServerEvent where
  | accept (clientSocket : HTTPSocket)
  /-- A thread takes a connection: the main thread after a refused push, to reject it, a
  worker after a pop, to handle it. -/
  | serve (thread : ServerThread) (clientSocket : HTTPSocket)
  /-- `http_server_note_response_complete` -/
  | count (thread : ServerThread) (clientSocket : HTTPSocket)
  | close (thread : ServerThread) (clientSocket : HTTPSocket)
  | raiseShuttingDown

/-- The event of a call of a handler. -/
def HandlerOp.event (thread : ServerThread) (clientSocket : HTTPSocket) :
    HandlerOp → Option ServerEvent
  | .noteResponseComplete => some (.count thread clientSocket)
  | _ => none

/-- One step. `accept` gives a socket that is not in use; `spurious` says whether a waiter
may wake up on its own. -/
inductive ServerStep (options : HTTPServerOptions) (spurious : Prop) (s : ServerState) :
    Option ServerEvent → ServerState → Prop
  /- signals -/
  | signal : ServerStep options spurious s none s.requestStop
  /- creating the workers -/
  | create {i : Nat} : s.main = .creating i → i < options.workerCount →
      ServerStep options spurious s none
        ((s.setWorker i .entering).setMain (.creating (i + 1)))
  | createFails {i : Nat} : s.main = .creating i → i < options.workerCount →
      ServerStep options spurious s none (s.requestStop.setMain (.failing i))
  | raiseShuttingDown {i : Nat} : s.main = .failing i →
      ServerStep options spurious s (some .raiseShuttingDown)
        ((s.setQueue { s.queue with shuttingDown := true }).setMain (.joiningBack i))
  | joinBack {i : Nat} : s.main = .joiningBack (i + 1) → s.worker i = .finished →
      ServerStep options spurious s none (s.setMain (.joiningBack i))
  | returnFailure : s.main = .joiningBack 0 →
      ServerStep options spurious s none (s.setMain (.returned 1))
  | created : s.main = .creating options.workerCount →
      ServerStep options spurious s none (s.setMain .listening)
  /- the accept loop -/
  | listenFails : s.main = .listening →
      ServerStep options spurious s none (s.requestStop.setMain (.shuttingDown 1))
  | listen : s.main = .listening → ServerStep options spurious s none (s.setMain .looping)
  | stop : s.main = .looping → s.stopRequested = true →
      ServerStep options spurious s none (s.setMain (.shuttingDown 0))
  | goOn : s.main = .looping → s.stopRequested = false →
      ServerStep options spurious s none (s.setMain .selecting)
  | selectFails : s.main = .selecting →
      ServerStep options spurious s none (s.setMain (.shuttingDown 0))
  | selectTimeout : s.main = .selecting → ServerStep options spurious s none (s.setMain .looping)
  | selectReady : s.main = .selecting → ServerStep options spurious s none (s.setMain .accepting)
  | acceptFails : s.main = .accepting → ServerStep options spurious s none (s.setMain .looping)
  | accept {c : HTTPSocket} : s.main = .accepting → c ≠ httpInvalidSocket → s.isOpen c = false →
      ServerStep options spurious s (some (.accept c)) ((s.setOpen c true).setMain (.pushing c))
  | pushSignal {c : HTTPSocket} {w : Nat} {queue : HTTPRequestQueue} : s.main = .pushing c →
      s.queueMutex = none → httpRequestQueuePush s.queue c = some (true, queue) →
      s.worker w = .waiting →
      ServerStep options spurious s none (((s.setQueue queue).wake w).setMain .looping)
  | pushNoWaiter {c : HTTPSocket} {queue : HTTPRequestQueue} : s.main = .pushing c →
      s.queueMutex = none → httpRequestQueuePush s.queue c = some (true, queue) →
      (∀ w, s.worker w ≠ .waiting) →
      ServerStep options spurious s none ((s.setQueue queue).setMain .looping)
  | pushRefused {c : HTTPSocket} {queue : HTTPRequestQueue} : s.main = .pushing c →
      s.queueMutex = none → httpRequestQueuePush s.queue c = some (false, queue) →
      ServerStep options spurious s (some (.serve .main c))
        ((s.setQueue queue).setMain (.rejecting c httpServerReject))
  | reject {c : HTTPSocket} {o : HandlerOp} {k : o.Ans → HandlerProg Unit} (answer : o.Ans) :
      s.main = .rejecting c (.call o k) →
      ServerStep options spurious s (o.event .main c)
        ((s.afterOp options o).setMain (.rejecting c (k answer)))
  | closeRejected {c : HTTPSocket} {r : Unit} : s.main = .rejecting c (.ret r) →
      ServerStep options spurious s (some (.close .main c))
        ((s.setOpen c false).setMain .looping)
  /- the end -/
  | shutdown {exitCode : Int} : s.main = .shuttingDown exitCode → s.queueMutex = none →
      ServerStep options spurious s none
        (((s.setQueue (httpRequestQueueShutdown s.queue)).wakeAll).setMain (.joining 0 exitCode))
  | join {i : Nat} {exitCode : Int} : s.main = .joining i exitCode → i < options.workerCount →
      s.worker i = .finished →
      ServerStep options spurious s none (s.setMain (.joining (i + 1) exitCode))
  | joined {exitCode : Int} : s.main = .joining options.workerCount exitCode →
      ServerStep options spurious s none (s.setMain (.returned exitCode))
  /- the workers -/
  | lock {w : Nat} : s.worker w = .entering → s.queueMutex = none →
      ServerStep options spurious s none ((s.setMutex (some w)).setWorker w .testing)
  | testWait {w : Nat} : s.worker w = .testing → s.queue.mustWait = true →
      ServerStep options spurious s none (s.setWorker w .goingToWait)
  | wait {w : Nat} : s.worker w = .goingToWait →
      ServerStep options spurious s none ((s.setMutex none).setWorker w .waiting)
  | wakeUp {w : Nat} : spurious → s.worker w = .waiting →
      ServerStep options spurious s none (s.setWorker w .entering)
  | take {w : Nat} {c : HTTPSocket} {queue : HTTPRequestQueue} : s.worker w = .testing →
      s.queue.mustWait = false → httpRequestQueueTake s.queue = some (c, queue) →
      c ≠ httpInvalidSocket →
      ServerStep options spurious s (some (.serve (.worker w) c))
        (((s.setQueue queue).setMutex none).setWorker w (.handling c httpServerHandleClient))
  | takeNone {w : Nat} {queue : HTTPRequestQueue} : s.worker w = .testing →
      s.queue.mustWait = false →
      httpRequestQueueTake s.queue = some (httpInvalidSocket, queue) →
      ServerStep options spurious s none
        (((s.setQueue queue).setMutex none).setWorker w .leaving)
  | handle {w : Nat} {c : HTTPSocket} {o : HandlerOp} {k : o.Ans → HandlerProg Unit}
      (answer : o.Ans) : s.worker w = .handling c (.call o k) →
      ServerStep options spurious s (o.event (.worker w) c)
        ((s.afterOp options o).setWorker w (.handling c (k answer)))
  | closeHandled {w : Nat} {c : HTTPSocket} {r : Unit} : s.worker w = .handling c (.ret r) →
      ServerStep options spurious s (some (.close (.worker w) c))
        ((s.setOpen c false).setWorker w .entering)
  | leave {w : Nat} : s.worker w = .leaving →
      s.stopRequested = true ∨ s.queue.shuttingDown = true →
      ServerStep options spurious s none (s.setWorker w .finished)
  | stay {w : Nat} : s.worker w = .leaving → s.stopRequested = false →
      s.queue.shuttingDown = false →
      ServerStep options spurious s none (s.setWorker w .entering)

/-- A run of the server from `http_server_run` on. -/
inductive ServerRun (options : HTTPServerOptions) (spurious : Prop) :
    List ServerEvent → ServerState → Prop
  | start {items : List HTTPSocket} {s : ServerState} : items.length = options.queueCapacity →
      httpServerStart options items = some s → ServerRun options spurious [] s
  | step {t : List ServerEvent} {s s' : ServerState} {e : Option ServerEvent} :
      ServerRun options spurious t s → ServerStep options spurious s e s' →
      ServerRun options spurious (t ++ e.toList) s'

end SqlApi.Server

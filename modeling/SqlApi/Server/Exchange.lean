import SqlApi.Server.BodyWindow
import SqlApi.Server.HttpServer
import SqlApi.Server.Reply

/-!
# What one client is told

`http_server_handle_client` as a program in an environment: the calls it makes are answered as
`HandlerOp.Answers` says, whatever the other threads do meanwhile. Then the client is sent one
reply, one that its request asks for, completely or cut off so that it notices.

The rules of `Program.Ensures` go through the handler call by call. The reply is written down as a
function of the request and of what the calls answered (`Exchange.replyTo`). A request whose body is
within the bytes received is parsed in one way only, so its reply is unique (`Exchange.BodyInside`).
-/

namespace SqlApi.Server

open SqlApi.Lib SqlApi.Core

/-! ## Exchanges -/

/-- What `db_server_execute` returned for a query, and the rows its result pointed to then. -/
structure Executed where
  query : Cursor
  execution : DBServerExecution
  rows : List Row

/-- What a connection has brought so far: what `recv` answered, the metrics that were read, the
query that was executed, the bytes that were sent and whether all were. -/
structure Exchange where
  received : List RecvResult
  metrics : Option DBServerMetrics
  executed : Option Executed
  sent : List UInt8
  complete : Bool

/-- A new connection. -/
def Exchange.init : Exchange := ⟨[], none, none, [], false⟩

/-- A client has the reply, or knows that it has not. -/
def Received (reply : Reply) (complete : Bool) (sent : List UInt8) : Prop :=
  sent <+: reply.message ∧
    readReply sent = if complete then some (reply.statusCode, reply.json) else none

/-- What the handler owes to the calls it makes: it parses what was read, builds the answer to what
was executed, and sends replies. -/
def HandlerOp.Allowed : HandlerOp → Exchange → Prop
  | .parseHttpRequest requestBuffer, x =>
    httpServerReadRequest x.received = some (.ok requestBuffer)
  | .buildExecutionResponse execution, x =>
    ∃ query rows, x.executed = some ⟨query, execution, rows⟩
  | .buildErrorResponse statusCode errorType message, _ =>
    (APIAnswer.error statusCode errorType message).Typed
  | .sendResponse response, _ => ∃ reply : Reply, reply.Typed ∧ response = reply.response
  | _, _ => True

/-- How a call of the handler may be answered, and what the exchange is afterwards. -/
def HandlerOp.Answers : (o : HandlerOp) → Exchange → o.Ans → Exchange → Prop
  | .readRequest, x, answer, x' =>
    ∃ recvs, httpServerReadRequest recvs = some answer ∧ x' = { x with received := recvs }
  | .parseHttpRequest requestBuffer, x, answer, x' =>
    (∃ rest, apiParseHttpRequest (requestBuffer ++ 0 :: rest) = some answer) ∧ x' = x
  | .recordHealthRequest, x, _, x' | .recordMetricsRequest, x, _, x' | .recordQueueFull, x, _, x'
  | .noteResponseComplete, x, _, x' => x' = x
  -- the counters that were read are kept, to be compared with the reply
  | .getMetrics, x, metrics, x' => x' = { x with metrics := some metrics }
  | .execute query, x, answer, x' => ∃ execution rows, answer = some execution ∧
      (apiExecutionAnswer rows execution).Typed ∧
      x' = { x with executed := some ⟨query, execution, rows⟩ }
  | .buildHealthResponse, x, answer, x' => answer = some Reply.health.response ∧ x' = x
  | .buildMetricsResponse metrics, x, answer, x' =>
    answer = some (Reply.metrics metrics).response ∧ x' = x
  | .buildExecutionResponse execution, x, answer, x' =>
    (∀ query rows, x.executed = some ⟨query, execution, rows⟩ →
      answer = some (apiExecutionAnswer rows execution).response) ∧ x' = x
  | .buildErrorResponse statusCode errorType message, x, answer, x' =>
    answer = some (APIAnswer.error statusCode errorType message).response ∧ x' = x
  -- what was sent, and whether all of it was
  | .sendResponse response, x, answer, x' =>
    (∀ reply : Reply, reply.Typed → response = reply.response → Received reply answer x'.sent) ∧
      x' = { x with sent := x'.sent, complete := answer }

/-- A program of the handler that ends as `Q` says, in this environment. -/
abbrev HandlerProg.Ensures {α : Type} (program : HandlerProg α) (Q : Exchange → Prop)
    (x : Exchange) : Prop :=
  Program.Ensures HandlerOp.Allowed HandlerOp.Answers (fun _ => Q) program x

/-! ## The reply to a request -/

/-- An error that the handler reports itself. -/
def refusal (statusCode : Int) (errorType message : String) : Reply :=
  .answer (.error statusCode (bytes errorType) (bytes message))

/-- The answer to the query that was executed. -/
def Exchange.answer (x : Exchange) (query : Cursor) : Option Reply :=
  x.executed.bind fun executed =>
    if executed.query = query then
      some (.answer (apiExecutionAnswer executed.rows executed.execution))
    else none

/-- What a request is replied, by its path and its method. -/
def Exchange.replyTo (x : Exchange) (request : APIRequest) : Option Reply :=
  if request.path = bytes "/health" then
    if request.method = .get then some .health
    else some (refusal 405 "method_not_allowed" "This endpoint only supports GET")
  else if request.path = bytes "/metrics" then
    if request.method = .get then x.metrics.map .metrics
    else some (refusal 405 "method_not_allowed" "This endpoint only supports GET")
  else if request.path = bytes "/query" then
    if request.method = .post then x.answer request.query
    else some (refusal 405 "method_not_allowed" "This endpoint only supports POST")
  -- an unknown method is told apart from an unknown path only here
  else if request.method = .unknown then
    some (refusal 405 "method_not_allowed" "Unsupported HTTP method")
  else some (refusal 404 "not_found" "Unknown endpoint")

/-- A reply that the bytes received ask for. The parser is given the whole request buffer, so that
it may depend on what is behind them there (`rest`). -/
inductive Exchange.AsksFor (x : Exchange) : Reply → Prop
  | unread {message : List UInt8} : httpServerReadRequest x.received = some (.error message) →
      AsksFor x (.answer (.error 400 (bytes "malformed_http") message))
  | malformed {requestBuffer rest message : List UInt8} :
      httpServerReadRequest x.received = some (.ok requestBuffer) →
      apiParseHttpRequest (requestBuffer ++ 0 :: rest) = some (.error message) →
      AsksFor x (.answer (.error 400 (bytes "malformed_http") message))
  | request {requestBuffer rest : List UInt8} {request : APIRequest} {reply : Reply} :
      httpServerReadRequest x.received = some (.ok requestBuffer) →
      apiParseHttpRequest (requestBuffer ++ 0 :: rest) = some (.ok request) →
      x.replyTo request = some reply → AsksFor x reply

/-- The body that the parser is about to read lies within the bytes received. -/
def Exchange.BodyInside (x : Exchange) : Prop :=
  ∀ requestBuffer, httpServerReadRequest x.received = some (.ok requestBuffer) →
    ∀ offset contentLength, apiBodyWindow requestBuffer = some (offset, contentLength) →
      offset + contentLength ≤ requestBuffer.length

/-- Then the bytes received ask for one reply, whatever is behind them. -/
theorem Exchange.AsksFor.unique {x : Exchange} {reply reply' : Reply} (hinside : x.BodyInside)
    (h : x.AsksFor reply) (h' : x.AsksFor reply') : reply = reply' := by
  -- the request was read once, and is parsed in one way
  have hread {first second : Except (List UInt8) (List UInt8)}
      (h : httpServerReadRequest x.received = some first)
      (h' : httpServerReadRequest x.received = some second) : first = second :=
    Option.some.inj (h.symm.trans h')
  have hparse {requestBuffer rest rest' : List UInt8} {first second : Except (List UInt8) APIRequest}
      (hok : httpServerReadRequest x.received = some (.ok requestBuffer))
      (h : apiParseHttpRequest (requestBuffer ++ 0 :: rest) = some first)
      (h' : apiParseHttpRequest (requestBuffer ++ 0 :: rest') = some second) : first = second := by
    rw [apiParseHttpRequest_append_zero (hinside requestBuffer hok) rest rest', h'] at h
    exact (Option.some.inj h).symm
  cases h with
  | unread hunread =>
    cases h' with
    | unread hunread' => rw [Except.error.inj (hread hunread hunread')]
    | malformed hok' _ => cases hread hunread hok'
    | request hok' _ _ => cases hread hunread hok'
  | malformed hok hmalformed =>
    cases h' with
    | unread hunread' => cases hread hok hunread'
    | malformed hok' hmalformed' =>
      obtain rfl := Except.ok.inj (hread hok hok')
      rw [Except.error.inj (hparse hok hmalformed hmalformed')]
    | request hok' hrequest' _ =>
      obtain rfl := Except.ok.inj (hread hok hok')
      cases hparse hok hmalformed hrequest'
  | request hok hrequest hreply =>
    cases h' with
    | unread hunread' => cases hread hok hunread'
    | malformed hok' hmalformed' =>
      obtain rfl := Except.ok.inj (hread hok hok')
      cases hparse hok hrequest hmalformed'
    | request hok' hrequest' hreply' =>
      obtain rfl := Except.ok.inj (hread hok hok')
      obtain rfl := Except.ok.inj (hparse hok hrequest hrequest')
      exact Option.some.inj (hreply.symm.trans hreply')

/-- The reply was sent. -/
structure Exchange.Delivers (x : Exchange) (reply : Reply) : Prop where
  typed : reply.Typed
  received : Received reply x.complete x.sent

/-! ## Messages -/

section Messages

variable {message : List UInt8}

/-- A message that fits its buffer of 256 bytes. -/
def IsMessage (message : List UInt8) : Prop := 0 ∉ message ∧ message.length ≤ 255

theorem isMessage_snprintf {text : List UInt8} (hzero : 0 ∉ text) :
    IsMessage (snprintf 256 text) :=
  ⟨fun hmem => hzero (List.mem_of_mem_take hmem), List.length_take_le _ _⟩

theorem isMessage_apiSetError {text : String} (hzero : 0 ∉ bytes text) :
    IsMessage (apiSetError text) := isMessage_snprintf hzero

theorem isMessage_httpServerIncomplete (headersReady : Bool) :
    IsMessage (httpServerIncomplete headersReady) := by
  refine isMessage_snprintf ?_
  cases headersReady <;> decide

/-- Why a request could not be read. -/
theorem isMessage_of_readLoop {size : Nat} {recvs : List RecvResult} {received : List UInt8}
    {expected : Option Nat} (h : httpServerReadLoop size recvs received expected =
      some (.error message)) : IsMessage message := by
  fun_induction httpServerReadLoop size recvs received expected with
  | case1 => cases h
  | case2 =>
    obtain rfl := Except.error.inj (Option.some.inj h)
    exact isMessage_snprintf (by decide)
  | case3 =>
    obtain rfl := Except.error.inj (Option.some.inj h)
    exact isMessage_httpServerIncomplete _
  | case4 => cases h
  | case5 => cases h
  | case6 _ _ _ _ _ _ _ _ ih => exact ih h
  | case7 _ _ _ _ _ _ _ ih => exact ih h
  | case8 =>
    obtain rfl := Except.error.inj (Option.some.inj h)
    exact isMessage_snprintf (by decide)
  | case9 => cases h
  | case10 _ _ _ _ _ _ _ _ _ _ _ ih => exact ih h
  | case11 =>
    obtain rfl := Except.error.inj (Option.some.inj h)
    exact isMessage_httpServerIncomplete _

theorem isMessage_of_headerLoop {fuel left contentLength : Nat} {headerCursor : Cursor}
    (h : apiHeaderLoop fuel headerCursor left contentLength = .error message) :
    IsMessage message := by
  fun_induction apiHeaderLoop fuel headerCursor left contentLength with
  | case1 => cases h
  | case2 =>
    obtain rfl := Except.error.inj h
    exact isMessage_apiSetError (by decide)
  | case3 =>
    obtain rfl := Except.error.inj h
    exact isMessage_apiSetError (by decide)
  | case4 _ _ _ _ _ _ _ _ _ ih => exact ih h
  | case5 => cases h

theorem isMessage_of_apiParseHead {memory : List UInt8} (h : apiParseHead memory = .error message) :
    IsMessage message := by
  have hfixed (text : String) (hzero : 0 ∉ bytes text) {message : List UInt8}
      (h : (Except.error (apiSetError text) : Except _ (APIRequest × Nat)) = .error message) :
      IsMessage message := Except.error.inj h ▸ isMessage_apiSetError hzero
  -- the cases are the returns of the function in their order; only the header loop has messages of
  -- its own
  unfold apiParseHead at h
  cases hline : strstr memory crlf with
  | none =>
    rw [hline] at h
    exact hfixed "Malformed HTTP request line" (by decide) h
  | some lineEnd =>
    rw [hline] at h
    cases hwords : apiScanRequestLine memory with
    | none =>
      rw [hwords] at h
      exact hfixed "Malformed HTTP request line" (by decide) h
    | some words =>
      rw [hwords] at h
      dsimp only at h
      split at h
      · exact hfixed "Request path is empty" (by decide) h
      cases hend : strstr memory crlfCrlf with
      | none =>
        rw [hend] at h
        exact hfixed "Malformed HTTP headers" (by decide) h
      | some headerEnd =>
        rw [hend] at h
        dsimp only at h
        split at h
        · next message' hheaders =>
          obtain rfl := Except.error.inj h
          exact isMessage_of_headerLoop hheaders
        · cases h

/-- Why a request could not be parsed. -/
theorem isMessage_of_apiParseHttpRequest {memory : List UInt8}
    (h : apiParseHttpRequest memory = some (.error message)) : IsMessage message := by
  have hfixed (text : String) (hzero : 0 ∉ bytes text) {message : List UInt8}
      (h : some (Except.error (apiSetError text) : Except _ APIRequest) = some (.error message)) :
      IsMessage message := Except.error.inj (Option.some.inj h) ▸ isMessage_apiSetError hzero
  unfold apiParseHttpRequest at h
  split at h
  · next message' hhead =>
    obtain rfl := Except.error.inj (Option.some.inj h)
    exact isMessage_of_apiParseHead hhead
  · split at h
    · split at h
      · exact hfixed "POST /query requires a JSON body" (by decide) h
      split at h
      · cases h
      split at h
      · exact hfixed "JSON body must contain a string field named query" (by decide) h
      · cases h
    · cases h

/-- An error whose parts are such values. -/
theorem typed_refusal (statusCode : Int) (errorType : String)
    (hstatus : -2 ^ 31 ≤ statusCode ∧ statusCode < 2 ^ 31)
    (htype : (∀ c ∈ bytes errorType, 32 ≤ c ∧ c ≠ 34 ∧ c ≠ 92) ∧ (bytes errorType).length ≤ 32)
    (hmessage : IsMessage message) :
    (APIAnswer.error statusCode (bytes errorType) message).Typed :=
  typed_error hstatus htype hmessage

end Messages

/-! ## The handler -/

section Handler

variable {x : Exchange} {reply : Reply}

/-- What happens once the reply is there: nothing but the sending. -/
def Exchange.SendsOnly (x : Exchange) (reply : Reply) (x' : Exchange) : Prop :=
  x' = { x with sent := x'.sent, complete := x'.complete } ∧ x'.Delivers reply

theorem httpServerSendAndCount_ensures (htyped : reply.Typed) :
    HandlerProg.Ensures (httpServerSendAndCount (some reply.response)) (x.SendsOnly reply) x := by
  refine Program.ensures_perform_bind ⟨reply, htyped, rfl⟩ ?_
  rintro ok x₁ ⟨hreceived, hx₁⟩
  refine Program.ensures_perform trivial ?_
  rintro - x₂ rfl
  refine ⟨?_, htyped, ?_⟩
  · rw [hx₁]
  · rw [hx₁]
    exact hreceived reply htyped rfl

theorem httpServerSendErrorAndCount_ensures {statusCode : Int} {errorType message : List UInt8}
    (htyped : (APIAnswer.error statusCode errorType message).Typed) :
    HandlerProg.Ensures (httpServerSendErrorAndCount statusCode errorType message)
      (x.SendsOnly (.answer (.error statusCode errorType message))) x := by
  refine Program.ensures_perform_bind htyped ?_
  rintro response x₁ ⟨rfl, rfl⟩
  exact httpServerSendAndCount_ensures htyped

/-- A request gets the reply it asks for. -/
theorem httpServerRespond_ensures (request : APIRequest) :
    HandlerProg.Ensures (httpServerRespond request) (fun x' => x'.received = x.received ∧
      ∃ reply, x'.replyTo request = some reply ∧ x'.Delivers reply) x := by
  -- the reply does not depend on what was sent
  have hsent {x₁ x' : Exchange} {reply : Reply} (hreceived : x₁.received = x.received)
      (hreply : x₁.replyTo request = some reply) (h : x₁.SendsOnly reply x') :
      x'.received = x.received ∧ ∃ reply, x'.replyTo request = some reply ∧ x'.Delivers reply := by
    obtain ⟨hx', hdelivers⟩ := h
    refine ⟨?_, reply, ?_, hdelivers⟩
    · rw [hx', ← hreceived]
    · rw [hx', ← hreply]
      rfl
  have herror {statusCode : Int} {errorType message : String}
      (hreply : x.replyTo request = some (refusal statusCode errorType message))
      (htyped : (APIAnswer.error statusCode (bytes errorType) (bytes message)).Typed) :
      HandlerProg.Ensures
        (httpServerSendErrorAndCount statusCode (bytes errorType) (bytes message))
        (fun x' => x'.received = x.received ∧
          ∃ reply, x'.replyTo request = some reply ∧ x'.Delivers reply) x :=
    (httpServerSendErrorAndCount_ensures htyped).imp fun _ _ h => hsent rfl hreply h
  have hdistinct : bytes "/health" ≠ bytes "/metrics" ∧ bytes "/health" ≠ bytes "/query" ∧
      bytes "/metrics" ≠ bytes "/query" := by decide
  unfold httpServerRespond
  split
  · next hroute =>
    refine Program.ensures_perform_bind trivial ?_
    rintro - x₁ rfl
    refine Program.ensures_perform_bind trivial ?_
    rintro response x₂ ⟨rfl, rfl⟩
    have htyped : Reply.health.Typed := trivial
    refine (httpServerSendAndCount_ensures htyped).imp fun _ _ h => hsent ?_ ?_ h
    · rfl
    rw [Exchange.replyTo, if_pos hroute.2, if_pos hroute.1]
  split
  · next hroute =>
    refine Program.ensures_perform_bind trivial ?_
    rintro - x₁ rfl
    refine Program.ensures_perform_bind trivial ?_
    rintro metrics x₂ rfl
    refine Program.ensures_perform_bind trivial ?_
    rintro response x₃ ⟨rfl, rfl⟩
    have htyped : (Reply.metrics metrics).Typed := trivial
    refine (httpServerSendAndCount_ensures htyped).imp fun _ _ h => hsent ?_ ?_ h
    · rfl
    rw [Exchange.replyTo, hroute.2, if_neg hdistinct.1.symm, if_pos rfl, if_pos hroute.1]
    rfl
  split
  · next hroute =>
    refine Program.ensures_perform_bind trivial ?_
    rintro answer x₁ ⟨execution, rows, rfl, htyped, rfl⟩
    refine Program.ensures_perform_bind ⟨_, rows, rfl⟩ ?_
    rintro response x₂ ⟨hresponse, rfl⟩
    rw [hresponse _ _ rfl]
    have hreply : (Reply.answer (apiExecutionAnswer rows execution)).Typed := htyped
    refine (httpServerSendAndCount_ensures hreply).imp fun _ _ h => hsent ?_ ?_ h
    · rfl
    rw [Exchange.replyTo, hroute.2, if_neg hdistinct.2.1.symm, if_neg hdistinct.2.2.symm,
      if_pos rfl, if_pos hroute.1]
    exact if_pos rfl
  -- all other requests are refused
  next hhealth hmetrics hquery =>
  have htype : (∀ c ∈ bytes "method_not_allowed", 32 ≤ c ∧ c ≠ 34 ∧ c ≠ 92) ∧
      (bytes "method_not_allowed").length ≤ 32 := by decide
  have hmessages : IsMessage (bytes "This endpoint only supports GET") ∧
      IsMessage (bytes "This endpoint only supports POST") ∧
      IsMessage (bytes "Unsupported HTTP method") ∧ IsMessage (bytes "Unknown endpoint") := by
    unfold IsMessage
    decide
  split
  · next hroute =>
    refine herror ?_ (typed_refusal _ _ (by decide) htype hmessages.1)
    rcases hroute with ⟨hpath | hpath, hmethod⟩
    · rw [Exchange.replyTo, if_pos hpath, if_neg hmethod]
    · rw [Exchange.replyTo, hpath, if_neg hdistinct.1.symm, if_pos rfl, if_neg hmethod]
  next hget =>
  split
  · next hroute =>
    refine herror ?_ (typed_refusal _ _ (by decide) htype hmessages.2.1)
    rw [Exchange.replyTo, hroute.1, if_neg hdistinct.2.1.symm, if_neg hdistinct.2.2.symm,
      if_pos rfl, if_neg hroute.2]
  next hpost =>
  have hhealth' : request.path ≠ bytes "/health" := fun hpath =>
    hget ⟨.inl hpath, fun hmethod => hhealth ⟨hmethod, hpath⟩⟩
  have hmetrics' : request.path ≠ bytes "/metrics" := fun hpath =>
    hget ⟨.inr hpath, fun hmethod => hmetrics ⟨hmethod, hpath⟩⟩
  have hquery' : request.path ≠ bytes "/query" := fun hpath =>
    hpost ⟨hpath, fun hmethod => hquery ⟨hmethod, hpath⟩⟩
  split
  · next hmethod =>
    refine herror ?_ (typed_refusal _ _ (by decide) htype hmessages.2.2.1)
    rw [Exchange.replyTo, if_neg hhealth', if_neg hmetrics', if_neg hquery', if_pos hmethod]
  · next hmethod =>
    refine herror ?_ (typed_refusal _ _ (by decide) (by decide) hmessages.2.2.2)
    rw [Exchange.replyTo, if_neg hhealth', if_neg hmetrics', if_neg hquery', if_neg hmethod]

/-- A client that is handled gets the one reply it asks for. -/
theorem httpServerHandleClient_ensures :
    HandlerProg.Ensures httpServerHandleClient
      (fun x => ∃ reply, x.AsksFor reply ∧ x.Delivers reply) .init := by
  have htype : (∀ c ∈ bytes "malformed_http", 32 ≤ c ∧ c ≠ 34 ∧ c ≠ 92) ∧
      (bytes "malformed_http").length ≤ 32 := by decide
  refine Program.ensures_perform_bind trivial ?_
  rintro (message | requestBuffer) x₁ ⟨recvs, hread, rfl⟩
  · -- nothing could be read: the reply is the 400 of the read
    have htyped := typed_refusal 400 "malformed_http" (by decide) htype (isMessage_of_readLoop hread)
    refine (httpServerSendErrorAndCount_ensures htyped).imp fun _ x' h => ?_
    obtain ⟨hx', hdelivers⟩ := h
    refine ⟨_, .unread ?_, hdelivers⟩
    rw [hx']
    exact hread
  refine Program.ensures_perform_bind hread ?_
  rintro (message | request) x₂ ⟨⟨rest, hparse⟩, rfl⟩
  · -- the request could not be parsed: the reply is the 400 of the parse
    have htyped := typed_refusal 400 "malformed_http" (by decide) htype
      (isMessage_of_apiParseHttpRequest hparse)
    refine (httpServerSendErrorAndCount_ensures htyped).imp fun _ x' h => ?_
    obtain ⟨hx', hdelivers⟩ := h
    refine ⟨_, .malformed ?_ hparse, hdelivers⟩
    rw [hx']
    exact hread
  · -- the request is answered by its route
    refine (httpServerRespond_ensures request).imp fun _ x' h => ?_
    obtain ⟨hreceived, reply, hreply, hdelivers⟩ := h
    refine ⟨reply, .request ?_ hparse hreply, hdelivers⟩
    rw [hreceived]
    exact hread

/-- The reply to a client that found the queue full. -/
def queueFullReply : Reply := refusal 503 "queue_full" "Worker queue is full"

/-- A client that is rejected is told why. -/
theorem httpServerReject_ensures :
    HandlerProg.Ensures httpServerReject (fun x => x.Delivers queueFullReply) x := by
  have hmessage : IsMessage (bytes "Worker queue is full") := by
    unfold IsMessage
    decide
  refine Program.ensures_perform_bind trivial ?_
  rintro - x₁ rfl
  have htyped := typed_refusal 503 "queue_full" (by decide) (by decide) hmessage
  exact (httpServerSendErrorAndCount_ensures htyped).imp fun _ _ h => h.2

end Handler

end SqlApi.Server

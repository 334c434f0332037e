import SqlApi.Server.HttpRoundTrip
import SqlApi.Server.ServiceProgress

/-!
# What clients can rely on

The whole server from the side of its clients: a connection that is about to be closed was sent a
reply its request asks for (the only one, when its body is within the bytes received), completely
or so that the client notices; and a query that a client sends over HTTP is answered as the list of
rows answers it, at a place in the common order of all queries that lies between the start of the
call and its return.
-/

namespace SqlApi.Server

open SqlApi.Lib SqlApi.Core

/-! ## Requests with a query -/

/-- A client sends a query: in an object whose only member it is, with no escapes but the six that
the server knows, behind one content length and other header lines, 8191 bytes at most, in pieces
of any size. -/
inductive SendsQuery (query : Cursor) : List RecvResult → Prop
  | pieces {body line : List UInt8} {before after chunks : List (List UInt8)} :
      QueryBody query body → (∀ l ∈ before, OtherHeader l) → IsHeaderLine line →
      ContentLengthHeader body.length line → (∀ l ∈ after, OtherHeader l) →
      (postRequest (before ++ line :: after) body).length ≤ 8191 → (∀ chunk ∈ chunks, chunk ≠ []) →
      chunks.flatten = postRequest (before ++ line :: after) body →
      SendsQuery query (chunks.map .data)

section SendsQuery

variable {query : Cursor} {lines : List (List UInt8)} {body : List UInt8}

/-- The parser finds the query of a body. -/
private theorem apiParseHttpRequest_postRequest (hbody : QueryBody query body)
    (hquery : query.length ≤ 1023) (hone : OneContentLength body.length lines)
    (rest : List UInt8) : apiParseHttpRequest (postRequest lines body ++ 0 :: rest) =
      some (.ok ⟨.post, bytes "/query", query, body.length⟩) := by
  have happend : postRequest lines body ++ 0 :: rest = postRequest lines (body ++ 0 :: rest) := by
    simp only [postRequest, List.append_assoc]
  have hpos : body.length ≠ 0 := by
    obtain ⟨w₀, w₁, w₂, w₃, w₄, w₅, text, -, -, -, -, -, -, -, rfl⟩ := hbody
    simp
  have hwindow : ((postRequest lines (body ++ 0 :: rest)).drop
      (20 + (joinLines lines).length + 4)).take body.length = body := by
    rw [show (postRequest lines (body ++ 0 :: rest)).drop (20 + (joinLines lines).length + 4) =
      body ++ 0 :: rest from drop_httpMessage_body (bytes "POST /query HTTP/1.1") lines _,
      List.take_left]
  rw [happend, apiParseHttpRequest, apiParseHead_postRequest hone]
  dsimp only
  rw [if_pos (by rfl), if_neg hpos, length_postRequest, List.length_append, if_neg (by omega),
    hwindow, apiExtractQueryString_of_queryBody hbody (by omega)]

/-- The server reads the request of such a client, and finds the query in it. -/
theorem SendsQuery.read {received : List RecvResult} (h : SendsQuery query received)
    (hquery : query.length ≤ 1023) : ∃ requestBuffer contentLength,
      httpServerReadRequest received = some (.ok requestBuffer) ∧
      requestBuffer.length < httpServerRequestBufferSize ∧
      ∀ rest, apiParseHttpRequest (requestBuffer ++ 0 :: rest) =
        some (.ok ⟨.post, bytes "/query", query, contentLength⟩) := by
  cases h with
  | @pieces body line before after chunks hbody hbefore hline hlength hafter hfits hchunks hsent =>
    have htotal := length_postRequest (before ++ line :: after) body
    have hone := oneContentLength hbefore hline hlength hafter (by omega)
    have hend := (postRequest_search (fun l hl => (hone.header l hl).1) body).2
    have hsize := Nat.lt_succ_of_le hfits
    refine ⟨_, body.length, httpServerReadLoop_chunks hsize (by decide) hend ?_ hchunks hsent rfl,
      hsize, apiParseHttpRequest_postRequest hbody hquery hone⟩
    exact fun early => httpServerExpectedTotal_early hone (by omega)

/-- Such a client asks for the answer to its query. -/
theorem Exchange.AsksFor.answered {x : Exchange} {reply : Reply} (h : x.AsksFor reply)
    (hsends : SendsQuery query x.received) (hquery : query.length ≤ 1023) :
    x.answer query = some reply := by
  obtain ⟨requestBuffer, contentLength, hread, -, hparse⟩ := hsends.read hquery
  cases h with
  | unread hread' => exact absurd (hread.symm.trans hread') (by rintro ⟨⟩)
  | malformed hread' hparse' =>
    obtain rfl := Except.ok.inj (Option.some.inj (hread.symm.trans hread'))
    exact absurd ((hparse _).symm.trans hparse') (by rintro ⟨⟩)
  | request hread' hparse' hreply =>
    obtain rfl := Except.ok.inj (Option.some.inj (hread.symm.trans hread'))
    obtain rfl := Except.ok.inj (Option.some.inj ((hparse _).symm.trans hparse'))
    have hroutes : bytes "/query" ≠ bytes "/health" ∧ bytes "/query" ≠ bytes "/metrics" := by decide
    rwa [Exchange.replyTo, if_neg hroutes.1, if_neg hroutes.2, if_pos rfl, if_pos rfl] at hreply

/-- The answer comes from the execution of that query. -/
theorem Exchange.answer_eq_some {x : Exchange} {reply : Reply} (h : x.answer query = some reply) :
    ∃ execution rows, x.executed = some ⟨query, execution, rows⟩ ∧
      reply = .answer (apiExecutionAnswer rows execution) := by
  obtain ⟨⟨query', execution, rows⟩, hexecuted, hreply⟩ := Option.bind_eq_some_iff.mp h
  dsimp only at hreply
  split at hreply
  · next heq =>
    obtain rfl : query' = query := heq
    exact ⟨execution, rows, hexecuted, (Option.some.inj hreply).symm⟩
  · cases hreply

end SendsQuery

/-! ## A server with one worker -/

section OneWorker

variable {t : List ServiceEvent} {s : Service} {item : HTTPSocket} {n : UInt64} {query : Cursor}
  {received : List RecvResult}

/-- A server that rests serves a client with a query to the end. -/
theorem one_answers {rows : Rows} (h : ServiceRun oneOptions False t s)
    (hrests : s.Rests item n) (hm : TableInv s.database.server.memory rows)
    (hn : Numbered s.database.server.memory rows) (hroom : rows.length + 1 < 2 ^ 31)
    (hsends : SendsQuery query received) (hquery : query.length ≤ 1023) (hzero : 0 ∉ query)
    (hsize : (Reply.answer (apiReference rows.contents query).1).message.length < 2 ^ 31) :
    ∃ s' s'' rows', s.Leads oneOptions False [(.worker 0, query)] s' ∧
      s'.server.serving (.worker 0) = some (5, .ret ()) ∧
      (s'.exchange (.worker 0)).received = received ∧
      s'.Leads oneOptions False [] s'' ∧ s''.Rests 5 (n + 1) ∧
      s''.server.serving (.worker 0) = none ∧ TableInv s''.database.server.memory rows' ∧
      Numbered s''.database.server.memory rows' ∧
      rows'.contents = (apiReference rows.contents query).2 := by
  obtain ⟨requestBuffer, contentLength, hread, hshort, hparse⟩ := hsends.read hquery
  obtain ⟨result, m, rows', found, hrun, hm', hn', hfound, hanswer, hcontents⟩ :=
    run_apiReference hm hn h.inv.database.spared.noFailure hzero hroom
  have hlength : (requestBuffer ++ 0 :: List.replicate
      (httpServerRequestBufferSize - requestBuffer.length - 1) 0).length =
        httpServerRequestBufferSize := by
    rw [List.length_append, List.length_cons, List.length_replicate]
    omega
  obtain ⟨s', s'', hleads, hserving, hreceived, -, hleads', hrests', hfree, rfl⟩ :=
    one_serves h hrests hread hlength (hparse _) hrun hfound (hanswer ▸ hsize)
  exact ⟨s', s'', rows', hleads, hserving, hreceived, hleads', hrests', hfree, hm', hn', hcontents⟩

/-- An INSERT and a SELECT that looks for its row. -/
def insertKim : Cursor := sqlText (SqlStatement.insert (bytes "Kim") 25).tokens

def selectKim : Cursor := sqlText (SqlStatement.select (.byId .eq 1)).tokens

theorem kim_valid : (SqlStatement.insert (bytes "Kim") 25).Valid ∧
    (SqlStatement.select (.byId .eq 1)).Valid := by
  unfold SqlStatement.Valid IsName IsInt
  decide

theorem apiReference_insertKim :
    apiReference [] insertKim = (.insert 1, [⟨1, bytes "Kim", 25⟩]) :=
  apiReference_of_renders kim_valid.1 (SqlStatement.renders_sqlText _) []

theorem apiReference_selectKim : apiReference [⟨1, bytes "Kim", 25⟩] selectKim =
    (.select true [⟨1, bytes "Kim", 25⟩], [⟨1, bytes "Kim", 25⟩]) :=
  apiReference_of_renders kim_valid.2 (SqlStatement.renders_sqlText _) _

/-- A request with a query that needs no escapes. -/
def plainRequest (query line : List UInt8) : List UInt8 :=
  postRequest [line] (byte '{' :: 34 :: (bytes "query" ++ 34 :: byte ':' :: 34 ::
    (query ++ 34 :: [byte '}'])))

private theorem sendsQuery_plainRequest {line : List UInt8}
    (hplain : ∀ c ∈ query, 32 ≤ c ∧ c ≠ 34 ∧ c ≠ 92) (hline : IsHeaderLine line)
    (hlength : ContentLengthHeader (query.length + 12) line)
    (hfits : (plainRequest query line).length ≤ 8191) :
    SendsQuery query [.data (plainRequest query line)] := by
  have hbody : QueryBody query (byte '{' :: 34 :: (bytes "query" ++ 34 :: byte ':' :: 34 ::
      (query ++ 34 :: [byte '}']))) :=
    ⟨[], [], [], [], [], [], query, by simp [JsonBlank], by simp [JsonBlank], by simp [JsonBlank],
      by simp [JsonBlank], by simp [JsonBlank], by simp [JsonBlank], encodedAs_plain hplain, rfl⟩
  have hbodyLength : (byte '{' :: 34 :: (bytes "query" ++ 34 :: byte ':' :: 34 ::
      (query ++ 34 :: [byte '}']))).length = query.length + 12 := by
    simp only [List.length_cons, List.length_append, List.length_nil]
    have hfive : (bytes "query").length = 5 := by decide
    omega
  refine @SendsQuery.pieces query _ line [] [] [plainRequest query line] hbody (by simp) hline
    (hbodyLength ▸ hlength) (by simp) hfits ?_ (List.flatten_singleton ..)
  simp [plainRequest, postRequest]

/-- The requests of two clients. -/
def insertKimRequest : List UInt8 := plainRequest insertKim (bytes "Content-Length: 52")

def selectKimRequest : List UInt8 := plainRequest selectKim (bytes "Content-Length: 45")

theorem sendsQuery_kim : SendsQuery insertKim [.data insertKimRequest] ∧
    SendsQuery selectKim [.data selectKimRequest] := by
  have hplain : (∀ c ∈ insertKim, 32 ≤ c ∧ c ≠ 34 ∧ c ≠ 92) ∧
      ∀ c ∈ selectKim, 32 ≤ c ∧ c ≠ 34 ∧ c ≠ 92 := by decide
  have hlines : IsHeaderLine (bytes "Content-Length: 52") ∧
      IsHeaderLine (bytes "Content-Length: 45") := by
    unfold IsHeaderLine
    decide
  have hfits : insertKimRequest.length ≤ 8191 ∧ selectKimRequest.length ≤ 8191 := by
    decide +kernel
  exact ⟨sendsQuery_plainRequest hplain.1 hlines.1 ⟨bytes "Content-Length", [32], bytes "52", [],
      by decide, by unfold SameWord; decide, by decide, by decide, by decide, by decide⟩ hfits.1,
    sendsQuery_plainRequest hplain.2 hlines.2 ⟨bytes "Content-Length", [32], bytes "45", [],
      by decide, by unfold SameWord; decide, by decide, by decide, by decide, by decide⟩ hfits.2⟩

/-- The sessions of two clients one after the other. -/
structure TwoSessions (t₀ : List ServiceEvent) (query query' : Cursor)
    (received received' : List RecvResult) (t t₁ t₂ : List ServiceEvent) (s s₁ s' s'' : Service) :
    Prop where
  first : ServiceRun oneOptions False (t₀ ++ t) s
  serves : s.server.serving (.worker 0) = some (5, .ret ())
  received : (s.exchange (.worker 0)).received = received
  between : s.Steps oneOptions False t₁ s₁
  free : s₁.server.serving (.worker 0) = none
  second : s₁.Steps oneOptions False t₂ s'
  serves' : s'.server.serving (.worker 0) = some (5, .ret ())
  received' : (s'.exchange (.worker 0)).received = received'
  order : lockOrder (callTrace (databaseTrace (t ++ t₁ ++ t₂))) =
    [(.worker 0, query), (.worker 0, query')]
  rests : ∃ n, s'.Leads oneOptions False [] s'' ∧ s''.Rests 5 n

/-- A server that rests serves two clients. -/
theorem one_session {rows : Rows} {query' : Cursor} {received' : List RecvResult}
    (h : ServiceRun oneOptions False t s) (hrests : s.Rests item n)
    (hm : TableInv s.database.server.memory rows) (hn : Numbered s.database.server.memory rows)
    (hroom : rows.length + 2 < 2 ^ 31) (hsends : SendsQuery query received)
    (hquery : query.length ≤ 1023) (hzero : 0 ∉ query) (hsends' : SendsQuery query' received')
    (hquery' : query'.length ≤ 1023) (hzero' : 0 ∉ query')
    (hsize : (Reply.answer (apiReference rows.contents query).1).message.length < 2 ^ 31)
    (hsize' : (Reply.answer (apiReference (apiReference rows.contents query).2
      query').1).message.length < 2 ^ 31) :
    ∃ t' t₁ t₂ s' s₁ s₂ s'',
      TwoSessions t query query' received received' t' t₁ t₂ s' s₁ s₂ s'' := by
  obtain ⟨s', s₁, rows₁, hfirst, hserves, hreceived, hrest, hrests₁, hfree, hm₁, hn₁, hrows⟩ :=
    one_answers h hrests hm hn (by omega) hsends hquery hzero hsize
  obtain ⟨t', h', -, horder⟩ := h.leads hfirst
  obtain ⟨t₁, h₁, hbetween, horder₁⟩ := h'.leads hrest
  -- the first client has added one row at most
  have hlength : rows₁.length ≤ rows.length + 1 := by
    have hle := length_apiReference_le rows.contents (0, query)
    have hone : [((0 : Nat), query)].countP writes ≤ 1 := List.countP_le_length
    rw [← hrows, Rows.contents, List.length_map, Rows.contents, List.length_map] at hle
    omega
  obtain ⟨s₂, s'', -, hsecond, hserves', hreceived', hrest', hrests₂, -⟩ :=
    one_answers h₁ hrests₁ hm₁ hn₁ (by omega) hsends' hquery' hzero' (hrows ▸ hsize')
  obtain ⟨t₂, -, hsteps, horder₂⟩ := h₁.leads hsecond
  refine ⟨t', t₁, t₂, s', s₁, s₂, s'', h', hserves, hreceived, hbetween, hfree, hsteps, hserves',
    hreceived', ?_, _, hrest', hrests₂⟩
  simp only [lockOrder_trace_append, horder, horder₁, horder₂]
  rfl

/-- A server that has just started serves two clients. -/
theorem first_session {query' : Cursor} {received' : List RecvResult}
    (hsends : SendsQuery query received) (hquery : query.length ≤ 1023) (hzero : 0 ∉ query)
    (hsends' : SendsQuery query' received') (hquery' : query'.length ≤ 1023) (hzero' : 0 ∉ query')
    (hsize : (Reply.answer (apiReference [] query).1).message.length < 2 ^ 31)
    (hsize' : (Reply.answer (apiReference (apiReference [] query).2 query').1).message.length <
      2 ^ 31) :
    ∃ t₀ t t₁ t₂ s s₁ s' s'', lockOrder (callTrace (databaseTrace t₀)) = [] ∧
      TwoSessions t₀ query query' received received' t t₁ t₂ s s₁ s' s'' := by
  obtain ⟨t₀, s₀, h₀, hrests, hinit, horder₀⟩ := one_starts
  have hm : TableInv s₀.database.server.memory [] := hinit ▸ tableCreate_inv
  have hn : Numbered s₀.database.server.memory [] := hinit ▸ tableCreate_numbered
  obtain ⟨t, t₁, t₂, s, s₁, s', s'', hsessions⟩ := one_session h₀ hrests hm hn (by decide)
    hsends hquery hzero hsends' hquery' hzero' hsize hsize'
  exact ⟨t₀, t, t₁, t₂, s, s₁, s', s'', horder₀, hsessions⟩

theorem kim_fits : (insertKim.length ≤ 1023 ∧ 0 ∉ insertKim) ∧
    selectKim.length ≤ 1023 ∧ 0 ∉ selectKim := by decide

theorem kim_messages : (Reply.answer (.insert 1)).message.length < 2 ^ 31 ∧
    (Reply.answer (.insert 2)).message.length < 2 ^ 31 ∧
    (Reply.answer (.select true [⟨1, bytes "Kim", 25⟩])).message.length < 2 ^ 31 := by
  decide +kernel

/-- The first client inserts its row; behind its reply the other finds it. -/
theorem kim_session : ∃ t₀ t t₁ t₂ s s₁ s' s'', lockOrder (callTrace (databaseTrace t₀)) = [] ∧
    TwoSessions t₀ insertKim selectKim [.data insertKimRequest] [.data selectKimRequest]
      t t₁ t₂ s s₁ s' s'' := by
  refine first_session sendsQuery_kim.1 kim_fits.1.1 kim_fits.1.2 sendsQuery_kim.2 kim_fits.2.1
    kim_fits.2.2 ?_ ?_
  · rw [apiReference_insertKim]
    exact kim_messages.1
  · rw [apiReference_insertKim, apiReference_selectKim]
    exact kim_messages.2.2

/-- Such calls are countable. -/
theorem TwoSessions.countable {t₀ t₁ t₂ : List ServiceEvent} {s s₁ s' s'' : Service}
    {query' : Cursor} {received' : List RecvResult}
    (h : TwoSessions t₀ query query' received received' t t₁ t₂ s s₁ s' s'')
    (hbefore : (lockOrder (callTrace (databaseTrace t₀))).length ≤ 1 ∧
      ∀ call ∈ lockOrder (callTrace (databaseTrace t₀)), 0 ∉ call.2) (hzero : 0 ∉ query)
    (hzero' : 0 ∉ query') : Countable (callTrace (databaseTrace (t₀ ++ t ++ t₁ ++ t₂))) := by
  -- the run grants what was granted before and then the two queries, in this order
  have hall : lockOrder (callTrace (databaseTrace (t₀ ++ t ++ t₁ ++ t₂))) =
      lockOrder (callTrace (databaseTrace t₀)) ++ [(.worker 0, query), (.worker 0, query')] := by
    have horders := h.order
    simp only [lockOrder_trace_append, List.append_assoc] at horders ⊢
    rw [horders]
  constructor
  · rw [hall]
    intro call hcall
    rcases List.mem_append.mp hcall with hcall | hcall
    · exact hbefore.2 call hcall
    · rcases List.mem_pair.mp hcall with rfl | rfl
      · exact hzero
      · exact hzero'
  · rw [hall]
    refine List.countP_le_length.trans_lt ?_
    rw [List.length_append]
    change _ + 2 < 2 ^ 31 - 1
    have hlength := hbefore.1
    omega

/-- A server that has done nothing yet. -/
theorem countable_start {t₀ : List ServiceEvent}
    (horder : lockOrder (callTrace (databaseTrace t₀)) = []) :
    (lockOrder (callTrace (databaseTrace t₀))).length ≤ 1 ∧
      ∀ call ∈ lockOrder (callTrace (databaseTrace t₀)), 0 ∉ call.2 := by
  rw [horder]
  exact ⟨Nat.zero_le _, List.forall_mem_nil _⟩

end OneWorker

/-! ## Every client -/

section Clients

variable {options : HTTPServerOptions} {spurious : Prop} {t : List ServiceEvent} {s : Service}
  {thread : ServerThread} {c : HTTPSocket} {w : Nat} {query : Cursor}

/-- What a client of this thread asks for: one that found the queue full asks for nothing. -/
def ServerThread.AsksFor : ServerThread → Exchange → Reply → Prop
  | .main, _, reply => reply = queueFullReply
  | .worker _, x, reply => x.AsksFor reply

/-- A thread that is about to close a connection has sent the reply. -/
theorem ServiceRun.delivered (h : ServiceRun options spurious t s)
    (hclosing : s.server.serving thread = some (c, .ret ())) :
    ∃ reply, thread.AsksFor (s.exchange thread) reply ∧ (s.exchange thread).Delivers reply := by
  have houtcome : thread.Outcome (s.exchange thread) := (h.inv.serves thread).program c _ hclosing
  cases thread with
  | main => exact ⟨_, rfl, houtcome⟩
  | worker w => exact houtcome

/-- The bytes received ask for one reply, when the body is among them. -/
theorem ServerThread.AsksFor.unique {x : Exchange} {reply reply' : Reply} (hinside : x.BodyInside)
    (h : thread.AsksFor x reply) (h' : thread.AsksFor x reply') : reply' = reply := by
  cases thread with
  | main => exact Eq.trans h' (Eq.symm h)
  | worker w => exact Exchange.AsksFor.unique hinside h' h

theorem Countable.earlier {W : Type} [DecidableEq W] {earlier later : List (CallEvent W)}
    (h : Countable (earlier ++ later)) : Countable earlier where
  texts call hcall := h.texts call (by
    rw [lockOrder_append]
    exact List.mem_append_left _ hcall)
  inserts := by
    have hinserts := h.inserts
    rw [lockOrder_append, List.countP_append] at hinserts
    omega

/-- A client whose query came through has the answer to its execution. -/
theorem ServiceRun.query_delivered (h : ServiceRun options spurious t s)
    (hclosing : s.server.serving (.worker w) = some (c, .ret ()))
    (hsends : SendsQuery query (s.exchange (.worker w)).received) (hquery : query.length ≤ 1023) :
    ∃ execution rows, (s.exchange (.worker w)).executed = some ⟨query, execution, rows⟩ ∧
      Received (.answer (apiExecutionAnswer rows execution)) (s.exchange (.worker w)).complete
        (s.exchange (.worker w)).sent := by
  obtain ⟨reply, hasks, hdelivers⟩ := h.delivered hclosing
  have hanswer := Exchange.AsksFor.answered hasks hsends hquery
  obtain ⟨execution, rows, hexecuted, rfl⟩ := Exchange.answer_eq_some hanswer
  exact ⟨execution, rows, hexecuted, hdelivers.received⟩

end Clients

end SqlApi.Server

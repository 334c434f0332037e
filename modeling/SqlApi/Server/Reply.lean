import SqlApi.Server.HttpResponse
import SqlApi.Server.Metrics

/-!
# The replies of the server

All that `http_server_handle_client` sends: the health of the server, its metrics, and the answers
to queries and to requests that are refused. A reply is rendered as a message that a client reads
back as its status code and its JSON, and a message that was cut off reads as nothing.

What a client has received is a prefix of the message. The length in the header section tells it
whether something is missing, so a reply is read completely or not at all (`readReply`).
-/

namespace SqlApi.Server

open SqlApi.Lib SqlApi.Core

/-! ## Health and metrics -/

/-- The body of a health response. -/
def apiHealthBody : List UInt8 := bytes "\x7b\"ok\":true,\"status\":\"healthy\"\x7d"

/-- `api_build_health_response` -/
def apiBuildHealthResponse : Prog (Option APIResponse) := apiSetResponseBody 200 apiHealthBody

/-- The text of a metrics response; the counters are printed as `unsigned long`. -/
def apiMetricsText (metrics : DBServerMetrics) : List UInt8 :=
  bytes "\x7b\"ok\":true,\"status\":\"ok\",\"metrics\":\x7b\"totalRequests\":" ++
    decimal metrics.totalRequests.toNat ++
    bytes ",\"totalHealthRequests\":" ++ decimal metrics.totalHealthRequests.toNat ++
    bytes ",\"totalMetricsRequests\":" ++ decimal metrics.totalMetricsRequests.toNat ++
    bytes ",\"totalQueryRequests\":" ++ decimal metrics.totalQueryRequests.toNat ++
    bytes ",\"totalSelectRequests\":" ++ decimal metrics.totalSelectRequests.toNat ++
    bytes ",\"totalInsertRequests\":" ++ decimal metrics.totalInsertRequests.toNat ++
    bytes ",\"totalErrors\":" ++ decimal metrics.totalErrors.toNat ++
    bytes ",\"totalSyntaxErrors\":" ++ decimal metrics.totalSyntaxErrors.toNat ++
    bytes ",\"totalQueryErrors\":" ++ decimal metrics.totalQueryErrors.toNat ++
    bytes ",\"totalInternalErrors\":" ++ decimal metrics.totalInternalErrors.toNat ++
    bytes ",\"totalNotFoundResults\":" ++ decimal metrics.totalNotFoundResults.toNat ++
    bytes ",\"totalQueueFull\":" ++ decimal metrics.totalQueueFull.toNat ++
    bytes ",\"totalLockTimeouts\":" ++ decimal metrics.totalLockTimeouts.toNat ++
    bytes ",\"activeQueryRequests\":" ++ decimal metrics.activeQueryRequests.toNat ++
    bytes "\x7d\x7d"

/-- `api_build_metrics_response` -/
def apiBuildMetricsResponse (metrics : DBServerMetrics) : Prog (Option APIResponse) :=
  apiSetResponseBody 200 (snprintf 1024 (apiMetricsText metrics))

/-! ## Sending -/

/-- What `send` answers. -/
inductive SendResult where
  | error
  | sent (count : Nat)

/-- `(int)(length - offset)`, as the `size_t` that `send` takes it for. -/
def sendSize (left : List UInt8) : Nat := (wrapInt left.length % 2 ^ 64).toNat

/-- The loop of `http_server_socket_send_all` on what is left to send: its return value, and what
went out. `none` means that `send` does not answer, is told to read past the buffer, or answers
what it cannot: nothing at all, or more than it was given. -/
def httpServerSocketSendAll : List SendResult → (left : List UInt8) → Option (Bool × List UInt8)
  | sends, left =>
    if left = [] then some (true, [])
    else
      match sends with
      | [] => none
      -- an error or a closed connection ends the sending
      | .error :: _ => some (false, [])
      | .sent count :: sends =>
        -- no such answer of send: at least one byte, and no more than was asked for
        if left.length < sendSize left ∨ count = 0 ∨ sendSize left < count then none
        else (httpServerSocketSendAll sends (left.drop count)).map fun result =>
          (result.1, left.take count ++ result.2)

/-- `http_server_send_response`: its return value, and what went out. -/
def httpServerSendResponse (sends : List SendResult) (response : APIResponse) :
    Prog (Option (Bool × List UInt8)) := do
  match ← apiRenderHttpResponse response with
  | none => pure (some (false, []))
  | some rawResponse => pure (httpServerSocketSendAll sends (cstr rawResponse))

/-! ## What a reply says -/

/-- What the server has to say. -/
inductive Reply where
  | health
  | metrics (metrics : DBServerMetrics)
  | answer (answer : APIAnswer)

/-- The counters and what they are called. -/
def DBServerMetrics.fields (metrics : DBServerMetrics) : List (String × UInt64) :=
  [("totalRequests", metrics.totalRequests),
    ("totalHealthRequests", metrics.totalHealthRequests),
    ("totalMetricsRequests", metrics.totalMetricsRequests),
    ("totalQueryRequests", metrics.totalQueryRequests),
    ("totalSelectRequests", metrics.totalSelectRequests),
    ("totalInsertRequests", metrics.totalInsertRequests),
    ("totalErrors", metrics.totalErrors),
    ("totalSyntaxErrors", metrics.totalSyntaxErrors),
    ("totalQueryErrors", metrics.totalQueryErrors),
    ("totalInternalErrors", metrics.totalInternalErrors),
    ("totalNotFoundResults", metrics.totalNotFoundResults),
    ("totalQueueFull", metrics.totalQueueFull),
    ("totalLockTimeouts", metrics.totalLockTimeouts),
    ("activeQueryRequests", metrics.activeQueryRequests)]

namespace Reply

def statusCode : Reply → Int
  | health | metrics _ => 200
  | answer a => a.statusCode

/-- A reply in JSON. -/
def json : Reply → Json
  | health =>
    .object [(bytes "ok", .bool true), (bytes "status", .string (bytes "healthy"))]
  | metrics m =>
    .object [(bytes "ok", .bool true), (bytes "status", .string (bytes "ok")),
      (bytes "metrics", .object (m.fields.map fun field =>
        (bytes field.1, .number field.2.toNat 0)))]
  | answer a => a.json

/-- The body of a reply. -/
def text : Reply → List UInt8
  | health => apiHealthBody
  | metrics m => apiMetricsText m
  | answer a => a.text

/-- The response that tells a reply. -/
def response (reply : Reply) : APIResponse := ⟨reply.statusCode, apiContentType, reply.text⟩

/-- The values in a reply are ones that the code has. -/
def Typed : Reply → Prop
  | health | metrics _ => True
  | answer a => a.Typed

end Reply

/-! ## The bodies -/

section Bodies

variable {m : Memory} {reply : Reply}

private theorem plain_word :
    ∀ word ∈ ["ok", "status", "healthy", "metrics"], PlainText (bytes word) := by
  unfold PlainText
  decide

private theorem plain_counters (metrics : DBServerMetrics) :
    ∀ field ∈ metrics.fields, PlainText (bytes field.1) := by
  have hall : ∀ name ∈ metrics.fields.map Prod.fst, PlainText (bytes name) := by
    show ∀ name ∈ ["totalRequests", "totalHealthRequests", "totalMetricsRequests",
      "totalQueryRequests", "totalSelectRequests", "totalInsertRequests", "totalErrors",
      "totalSyntaxErrors", "totalQueryErrors", "totalInternalErrors", "totalNotFoundResults",
      "totalQueueFull", "totalLockTimeouts", "activeQueryRequests"], PlainText (bytes name)
    unfold PlainText
    decide
  exact fun field hfield => hall _ (List.mem_map_of_mem hfield)

/-- The members of the inner object of a metrics response. -/
private def counterMembers (metrics : DBServerMetrics) :
    List (List UInt8 × Json × List UInt8) :=
  metrics.fields.map fun field =>
    (bytes field.1, .number field.2.toNat 0, decimal field.2.toNat)

private theorem reads_counters (metrics : DBServerMetrics) :
    Reads (.object (metrics.fields.map fun field => (bytes field.1, .number field.2.toNat 0)))
      (objectText (counterMembers metrics)) := by
  have hread := @reads_members (counterMembers metrics) ?_ ?_
  · rwa [counterMembers, List.map_map] at hread
  · intro member hmember
    obtain ⟨field, hfield, rfl⟩ := List.mem_map.mp hmember
    exact plain_counters metrics field hfield
  · intro member hmember
    obtain ⟨field, hfield, rfl⟩ := List.mem_map.mp hmember
    exact reads_decimal _

/-- The members of a metrics response. -/
private def metricsMembers (metrics : DBServerMetrics) :
    List (List UInt8 × Json × List UInt8) :=
  [(bytes "ok", .bool true, bytes "true"),
    (bytes "status", .string (bytes "ok"), 34 :: (bytes "ok" ++ [34])),
    (bytes "metrics",
      .object (metrics.fields.map fun field => (bytes field.1, .number field.2.toNat 0)),
      objectText (counterMembers metrics))]

set_option maxRecDepth 4000 in
/-- The text of the metrics is that of an object. -/
private theorem apiMetricsText_eq (metrics : DBServerMetrics) :
    apiMetricsText metrics = objectText (metricsMembers metrics) := by
  unfold apiMetricsText metricsMembers counterMembers DBServerMetrics.fields objectText
    jsonMemberText
  simp only [List.append_assoc, List.map_cons, List.map_nil, List.intercalate_cons_cons,
    List.intercalate_singleton, List.cons_append, List.nil_append]
  rfl

/-- The members of a health response. -/
private def healthMembers : List (List UInt8 × Json × List UInt8) :=
  [(bytes "ok", .bool true, bytes "true"),
    (bytes "status", .string (bytes "healthy"), 34 :: (bytes "healthy" ++ [34]))]

theorem reads_health : Reads Reply.health.json apiHealthBody := by
  have htext : apiHealthBody = objectText healthMembers := rfl
  rw [htext]
  refine @reads_members healthMembers ?_ ?_
  · simp [healthMembers, plain_word]
  · simp [healthMembers, reads_true, reads_plain (plain_word "healthy" (by decide))]

theorem reads_metrics (metrics : DBServerMetrics) :
    Reads (Reply.metrics metrics).json (apiMetricsText metrics) := by
  rw [apiMetricsText_eq]
  refine @reads_members (metricsMembers metrics) ?_ ?_
  · simp [metricsMembers, plain_word]
  · simp [metricsMembers, reads_true, reads_plain (plain_word "ok" (by decide)), reads_counters]

/-- The body of a reply is read as its JSON. -/
theorem Reply.Typed.reads (h : reply.Typed) : Reads reply.json reply.text := by
  cases reply with
  | health => exact reads_health
  | metrics metrics => exact reads_metrics metrics
  | answer answer => exact APIAnswer.reads (APIAnswer.Typed.plainType h)

/-- There is no terminator in it. -/
theorem Reply.Typed.zero_notMem_text (h : reply.Typed) : 0 ∉ reply.text := by
  cases reply with
  | health =>
    show 0 ∉ apiHealthBody
    decide
  | metrics metrics =>
    have hdecimal (n : Nat) : 0 ∉ decimal n := notMem_decimal (by decide) n
    show 0 ∉ apiMetricsText metrics
    unfold apiMetricsText
    simp only [List.mem_append, not_or, hdecimal, not_false_eq_true, and_true]
    decide
  | answer answer => exact APIAnswer.Typed.zero_notMem_text h

theorem Reply.Typed.isInt_statusCode (h : reply.Typed) : IsInt reply.statusCode := by
  cases reply with
  | health | metrics _ =>
    show IsInt 200
    unfold IsInt
    decide
  | answer answer => exact APIAnswer.Typed.isInt_statusCode h

/-! ### Building them -/

theorem run_apiBuildHealthResponse (hok : m.NoFailure) :
    apiBuildHealthResponse.run m = some (some Reply.health.response, m) :=
  run_apiSetResponseBody hok 200 _

/-- Each counter has up to twenty digits, so that the text of the metrics always fits. -/
theorem length_apiMetricsText (metrics : DBServerMetrics) :
    (apiMetricsText metrics).length < 1024 := by
  have hcounter (n : UInt64) : (decimal n.toNat).length ≤ 20 := by
    have hlength := length_decimal_le (n := (n.toNat : Int)) (k := 20) (by decide)
      (by have := n.toNat_lt; omega)
    rwa [if_neg (by omega)] at hlength
  have h₁ := hcounter metrics.totalRequests
  have h₂ := hcounter metrics.totalHealthRequests
  have h₃ := hcounter metrics.totalMetricsRequests
  have h₄ := hcounter metrics.totalQueryRequests
  have h₅ := hcounter metrics.totalSelectRequests
  have h₆ := hcounter metrics.totalInsertRequests
  have h₇ := hcounter metrics.totalErrors
  have h₈ := hcounter metrics.totalSyntaxErrors
  have h₉ := hcounter metrics.totalQueryErrors
  have h₁₀ := hcounter metrics.totalInternalErrors
  have h₁₁ := hcounter metrics.totalNotFoundResults
  have h₁₂ := hcounter metrics.totalQueueFull
  have h₁₃ := hcounter metrics.totalLockTimeouts
  have h₁₄ := hcounter metrics.activeQueryRequests
  -- fourteen counters of at most twenty digits, and the labels, are below 1024 bytes
  have hlabels : (bytes "\x7b\"ok\":true,\"status\":\"ok\",\"metrics\":\x7b\"totalRequests\":").length =
        52 ∧
      (bytes ",\"totalHealthRequests\":").length = 23 ∧
      (bytes ",\"totalMetricsRequests\":").length = 24 ∧
      (bytes ",\"totalQueryRequests\":").length = 22 ∧
      (bytes ",\"totalSelectRequests\":").length = 23 ∧
      (bytes ",\"totalInsertRequests\":").length = 23 ∧
      (bytes ",\"totalErrors\":").length = 15 ∧
      (bytes ",\"totalSyntaxErrors\":").length = 21 ∧
      (bytes ",\"totalQueryErrors\":").length = 20 ∧
      (bytes ",\"totalInternalErrors\":").length = 23 ∧
      (bytes ",\"totalNotFoundResults\":").length = 24 ∧
      (bytes ",\"totalQueueFull\":").length = 18 ∧
      (bytes ",\"totalLockTimeouts\":").length = 21 ∧
      (bytes ",\"activeQueryRequests\":").length = 23 ∧
      (bytes "\x7d\x7d").length = 2 := by decide
  unfold apiMetricsText
  simp only [List.length_append]
  omega

theorem run_apiBuildMetricsResponse (hok : m.NoFailure) (metrics : DBServerMetrics) :
    (apiBuildMetricsResponse metrics).run m = some (some (Reply.metrics metrics).response, m) := by
  unfold apiBuildMetricsResponse
  rw [run_apiSetResponseBody hok, snprintf_of_fits (length_apiMetricsText metrics)]
  rfl

end Bodies

/-! ## What a client reads -/

/-- What a client makes of the bytes it received: the status code and the JSON of the body, when
the body is as long as the header section says. -/
def readReply (received : List UInt8) : Option (Int × Json) := do
  let headerEnd ← strstr received crlfCrlf
  if bytes "HTTP/1.1 " <+: received ∧
      contentLengths received = [received.length - (headerEnd + 4)] then
    let json ← jsonDecode (received.drop (headerEnd + 4))
    pure ((strtol (received.drop 9)).1, json)
  else none

section Read

variable {reply : Reply} {m : Memory}

/-- The message of a reply. -/
def Reply.message (reply : Reply) : List UInt8 := apiHttpText reply.response

/-- Its parts: the body may be cut off or replaced without a change to what stands before it. -/
private def replyWith (reply : Reply) (body : List UInt8) : List UInt8 :=
  httpMessage (responseStart reply.statusCode) (responseLines apiContentType reply.text.length) body

private theorem Reply.Typed.message_eq (h : reply.Typed) :
    reply.message = replyWith reply reply.text := by
  have hself : cstr reply.text = reply.text := cstr_eq_self h.zero_notMem_text
  unfold Reply.message replyWith
  rw [apiHttpText_eq]
  unfold Reply.response
  dsimp only
  rw [hself]

/-- Where its header section ends. -/
private def replyHeaderEnd (reply : Reply) : Nat :=
  (responseStart reply.statusCode).length +
    (joinLines (responseLines apiContentType reply.text.length)).length

private theorem replyWith_append (reply : Reply) (body : List UInt8) :
    replyWith reply body = replyWith reply [] ++ body := by
  unfold replyWith httpMessage
  rw [List.append_nil]

private theorem length_replyWith (reply : Reply) (body : List UInt8) :
    (replyWith reply body).length = replyHeaderEnd reply + 4 + body.length :=
  length_httpMessage _ _ _

/-- What the header section says does not depend on the body that follows it. -/
private theorem replyWith_search (hlength : reply.text.length < 2 ^ 64) (body : List UInt8) :
    strstr (replyWith reply body) crlfCrlf = some (replyHeaderEnd reply) ∧
      (replyWith reply body).drop (replyHeaderEnd reply + 4) = body ∧
      contentLengths (replyWith reply body) = [reply.text.length] := by
  have hlines := responseLines_oneContentLength hlength
  have hstart := responseStart_line reply.statusCode
  exact ⟨(httpMessage_search hstart (fun l hl => (hlines.header l hl).1) _).2,
    drop_httpMessage_body _ _ _, hlines.contentLengths hstart _⟩

/-- The status code stands after the version. -/
private theorem strtol_replyWith (hstatus : IsInt reply.statusCode) (body : List UInt8) :
    bytes "HTTP/1.1 " <+: replyWith reply body ∧
      (strtol ((replyWith reply body).drop 9)).1 = reply.statusCode := by
  obtain ⟨rest, hrest⟩ : ∃ rest, replyWith reply body =
      bytes "HTTP/1.1 " ++ (decimal reply.statusCode ++ 32 :: rest) := by
    refine ⟨apiReasonPhrase reply.statusCode ++ (crlf ++
      (joinLines (responseLines apiContentType reply.text.length) ++ (crlf ++ body))), ?_⟩
    have hspace : bytes " " = [32] := rfl
    unfold replyWith httpMessage responseStart
    rw [hspace]
    simp only [List.append_assoc, List.cons_append, List.nil_append]
  obtain ⟨hmin, hmax⟩ := hstatus
  have hnine : (bytes "HTTP/1.1 ").length = 9 := rfl
  rw [hrest, List.drop_left' hnine, strtol_of_isDecimal (isDecimal_decimal _) rfl]
  refine ⟨List.prefix_append _ _, ?_⟩
  dsimp only
  omega

/-- The whole message is read as the reply. -/
theorem Reply.Typed.readReply_message (h : reply.Typed) (hlength : reply.text.length < 2 ^ 64) :
    readReply reply.message = some (reply.statusCode, reply.json) := by
  obtain ⟨hend, hdrop, hlengths⟩ := replyWith_search hlength reply.text
  obtain ⟨hversion, hstatus⟩ := strtol_replyWith h.isInt_statusCode reply.text
  have hcount : (replyWith reply reply.text).length - (replyHeaderEnd reply + 4) =
      reply.text.length := by
    rw [length_replyWith, Nat.add_sub_cancel_left]
  unfold readReply
  rw [h.message_eq, hend]
  simp only [Option.bind_eq_bind, Option.bind_some]
  rw [if_pos ⟨hversion, by rw [hcount, hlengths]⟩, hdrop, h.reads.decode]
  simp only [Option.bind_some, hstatus]
  rfl

/-- A message that was cut off is read as nothing. -/
theorem Reply.Typed.readReply_cut (h : reply.Typed) (hlength : reply.text.length < 2 ^ 64)
    {received : List UInt8} (hbegins : received <+: reply.message) (hcut : received ≠ reply.message) :
    readReply received = none := by
  rw [h.message_eq] at hbegins hcut
  unfold readReply
  cases hend : strstr received crlfCrlf with
  | none => rfl
  | some headerEnd =>
    -- the header section is there, so it is the body that is cut off
    obtain ⟨missing, hmissing⟩ := hbegins
    have hsame : headerEnd = replyHeaderEnd reply := by
      have happend := strstr_append hend missing
      rw [hmissing, (replyWith_search hlength _).1] at happend
      exact (Option.some.inj happend).symm
    have hroom : headerEnd + 4 ≤ received.length := strstr_le hend
    have hhead : replyWith reply [] <+: received := by
      refine List.prefix_of_prefix_length_le ⟨reply.text, (replyWith_append ..).symm⟩
        ⟨missing, hmissing⟩ ?_
      rw [length_replyWith, List.length_nil]
      omega
    obtain ⟨body, rfl⟩ := hhead
    rw [← replyWith_append] at hmissing hcut ⊢
    have hshort : body.length ≠ reply.text.length := by
      intro heq
      have htotal := congrArg List.length hmissing
      rw [List.length_append, length_replyWith, length_replyWith, heq] at htotal
      have hnil : missing = [] := List.eq_nil_of_length_eq_zero (by omega)
      rw [hnil, List.append_nil] at hmissing
      exact hcut hmissing
    have hcount : (replyWith reply body).length - (headerEnd + 4) = body.length := by
      rw [length_replyWith, hsame, Nat.add_sub_cancel_left]
    simp only [Option.bind_eq_bind, Option.bind_some]
    rw [if_neg]
    rintro ⟨-, hlengths⟩
    rw [hcount, (replyWith_search hlength body).2.2, List.cons.injEq] at hlengths
    exact hshort hlengths.1.symm

/-! ## What is sent -/

/-- Whatever `send` takes at a time, what went out is a prefix, and all of it if and only if the
return value is 1. -/
theorem httpServerSocketSendAll_prefix {sends : List SendResult} {left out : List UInt8} {ok : Bool}
    (h : httpServerSocketSendAll sends left = some (ok, out)) :
    out <+: left ∧ (ok = true ↔ out = left) := by
  -- the induction is on the answers of send: each one moves the sent prefix
  induction sends generalizing left out with
  | nil =>
    unfold httpServerSocketSendAll at h
    split at h
    · next hnil =>
      obtain ⟨rfl, rfl⟩ := Prod.mk.inj (Option.some.inj h)
      exact ⟨List.nil_prefix, iff_of_true rfl hnil.symm⟩
    · cases h
  | cons result sends ih =>
    unfold httpServerSocketSendAll at h
    split at h
    · next hnil =>
      obtain ⟨rfl, rfl⟩ := Prod.mk.inj (Option.some.inj h)
      exact ⟨List.nil_prefix, iff_of_true rfl hnil.symm⟩
    · next hleft =>
      cases result with
      | error =>
        obtain ⟨rfl, rfl⟩ := Prod.mk.inj (Option.some.inj h)
        exact ⟨List.nil_prefix, iff_of_false (by decide) fun heq => hleft heq.symm⟩
      | sent count =>
        dsimp only at h
        split at h
        · cases h
        · obtain ⟨⟨ok', out'⟩, hrest, heq⟩ := Option.map_eq_some_iff.mp h
          obtain ⟨rfl, rfl⟩ := Prod.mk.inj heq
          obtain ⟨hbegins, hall⟩ := ih hrest
          have hsplit : left.take count ++ left.drop count = left := List.take_append_drop ..
          have hgrown : left.take count ++ out' <+: left.take count ++ left.drop count :=
            (List.prefix_append_right_inj _).mpr hbegins
          rw [hsplit] at hgrown
          refine ⟨hgrown, hall.trans ⟨fun heq => ?_, fun heq => ?_⟩⟩
          · rw [heq, hsplit]
          · exact List.append_cancel_left (heq.trans hsplit.symm)

/-- A peer that takes all at once. -/
theorem httpServerSocketSendAll_once {left : List UInt8} (hsize : left.length < 2 ^ 31) :
    httpServerSocketSendAll [.sent left.length] left = some (true, left) := by
  rw [httpServerSocketSendAll]
  split
  · next hnil => rw [hnil]
  · next hne =>
    have hpos := List.length_pos_of_ne_nil hne
    have hself : sendSize left = left.length := by
      unfold sendSize
      rw [wrapInt_eq_self (by omega) (by omega)]
      omega
    rw [hself, if_neg (by omega), List.drop_length, httpServerSocketSendAll, if_pos rfl,
      Option.map_some, List.take_length, List.append_nil]

/-- There is no terminator in a message. -/
theorem Reply.Typed.zero_notMem_message (h : reply.Typed) (hlength : reply.text.length < 2 ^ 64) :
    0 ∉ reply.message := by
  have hlines := responseLines_oneContentLength hlength
  have hjoined : 0 ∉ joinLines (responseLines apiContentType reply.text.length) := by
    intro hzero
    obtain ⟨line, hline, hmem⟩ := List.mem_flatMap.mp hzero
    rcases List.mem_append.mp hmem with hmem | hmem
    · exact (hlines.header line hline).1.2.1 hmem
    · revert hmem
      decide
  rw [h.message_eq]
  unfold replyWith httpMessage
  simp only [List.mem_append, not_or]
  exact ⟨⟨⟨⟨(responseStart_line _).1, by decide⟩, hjoined⟩, by decide⟩, h.zero_notMem_text⟩

theorem Reply.Typed.length_text_lt (h : reply.Typed) (hsize : reply.message.length < 2 ^ 31) :
    reply.text.length < 2 ^ 64 := by
  rw [h.message_eq, length_replyWith] at hsize
  omega

/-- A reply is sent as its message, or not at all when the message is too long for `snprintf`. -/
theorem Reply.Typed.run_httpServerSendResponse (h : reply.Typed) (hok : m.NoFailure)
    (sends : List SendResult) :
    (httpServerSendResponse sends reply.response).run m =
      some (if reply.message.length < 2 ^ 31 then httpServerSocketSendAll sends reply.message
        else some (false, []), m) := by
  unfold httpServerSendResponse
  split
  · next hsize =>
    have hstatus : IsInt reply.response.statusCode := h.isInt_statusCode
    obtain ⟨hrender, -⟩ := run_apiRenderHttpResponse hok hstatus rfl h.zero_notMem_text hsize
    have hself : cstr reply.message = reply.message :=
      cstr_eq_self (h.zero_notMem_message (h.length_text_lt hsize))
    rw [run_bind_of hrender]
    change some (httpServerSocketSendAll sends (cstr reply.message), m) = _
    rw [hself]
  · -- snprintf cannot return such a length, and the response is not sent
    next hsize =>
    have hrender : (apiRenderHttpResponse reply.response).run m = some (none, m) := by
      have hreturn : snprintfReturn (apiHttpText reply.response) = -1 := if_neg hsize
      unfold apiRenderHttpResponse
      rw [run_bind_of (run_malloc_of hok)]
      dsimp only
      rw [if_pos rfl, hreturn, if_pos (.inl (by decide))]
      rfl
    rw [run_bind_of hrender]
    rfl

/-- A client is never misled: whatever `send` takes at a time and wherever it fails, what went
out is read as the reply when `http_server_send_response` returns 1, and as nothing otherwise. -/
theorem httpServerSendResponse_received (h : reply.Typed) (hok : m.NoFailure)
    {sends : List SendResult} {ok : Bool} {out : List UInt8} {m' : Memory}
    (hrun : (httpServerSendResponse sends reply.response).run m = some (some (ok, out), m')) :
    m' = m ∧ out <+: reply.message ∧
      readReply out = if ok then some (reply.statusCode, reply.json) else none := by
  rw [h.run_httpServerSendResponse hok] at hrun
  obtain ⟨hsent, rfl⟩ := Prod.mk.inj (Option.some.inj hrun)
  refine ⟨rfl, ?_⟩
  split at hsent
  · next hsize =>
    have hlength := h.length_text_lt hsize
    obtain ⟨hbegins, hall⟩ := httpServerSocketSendAll_prefix hsent
    refine ⟨hbegins, ?_⟩
    cases ok with
    | true => rw [hall.mp rfl, if_pos rfl, h.readReply_message hlength]
    | false =>
      have hcut : out ≠ reply.message := fun heq => Bool.false_ne_true (hall.mpr heq)
      rw [if_neg Bool.false_ne_true, h.readReply_cut hlength hbegins hcut]
  · obtain ⟨rfl, rfl⟩ := Prod.mk.inj (Option.some.inj hsent)
    exact ⟨List.nil_prefix, rfl⟩

end Read

end SqlApi.Server

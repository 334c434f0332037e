import SqlApi.Server.APIAnswer

/-!
# The response to an execution

Whatever `db_server_execute` returns, a client that reads the message as HTTP and its body as JSON
gets back the rows of the result, the id of the new row, or the error.

`Answers` relates an execution to the rows that its records point at; every execution that
`db_server_execute` returns has one. The response is then the one of `APIAnswer`.
-/

namespace SqlApi.Server

open SqlApi.Lib SqlApi.Core

/-! ## Executions -/

/-- What is known of an execution and the memory it leaves: the rows of its result, whose number
it tells, and an answer of values that the code has. -/
structure Answers (m : Memory) (execution : DBServerExecution) (rows : List Row) : Prop where
  rowsAt : m.rowsAt execution.result.records = some rows
  rowCount : execution.result.action = .selectRows → execution.result.rowCount = rows.length
  typed : (apiExecutionAnswer rows execution).Typed
  select : ∀ usedIndex rows', apiExecutionAnswer rows execution = .select usedIndex rows' →
    (apiBuildSelectResponse execution).run m = some (some (apiSelectResponse usedIndex rows'), m)

section Execution

variable {m : Memory} {rows : Rows} {execution : DBServerExecution}

private theorem length_snprintf_le (size : Nat) (text : List UInt8) :
    (snprintf size text).length ≤ size - 1 := List.length_take_le _ _

private theorem length_cstr_le (s : List UInt8) : (cstr s).length ≤ s.length :=
  (List.takeWhile_prefix _).length_le

/-- An error of which the status, the type and the message are such values. -/
theorem typed_error {statusCode : Int} {errorType message : List UInt8}
    (hstatus : IsInt statusCode) (htype : PlainText errorType ∧ errorType.length ≤ 32)
    (hmessage : 0 ∉ message ∧ message.length ≤ 255) :
    (APIAnswer.error statusCode errorType message).Typed where
  error := by
    intro statusCode' errorType' message' h
    cases h
    exact ⟨hstatus, htype.1, htype.2, hmessage.1, hmessage.2⟩
  insert := nofun
  select := nofun

/-- An answer that is an error, to an execution without rows. -/
private theorem answers_of_error {statusCode : Int} {errorType message : List UInt8}
    (hrecords : execution.result.records = [] ∧ execution.result.rowCount = 0)
    (hanswer : apiExecutionAnswer [] execution = .error statusCode errorType message)
    (htyped : (APIAnswer.error statusCode errorType message).Typed) : Answers m execution [] where
  rowsAt := by
    rw [hrecords.1]
    rfl
  rowCount := fun _ => hrecords.2
  typed := hanswer ▸ htyped
  select := by
    intro usedIndex rows' h
    rw [hanswer] at h
    cases h

private theorem cstr_message {message : List UInt8} (hmessage : message.length ≤ 255) :
    0 ∉ cstr message ∧ (cstr message).length ≤ 255 :=
  ⟨zero_notMem_cstr _, (length_cstr_le _).trans hmessage⟩

theorem isInt_status :
    IsInt 200 ∧ IsInt 400 ∧ IsInt 500 ∧ IsInt 503 := by
  unfold IsInt
  decide

/-- The types of errors. -/
private theorem plain_errorTypes :
    ∀ errorType ∈ [bytes "lock_timeout", bytes "syntax_error", bytes "query_error",
      bytes "internal_error"], PlainText errorType ∧ errorType.length ≤ 32 := by
  unfold PlainText
  decide

/-- A timeout. -/
theorem answers_of_timeout (m : Memory) (query : Cursor) :
    Answers m (dbServerTimeout (dbServerBegin query)) [] := by
  refine answers_of_error ⟨rfl, rfl⟩ rfl (typed_error isInt_status.2.2.2 ?_ (cstr_message ?_))
  · exact plain_errorTypes _ (by decide)
  · exact (length_snprintf_le _ _).trans (by decide)

/-- A message of the parser fits into its array. -/
private theorem length_errorMessage_le {result : SQLResult} (h : SqlError result) :
    result.errorMessage.length ≤ 255 := by
  -- every message is written by snprintf into 256 bytes
  have hlength (text : List UInt8) : (snprintf sqlErrorMessageSize text).length ≤ 255 :=
    length_snprintf_le _ _
  cases h with
  | syntaxError cursor =>
    rw [sqlSetSyntaxError]
    apply hlength
  | unknownColumn column clauseName =>
    rw [sqlSetUnknownColumnError]
    apply hlength

/-- A text without a statement. -/
private theorem answers_of_sqlParse {query : Cursor} {result : SQLResult} (m : Memory)
    (hparse : sqlParse query = .error result) :
    Answers m (dbServerDone (dbServerBegin query) result) [] := by
  -- EXIT and QUIT have a text of their own; every other error has a message
  rcases sqlParse_eq_error hparse with rfl | hsql
  · refine answers_of_error ⟨rfl, rfl⟩ rfl (typed_error isInt_status.2.1 ?_ (by decide))
    exact plain_errorTypes _ (by decide)
  · have hmessage := cstr_message (length_errorMessage_le hsql)
    cases hsql with
    | syntaxError cursor =>
      refine answers_of_error ⟨rfl, rfl⟩ rfl (typed_error isInt_status.2.1 ?_ hmessage)
      exact plain_errorTypes _ (by decide)
    | unknownColumn column clauseName =>
      refine answers_of_error ⟨rfl, rfl⟩ rfl (typed_error isInt_status.2.1 ?_ hmessage)
      exact plain_errorTypes _ (by decide)

/-- An INSERT into a table that has no room. -/
private theorem answers_of_full (m : Memory) (query : Cursor) :
    Answers m (dbServerDone (dbServerBegin query) { sqlNoResult with status := .error }) [] := by
  have hmessage : 0 ∉ bytes "Internal execution error" ∧
      (bytes "Internal execution error").length ≤ 255 := by decide
  refine answers_of_error ⟨rfl, rfl⟩ rfl (typed_error isInt_status.2.2.1 ?_ hmessage)
  exact plain_errorTypes _ (by decide)

/-- An INSERT that appended its row. -/
private theorem answers_of_insert (m : Memory) (query : Cursor) (record : RecPtr) {id : Int}
    (hid : IsInt id) :
    Answers m (dbServerDone (dbServerBegin query) (sqlInserted record id)) [] where
  rowsAt := rfl
  rowCount := nofun
  typed :=
    { error := nofun
      insert := by
        intro insertedId h
        cases h
        exact hid
      select := nofun }
  select := nofun

/-- The answer to a SELECT that was executed. -/
theorem apiExecutionAnswer_select (found : Rows) (query : Cursor) (select : SqlSelect) :
    apiExecutionAnswer found.contents (dbServerDone (dbServerBegin query)
      (sqlSelectResult select.emptyStatus (some (found.map Prod.fst)))) =
        .select (dbServerBegin query).usedIndex found.contents := by
  have hstatus := status_of_sqlSelectResult select (found.map Prod.fst)
  unfold apiExecutionAnswer
  rw [if_neg (by simp [dbServerDone])]
  dsimp only [dbServerDone]
  -- OK and NOT_FOUND are answered alike
  rcases hstatus with h | h <;> rw [h] <;> rfl

/-- A SELECT. -/
private theorem answers_of_select (hm : HoldsRows m rows) (hok : m.NoFailure) (ht : m.Typed)
    {found : Rows} (hfound : found ⊆ rows) (hbound : found.length ≤ 2 ^ 32) (query : Cursor)
    (select : SqlSelect) :
    Answers m (dbServerDone (dbServerBegin query)
      (sqlSelectResult select.emptyStatus (some (found.map Prod.fst)))) found.contents := by
  have hanswer := apiExecutionAnswer_select found query select
  -- the count and the array of the result agree
  have hcount : (found.map Prod.fst).length = found.contents.length := by
    rw [Rows.contents, List.length_map, List.length_map]
  refine ⟨hm.rowsAt hfound, fun _ => hcount, ?_, ?_⟩
  · rw [hanswer]
    refine ⟨fun _ _ _ h => (by cases h), fun _ h => (by cases h), ?_⟩
    intro usedIndex rows' h
    cases h
    refine ⟨hcount ▸ (List.length_map _).trans_le hbound, fun row hrow => ?_⟩
    obtain ⟨pair, -, rfl⟩ := List.mem_map.mp hrow
    exact ⟨hm.typed_contents ht hfound _ hrow, zero_notMem_cstr _⟩
  · rw [hanswer]
    intro usedIndex rows' h
    cases h
    exact run_apiBuildSelectResponse hm hok ht hfound hbound rfl (List.length_map _)

/-- Every execution has an answer. -/
theorem dbServerExecute_answers {server : DBServer} (hserver : server.Reachable) (granted : Bool)
    (query : Cursor) :
    ∃ execution server' rows, dbServerExecute granted query server = some (execution, server') ∧
      server'.memory.NoFailure ∧ Answers server'.memory execution rows := by
  obtain ⟨hok, rows, hm, hn⟩ := hserver.inv
  cases hlock : dbServerTryAcquireLock (dbServerClassifyQuery query) granted with
  | false =>
    obtain ⟨metrics, hexecute⟩ := dbServerExecute_of_timeout server hlock
    exact ⟨_, _, [], hexecute, hok, answers_of_timeout _ query⟩
  | true =>
    obtain ⟨result, m', hrun, houtcome⟩ := run_sqlExecute hm hn hok query
    obtain ⟨metrics, hexecute⟩ := dbServerExecute_of_lock hlock hrun
    have hok' : m'.NoFailure := hok.run hrun
    -- one case per outcome of the statement
    cases houtcome with
    | error hparse hsame => exact ⟨_, _, [], hexecute, hok', answers_of_sqlParse m' hparse⟩
    | select select found hparse hfound hresult hsame =>
      subst hsame hresult
      have hbound := length_found_le hm hn hok hrun
      exact ⟨_, _, found.contents, hexecute, hok,
        answers_of_select hm.toHoldsRows hok hserver.typed hfound hbound query select⟩
    | insert name age record hparse hresult hm' hn' =>
      subst hresult
      exact ⟨_, _, [], hexecute, hok', answers_of_insert m' query record (isInt_wrapInt _)⟩
    | full name age hparse hfull hresult hm' hn' =>
      subst hresult
      exact ⟨_, _, [], hexecute, hok', answers_of_full m' query⟩

end Execution

/-! ## The response is complete -/

theorem APIAnswer.Typed.isInt_statusCode {answer : APIAnswer} (h : answer.Typed) :
    IsInt answer.statusCode := by
  cases answer with
  | error statusCode errorType message => exact (h.error _ _ _ rfl).1
  | insert insertedId => exact isInt_status.1
  | select usedIndex rows => exact isInt_status.1

/-- A response that tells what an execution has to say: its body is written completely, and
decodes to the answer. -/
structure Complete (rows : List Row) (execution : DBServerExecution) (response : APIResponse) :
    Prop where
  statusCode : response.statusCode = (apiExecutionAnswer rows execution).statusCode
  contentType : response.contentType = apiContentType
  fits : ∀ call ∈ (apiExecutionAnswer rows execution).calls, call.Fits
  body : response.body = (apiExecutionAnswer rows execution).text
  json : jsonDecode response.body = some (apiExecutionAnswer rows execution).json
  rowCount : execution.result.action = .selectRows → execution.result.rowCount = rows.length

/-- The response to every execution is complete: on every server that queries lead to, for every
query and whether or not it gets its lock, `db_server_execute` returns, the response tells the
rows of its result, the id or the error, and is rendered completely. -/
theorem apiBuildExecutionResponse_complete {server : DBServer} (hserver : server.Reachable)
    (granted : Bool) (query : Cursor) :
    ∃ execution server' rows response,
      dbServerExecute granted query server = some (execution, server') ∧
      server'.memory.rowsAt execution.result.records = some rows ∧
      (apiBuildExecutionResponse execution).run server'.memory =
        some (some response, server'.memory) ∧
      Complete rows execution response ∧
      ((apiHttpText response).length < 2 ^ 31 → ∃ raw,
        (apiRenderHttpResponse response).run server'.memory = some (some raw, server'.memory) ∧
          Rendered response raw) := by
  obtain ⟨execution, server', rows, hexecute, hok, hanswers⟩ :=
    dbServerExecute_answers hserver granted query
  have htyped := hanswers.typed
  refine ⟨execution, server', rows, (apiExecutionAnswer rows execution).response, hexecute,
    hanswers.rowsAt, run_apiBuildExecutionResponse hok htyped hanswers.select, ?_, fun hsize => ?_⟩
  · exact ⟨rfl, rfl, htyped.fits, rfl, (APIAnswer.reads htyped.plainType).decode,
      hanswers.rowCount⟩
  · exact ⟨_, run_apiRenderHttpResponse hok htyped.isInt_statusCode rfl htyped.zero_notMem_text
      hsize⟩

/-- A SELECT that finds a row with a quotation mark in its name. -/
theorem apiBuildExecutionResponse_complete_quoted :
    let insert := bytes "INSERT INTO users VALUES ('A\"n', 30);"
    let select := bytes "SELECT * FROM users"
    ∃ inserted server, dbServerExecute true insert dbServerInit = some (inserted, server) ∧
      ∃ execution server' response raw,
        dbServerExecute true select server = some (execution, server') ∧
        (apiBuildExecutionResponse execution).run server'.memory =
          some (some response, server'.memory) ∧
        Complete [⟨1, bytes "A\"n", 30⟩] execution response ∧
        (apiRenderHttpResponse response).run server'.memory = some (some raw, server'.memory) ∧
        Rendered response raw := by
  intro insert select
  obtain ⟨inserted, server, -, -, hinsert, -⟩ :=
    apiBuildExecutionResponse_complete .init true insert
  obtain ⟨execution, server', rows, response, hselect, hrows, hresponse, hcomplete, hrender⟩ :=
    apiBuildExecutionResponse_complete (.execute _ _ _ .init hinsert) true select
  -- both statements computed once, for the row and for the length of the response
  have hruns : ((dbServerExecute true insert dbServerInit).bind fun done =>
      (dbServerExecute true select done.2).bind fun found =>
        (found.2.memory.rowsAt found.1.result.records).map fun rows =>
          (rows, decide ((apiHttpText (apiExecutionAnswer rows found.1).response).length <
            2 ^ 31))) = some ([⟨1, bytes "A\"n", 30⟩], true) := by decide +kernel
  rw [hinsert, Option.bind_some, hselect, Option.bind_some, hrows, Option.map_some,
    Option.some.injEq, Prod.mk.injEq, decide_eq_true_eq] at hruns
  obtain ⟨rfl, hsize⟩ := hruns
  have hself : response =
      (apiExecutionAnswer [⟨1, bytes "A\"n", 30⟩] execution).response := by
    obtain ⟨statusCode, contentType, body⟩ := response
    rw [APIAnswer.response, ← hcomplete.statusCode, ← hcomplete.body]
    exact congrArg (fun contentType => (⟨_, contentType, _⟩ : APIResponse)) hcomplete.contentType
  obtain ⟨raw, hraw⟩ := hrender (hself ▸ hsize)
  exact ⟨inserted, server, hinsert, execution, server', response, raw, hselect, hresponse,
    hcomplete, hraw⟩

end SqlApi.Server

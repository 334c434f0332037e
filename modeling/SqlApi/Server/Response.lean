import SqlApi.Core.SqlRun
import SqlApi.Server.DBServer

/-!
# `api.c`: the answer to a query

How an execution is told to the client. The texts are built with `snprintf`, so a
text that did not fit would be cut off. Building an answer allocates, and reads the
records of a result, but writes nothing.

`Truthful` has one field for each thing that a client may conclude from a response. Each outcome
of a call (`SqlOutcome`) and the timeout give one lemma, and the theorem is the case distinction.
-/

namespace SqlApi.Server

open SqlApi.Lib SqlApi.Core

/-! ## Building responses -/

/-- `struct APIResponse`; the texts are without their terminators. -/
structure APIResponse where
  statusCode : Int
  contentType : List UInt8
  body : List UInt8
  deriving DecidableEq, Repr

/-- A hexadecimal digit of `%04x`. -/
def hexDigit (n : UInt8) : UInt8 := if n < 10 then byte '0' + n else byte 'a' + (n - 10)

/-- One byte of `api_escape_json_string_alloc`; 34 and 92 are the double quote and the
backslash. -/
def apiEscapeByte (current : UInt8) : List UInt8 :=
  if current = 34 ∨ current = 92 then [92, current]
  else if current = byte '\n' then [92, byte 'n']
  else if current = byte '\r' then [92, byte 'r']
  else if current = byte '\t' then [92, byte 't']
  else if current < 32 then
    [92, byte 'u', byte '0', byte '0', hexDigit (current / 16), hexDigit (current % 16)]
  else [current]

/-- `api_escape_json_string_alloc` -/
def apiEscapeJsonStringAlloc (input : List UInt8) : Prog (Option (List UInt8)) := do
  if ← malloc then pure (some ((cstr input).flatMap apiEscapeByte)) else pure none

/-- The content type of every response. -/
def apiContentType : List UInt8 := bytes "application/json; charset=utf-8"

/-- `api_set_response_body` -/
def apiSetResponseBody (statusCode : Int) (body : List UInt8) : Prog (Option APIResponse) := do
  if ← malloc then pure (some ⟨statusCode, apiContentType, body⟩) else pure none

/-- The text of an error response. -/
def apiErrorText (errorType escapedMessage : List UInt8) : List UInt8 :=
  bytes "\x7b\"ok\":false,\"status\":\"" ++ errorType ++ bytes "\",\"error\":\"" ++
    errorType ++ bytes "\",\"message\":\"" ++ escapedMessage ++ bytes "\"\x7d"

/-- The body of an error response. -/
def apiErrorBody (errorType escapedMessage : List UInt8) : List UInt8 :=
  snprintf 2048 (apiErrorText errorType escapedMessage)

/-- `api_build_error_response` -/
def apiBuildErrorResponse (statusCode : Int) (errorType message : List UInt8) :
    Prog (Option APIResponse) := do
  match ← apiEscapeJsonStringAlloc message with
  | none => pure none
  | some escapedMessage => apiSetResponseBody statusCode (apiErrorBody errorType escapedMessage)

/-- The text of an answer to INSERT. -/
def apiInsertText (insertedId : Int) : List UInt8 :=
  bytes "\x7b\"ok\":true,\"status\":\"ok\",\"action\":\"insert\",\"insertedId\":" ++
    decimal insertedId ++ bytes ",\"usedIndex\":false\x7d"

/-- The body of an answer to INSERT. -/
def apiInsertBody (insertedId : Int) : List UInt8 := snprintf 256 (apiInsertText insertedId)

/-- The first part of an answer to SELECT. -/
def apiSelectHead (rowCount : Nat) (usedIndex : Bool) : List UInt8 :=
  bytes "\x7b\"ok\":true,\"status\":\"ok\",\"action\":\"select\",\"rowCount\":" ++
    decimal rowCount ++ bytes ",\"usedIndex\":" ++
    bytes (if usedIndex then "true" else "false") ++ bytes ",\"rows\":["

/-- One row of an answer to SELECT. -/
def apiSelectRow (index : Nat) (id : Int) (escapedName : List UInt8) (age : Int) : List UInt8 :=
  bytes (if index = 0 then "" else ",") ++ bytes "\x7b\"id\":" ++ decimal id ++
    bytes ",\"name\":\"" ++ escapedName ++ bytes "\",\"age\":" ++ decimal age ++ bytes "\x7d"

/-- The return value of `snprintf`: the length of the whole text, -1 when that is no `int`. -/
def snprintfReturn (text : List UInt8) : Int := if text.length < 2 ^ 31 then text.length else -1

/-- A body that is being written: the text in its buffer, and `offset`. -/
structure APIBody where
  text : List UInt8
  offset : Nat
  deriving DecidableEq, Repr

/-- `offset += (size_t)snprintf(body + offset, capacity - offset, ...)`. Past the buffer, where
`capacity - offset` wraps around, there is nothing to write to. -/
def apiAppend (capacity : Nat) (body : APIBody) (text : List UInt8) : Prog APIBody :=
  if capacity < body.offset then undefined
  else
    pure {
      text := body.text.take body.offset ++ snprintf (capacity - body.offset) text
      offset := ((body.offset + snprintfReturn text) % 2 ^ 64).toNat }

/-- The loop before the allocation; `capacity` is a `size_t`. -/
def apiSelectCapacity : (capacity : Nat) → List RecPtr → Prog Nat
  | capacity, [] => pure capacity
  | capacity, p :: records => do
    let record ← getRecord p
    apiSelectCapacity ((capacity + ((cstr record.name).length * 6 + 96)) % 2 ^ 64) records

/-- The loop that writes the rows; `none` when an escaped name gets no memory. -/
def apiSelectRows (capacity : Nat) : (index : Nat) → List RecPtr → (body : APIBody) →
    Prog (Option APIBody)
  | _, [], body => pure (some body)
  | index, p :: records, body => do
    let record ← getRecord p
    match ← apiEscapeJsonStringAlloc record.name with
    -- the name could not be escaped: the whole response is given up
    | none => pure none
    | some escapedName =>
      let body ← apiAppend capacity body (apiSelectRow index record.id escapedName record.age)
      apiSelectRows capacity (index + 1) records body

/-- The SELECT part of `api_build_execution_response`. -/
def apiBuildSelectResponse (execution : DBServerExecution) : Prog (Option APIResponse) := do
  let records := execution.result.records.take execution.result.rowCount
  let capacity ← apiSelectCapacity 160 records
  if ← malloc then
    let body ← apiAppend capacity ⟨[], 0⟩
      (apiSelectHead execution.result.rowCount execution.usedIndex)
    match ← apiSelectRows capacity 0 records body with
    | none => pure none
    | some body =>
      let body ← apiAppend capacity body (bytes "]\x7d")
      pure (some ⟨200, apiContentType, body.text⟩)
  else pure none

/-- `api_build_execution_response`; `none` is the return value 0. -/
def apiBuildExecutionResponse (execution : DBServerExecution) : Prog (Option APIResponse) :=
  if execution.serverStatus = .lockTimeout then
    apiBuildErrorResponse 503 (bytes "lock_timeout") execution.message
  else
    match execution.result.status with
    | .syntaxError =>
      apiBuildErrorResponse 400 (bytes "syntax_error") execution.result.errorMessage
    | .queryError =>
      apiBuildErrorResponse 400 (bytes "query_error") execution.result.errorMessage
    | .error =>
      apiBuildErrorResponse 500 (bytes "internal_error")
        (if execution.result.errorMessage = [] then bytes "Internal execution error"
         else execution.result.errorMessage)
    | .exit =>
      apiBuildErrorResponse 400 (bytes "query_error")
        (bytes "EXIT and QUIT are only supported in CLI mode")
    -- a SELECT without rows is answered like one with rows
    | .ok | .notFound =>
      match execution.result.action with
      | .insert => apiSetResponseBody 200 (apiInsertBody execution.result.insertedId)
      | .selectRows => apiBuildSelectResponse execution
      | .none =>
        apiBuildErrorResponse 500 (bytes "internal_error") (bytes "Unsupported execution result")

/-! ## What the client can tell -/

/-- An error response. -/
def apiErrorResponse (statusCode : Int) (errorType message : List UInt8) : APIResponse where
  statusCode
  contentType := apiContentType
  body := apiErrorBody errorType ((cstr message).flatMap apiEscapeByte)

/-- The start of an answer to an INSERT. -/
def apiInsertPrefix : List UInt8 :=
  bytes "\x7b\"ok\":true,\"status\":\"ok\",\"action\":\"insert\","

/-- The start of an answer to a SELECT. -/
def apiSelectPrefix : List UInt8 :=
  bytes "\x7b\"ok\":true,\"status\":\"ok\",\"action\":\"select\","

/-- 200 with action insert. -/
def APIResponse.IsInsert (response : APIResponse) : Prop :=
  response.statusCode = 200 ∧ apiInsertPrefix <+: response.body

/-- 200 with action select. -/
def APIResponse.IsSelect (response : APIResponse) : Prop :=
  response.statusCode = 200 ∧ apiSelectPrefix <+: response.body

/-- The action is one or the other. -/
theorem APIResponse.IsInsert.not_isSelect {response : APIResponse} (h : response.IsInsert) :
    ¬ response.IsSelect := by
  intro h'
  have hprefix := List.prefix_of_prefix_length_le h.2 h'.2 (by decide)
  exact absurd hprefix (by decide)

theorem apiInsertPrefix_prefix (insertedId : Int) : apiInsertPrefix <+: apiInsertBody insertedId := by
  unfold apiInsertBody apiInsertText snprintf
  have hhead : apiInsertPrefix <+:
      bytes "\x7b\"ok\":true,\"status\":\"ok\",\"action\":\"insert\",\"insertedId\":" := by decide
  rw [List.prefix_take_iff]
  refine ⟨?_, by decide⟩
  rw [List.append_assoc]
  exact hhead.trans (List.prefix_append _ _)

section Response

variable {m : Memory} {rows : Rows}

theorem run_apiEscapeJsonStringAlloc (hok : m.NoFailure) (input : List UInt8) :
    (apiEscapeJsonStringAlloc input).run m = some (some ((cstr input).flatMap apiEscapeByte), m) := by
  unfold apiEscapeJsonStringAlloc
  rw [run_bind_of (run_malloc_of hok)]
  rfl

theorem run_apiSetResponseBody (hok : m.NoFailure) (statusCode : Int) (body : List UInt8) :
    (apiSetResponseBody statusCode body).run m =
      some (some ⟨statusCode, apiContentType, body⟩, m) := by
  unfold apiSetResponseBody
  rw [run_bind_of (run_malloc_of hok)]
  rfl

theorem run_apiBuildErrorResponse (hok : m.NoFailure) (statusCode : Int)
    (errorType message : List UInt8) :
    (apiBuildErrorResponse statusCode errorType message).run m =
      some (some (apiErrorResponse statusCode errorType message), m) := by
  unfold apiBuildErrorResponse
  rw [run_bind_of (run_apiEscapeJsonStringAlloc hok message)]
  exact run_apiSetResponseBody hok statusCode _

/-! ### The rows of a SELECT -/

/-- A body without anything cut off. -/
def APIBody.whole (text : List UInt8) : APIBody := ⟨text, text.length⟩

/-- A text that fits is appended as it is. -/
theorem run_apiAppend {capacity : Nat} {body text : List UInt8}
    (hfits : body.length + text.length < capacity) (hsize : capacity ≤ 2 ^ 64)
    (hint : text.length < 2 ^ 31) :
    (apiAppend capacity (.whole body) text).run m = some (.whole (body ++ text), m) := by
  have hoffset : (((body.length : Int) + text.length) % 2 ^ 64).toNat = (body ++ text).length := by
    rw [Int.emod_eq_of_lt (by omega) (by omega), List.length_append]
    omega
  unfold apiAppend APIBody.whole snprintf snprintfReturn
  dsimp only
  rw [if_neg (by omega), if_pos hint, List.take_length, List.take_of_length_le (by omega), hoffset]
  rfl

/-- What the first loop sets aside for a row. -/
def apiRowSpace (row : Row) : Nat := row.name.length * 6 + 96

/-- The texts of the rows. -/
def apiRowTexts : (index : Nat) → List Row → List (List UInt8)
  | _, [] => []
  | index, row :: rows =>
    apiSelectRow index row.id (row.name.flatMap apiEscapeByte) row.age :: apiRowTexts (index + 1) rows

/-- The texts that make up an answer to SELECT. -/
def apiSelectTexts (usedIndex : Bool) (rows : List Row) : List (List UInt8) :=
  apiSelectHead rows.length usedIndex :: (apiRowTexts 0 rows ++ [bytes "]\x7d"])

theorem length_apiEscapeByte (c : UInt8) : (apiEscapeByte c).length ≤ 6 := by
  unfold apiEscapeByte
  repeat' split
  all_goals simp

/-- Escaping makes a text at most six times as long. -/
theorem length_apiEscape (text : List UInt8) :
    (text.flatMap apiEscapeByte).length ≤ 6 * text.length := by
  induction text with
  | nil => exact Nat.zero_le _
  | cons c text ih =>
    have := length_apiEscapeByte c
    rw [List.flatMap_cons, List.length_append, List.length_cons]
    omega

/-- A value of type `int` has up to ten digits. -/
theorem length_decimal_int {n : Int} (hn : IsInt n) : (decimal n).length ≤ 11 := by
  obtain ⟨hmin, hmax⟩ := hn
  have hlength := length_decimal_le (n := n) (k := 10) (by decide) (by omega)
  split at hlength <;> omega

/-- A row fits into the space that is set aside for it. -/
theorem length_apiSelectRow {row : Row} (htyped : row.Typed) (index : Nat) :
    (apiSelectRow index row.id (row.name.flatMap apiEscapeByte) row.age).length <
      apiRowSpace row := by
  have hname := length_apiEscape row.name
  have hid := length_decimal_int htyped.id
  have hage := length_decimal_int htyped.age
  have hcomma : (bytes (if index = 0 then "" else ",")).length ≤ 1 := by split <;> decide
  have hfixed : (bytes "\x7b\"id\":").length = 6 ∧ (bytes ",\"name\":\"").length = 9 ∧
      (bytes "\",\"age\":").length = 8 ∧ (bytes "\x7d").length = 1 := by decide
  unfold apiSelectRow apiRowSpace
  simp only [List.length_append]
  omega

/-- The texts around the rows fit into the first 160 bytes. -/
theorem length_apiSelectHead {rowCount : Nat} (hcount : rowCount < 10 ^ 20) (usedIndex : Bool) :
    (apiSelectHead rowCount usedIndex).length ≤ 104 := by
  have hdecimal := length_decimal_le (n := (rowCount : Int)) (k := 20) (by decide) (by omega)
  rw [if_neg (by omega)] at hdecimal
  have hindex : (bytes (if usedIndex then "true" else "false")).length ≤ 5 := by
    cases usedIndex <;> decide
  have hfixed : (bytes "\x7b\"ok\":true,\"status\":\"ok\",\"action\":\"select\",\"rowCount\":").length =
      54 ∧ (bytes ",\"usedIndex\":").length = 13 ∧ (bytes ",\"rows\":[").length = 9 := by decide
  unfold apiSelectHead
  simp only [List.length_append]
  omega

/-- What is set aside for a row is bounded, so that the sum does not wrap around. -/
theorem apiRowSpace_le {row : Row} (htyped : row.Typed) : apiRowSpace row ≤ 480 := by
  have hname : row.name.length ≤ 64 := htyped.name
  unfold apiRowSpace
  omega

theorem sum_apiRowSpace_le {rows : List Row} (htyped : ∀ row ∈ rows, row.Typed) :
    (rows.map apiRowSpace).sum ≤ rows.length * 480 := by
  induction rows with
  | nil => exact Nat.zero_le _
  | cons row rows ih =>
    obtain ⟨hrow, hrows⟩ := List.forall_mem_cons.mp htyped
    have hspace := apiRowSpace_le hrow
    have hsum := ih hrows
    rw [List.map_cons, List.sum_cons, List.length_cons]
    omega

/-- All rows fit into what is set aside for them. -/
theorem length_apiRowTexts {rows : List Row} (htyped : ∀ row ∈ rows, row.Typed) (index : Nat) :
    (apiRowTexts index rows).flatten.length ≤ (rows.map apiRowSpace).sum := by
  induction rows generalizing index with
  | nil => exact Nat.zero_le _
  | cons row rows ih =>
    obtain ⟨hrow, hrows⟩ := List.forall_mem_cons.mp htyped
    have hlength := length_apiSelectRow hrow index
    have hrest := ih hrows (index + 1)
    rw [apiRowTexts, List.flatten_cons, List.length_append, List.map_cons, List.sum_cons]
    omega

section Rows

variable {found : Rows}

theorem run_apiSelectCapacity (hm : HoldsRows m rows) (hfound : found ⊆ rows) {capacity : Nat}
    (hsize : capacity + (found.contents.map apiRowSpace).sum < 2 ^ 64) :
    (apiSelectCapacity capacity (found.map Prod.fst)).run m =
      some (capacity + (found.contents.map apiRowSpace).sum, m) := by
  induction found generalizing capacity with
  | nil => rfl
  | cons row found ih =>
    obtain ⟨hrow, hfound⟩ := List.cons_subset.mp hfound
    have hcontents : (Rows.contents (row :: found)).map apiRowSpace =
        ((cstr row.2.name).length * 6 + 96) :: (Rows.contents found).map apiRowSpace := rfl
    rw [hcontents, List.sum_cons] at hsize ⊢
    rw [List.map_cons, apiSelectCapacity, run_bind_of (hm.run_getRecord hrow),
      Nat.mod_eq_of_lt (by omega), ih hfound (by omega), Nat.add_assoc]

/-- Every row is written to its end as long as there is the space set aside for it. -/
theorem run_apiSelectRows (hm : HoldsRows m rows) (hok : m.NoFailure)
    (htyped : ∀ row ∈ found.contents, row.Typed) (hfound : found ⊆ rows) {capacity : Nat}
    (hsize : capacity ≤ 2 ^ 64) (index : Nat) {body : List UInt8}
    (hfits : body.length + (found.contents.map apiRowSpace).sum < capacity) :
    (apiSelectRows capacity index (found.map Prod.fst) (.whole body)).run m =
      some (some (.whole (body ++ (apiRowTexts index found.contents).flatten)), m) := by
  -- the induction is on the rows still to print; the room of the written ones is already spent
  induction found generalizing index body with
  | nil =>
    have hnone : (apiRowTexts index (Rows.contents [])).flatten = [] := rfl
    rw [hnone, List.append_nil]
    rfl
  | cons row found ih =>
    obtain ⟨hrow, hfound⟩ := List.cons_subset.mp hfound
    have hcontents : Rows.contents (row :: found) = row.2.row :: Rows.contents found := rfl
    rw [hcontents] at htyped hfits ⊢
    obtain ⟨hr, htyped⟩ := List.forall_mem_cons.mp htyped
    rw [List.map_cons, List.sum_cons] at hfits
    have hlength := length_apiSelectRow hr index
    have hspace := apiRowSpace_le hr
    rw [List.map_cons, apiSelectRows, run_bind_of (hm.run_getRecord hrow),
      run_bind_of (run_apiEscapeJsonStringAlloc hok row.2.name)]
    change Prog.run (apiAppend capacity (.whole body) (apiSelectRow index row.2.row.id
      (row.2.row.name.flatMap apiEscapeByte) row.2.row.age) >>= _) m = _
    rw [apiRowTexts, List.flatten_cons]
    -- only the length of the row matters from here
    generalize apiSelectRow index row.2.row.id (row.2.row.name.flatMap apiEscapeByte)
      row.2.row.age = text at hlength ⊢
    rw [run_bind_of (run_apiAppend (by omega) hsize (by omega)),
      ih htyped hfound (index + 1) (by rw [List.length_append]; omega), List.append_assoc]

/-- An answer to a SELECT that found some rows of the table. -/
def apiSelectResponse (usedIndex : Bool) (rows : List Row) : APIResponse :=
  ⟨200, apiContentType, (apiSelectTexts usedIndex rows).flatten⟩

/-- The answer is written to its end. -/
theorem run_apiBuildSelectResponse (hm : HoldsRows m rows) (hok : m.NoFailure) (ht : m.Typed)
    (hfound : found ⊆ rows) (hbound : found.length ≤ 2 ^ 32) {execution : DBServerExecution}
    (hrecords : execution.result.records = found.map Prod.fst)
    (hcount : execution.result.rowCount = found.length) :
    (apiBuildSelectResponse execution).run m =
      some (some (apiSelectResponse execution.usedIndex found.contents), m) := by
  have htyped := hm.typed_contents ht hfound
  have hlengths : found.contents.length = found.length := List.length_map _
  have htake : execution.result.records.take execution.result.rowCount = found.map Prod.fst := by
    rw [hrecords, hcount, List.take_of_length_le (by simp)]
  -- the capacity the code computes bounds the head, the rows and the tail
  have hsum : (found.contents.map apiRowSpace).sum ≤ found.length * 480 :=
    hlengths ▸ sum_apiRowSpace_le htyped
  have hrows := length_apiRowTexts htyped 0
  have hrunCapacity : (apiSelectCapacity 160 (found.map Prod.fst)).run m =
      some (160 + (found.contents.map apiRowSpace).sum, m) :=
    run_apiSelectCapacity hm hfound (by omega)
  have hhead : (apiSelectHead found.length execution.usedIndex).length ≤ 104 :=
    length_apiSelectHead (by omega) execution.usedIndex
  have htail : (bytes "]\x7d").length = 2 := rfl
  unfold apiBuildSelectResponse apiSelectResponse apiSelectTexts
  dsimp only
  rw [htake, hcount, hlengths, run_bind_of hrunCapacity, run_bind_of (run_malloc_of hok),
    if_pos rfl]
  generalize apiSelectHead found.length execution.usedIndex = head at hhead ⊢
  generalize hspace : (found.contents.map apiRowSpace).sum = space at hsum hrows
  -- three appends, and none of them is refused
  have hrunHead : (apiAppend (160 + space) (.whole []) head).run m =
      some (.whole ([] ++ head), m) :=
    run_apiAppend (by rw [List.length_nil]; omega) (by omega) (by omega)
  have hrunRows : (apiSelectRows (160 + space) 0 (found.map Prod.fst) (.whole head)).run m =
      some (some (.whole (head ++ (apiRowTexts 0 found.contents).flatten)), m) :=
    run_apiSelectRows hm hok htyped hfound (by omega) 0 (by omega)
  generalize (apiRowTexts 0 found.contents) = texts at hrows hrunRows ⊢
  have hrunTail : (apiAppend (160 + space) (.whole (head ++ texts.flatten)) (bytes "]\x7d")).run m =
      some (.whole (head ++ texts.flatten ++ bytes "]\x7d"), m) :=
    run_apiAppend (by rw [List.length_append]; omega) (by omega) (by omega)
  change Prog.run (apiAppend (160 + space) (.whole []) head >>= _) m = _
  rw [run_bind_of hrunHead, List.nil_append, run_bind_of hrunRows]
  dsimp only
  rw [run_bind_of hrunTail, List.flatten_cons, List.flatten_append, List.flatten_singleton,
    ← List.append_assoc]
  rfl

end Rows

/-- It is told to be one. -/
theorem apiSelectResponse_isSelect (usedIndex : Bool) (rows : List Row) :
    (apiSelectResponse usedIndex rows).IsSelect := by
  have hhead : apiSelectPrefix <+:
      bytes "\x7b\"ok\":true,\"status\":\"ok\",\"action\":\"select\",\"rowCount\":" := by decide
  refine ⟨rfl, ?_⟩
  unfold apiSelectResponse apiSelectTexts apiSelectHead
  simp only [List.flatten_cons, List.append_assoc]
  exact hhead.trans (List.prefix_append _ _)

/-- A text without a statement has one of three statuses. -/
theorem status_of_sqlParse_error {query : Cursor} {result : SQLResult}
    (hparse : sqlParse query = .error result) :
    result.status = .syntaxError ∨ result.status = .queryError ∨ result.status = .exit := by
  rcases sqlParse_eq_error hparse with hexit | hsql
  · rw [hexit]
    exact .inr (.inr rfl)
  · cases hsql with
    | syntaxError cursor => exact .inl rfl
    | unknownColumn column clauseName => exact .inr (.inl rfl)

/-- The result of a SELECT has one of two. -/
theorem status_of_sqlSelectResult (query : SqlSelect) (found : List RecPtr) :
    (sqlSelectResult query.emptyStatus (some found)).status = .ok ∨
      (sqlSelectResult query.emptyStatus (some found)).status = .notFound := by
  cases found with
  | nil => cases query <;> simp [sqlSelectResult, SqlSelect.emptyStatus]
  | cons p found => exact .inl rfl

/-- A text without a statement is answered with 400. -/
theorem run_response_of_error (hok : m.NoFailure) {query : Cursor} {execution : DBServerExecution}
    (hstatus : execution.serverStatus = .ok) (hparse : sqlParse query = .error execution.result) :
    ∃ response, (apiBuildExecutionResponse execution).run m = some (some response, m) ∧
      response.statusCode = 400 := by
  have herror := status_of_sqlParse_error hparse
  unfold apiBuildExecutionResponse
  rw [hstatus, if_neg (by decide)]
  rcases herror with h | h | h <;> rw [h] <;>
    exact ⟨_, run_apiBuildErrorResponse hok _ _ _, rfl⟩

/-- A SELECT is answered as such, whether it found rows or not. -/
theorem run_response_of_select (hm : HoldsRows m rows) (hok : m.NoFailure) (ht : m.Typed)
    {found : Rows} (hfound : found ⊆ rows) (hbound : found.length ≤ 2 ^ 32) {query : SqlSelect}
    {execution : DBServerExecution} (hstatus : execution.serverStatus = .ok)
    (hresult : execution.result = sqlSelectResult query.emptyStatus (some (found.map Prod.fst))) :
    (apiBuildExecutionResponse execution).run m =
      some (some (apiSelectResponse execution.usedIndex found.contents), m) := by
  have hrecords : execution.result.records = found.map Prod.fst := by rw [hresult]; rfl
  have hcount : execution.result.rowCount = found.length := by
    rw [hresult]
    exact List.length_map _
  have haction : execution.result.action = .selectRows := by rw [hresult]; rfl
  have hfinal : execution.result.status = .ok ∨ execution.result.status = .notFound :=
    hresult ▸ status_of_sqlSelectResult query _
  have hrun := run_apiBuildSelectResponse hm hok ht hfound hbound hrecords hcount
  unfold apiBuildExecutionResponse
  rw [hstatus, if_neg (by decide), haction]
  rcases hfinal with h | h <;> rw [h] <;> exact hrun

end Response

/-! ## The answer and the effect -/

/-- What the answer to a query has to say about the effect of the call. -/
structure Truthful (granted : Bool) (query : Cursor) (m m' : Memory) (execution : DBServerExecution)
    (response : APIResponse) : Prop where
  /-- 200 insert: one row more, at the end, and its id is told. -/
  insert : response.IsInsert ↔ ∃ rows row, m.rows? = some rows ∧ m'.rows? = some (rows ++ [row]) ∧
    row.id = execution.result.insertedId ∧ response.body = apiInsertBody execution.result.insertedId
  /-- Otherwise rows, size, counter and index are as before. -/
  unchanged : ¬ response.IsInsert → m' = m
  /-- 503: the lock was not obtained. -/
  lockTimeout : response.statusCode = 503 ↔
    dbServerTryAcquireLock (dbServerClassifyQuery query) granted = false
  /-- The 503 answer is the lock timeout. -/
  lockTimeout_body : response.statusCode = 503 → response =
    apiErrorResponse 503 (bytes "lock_timeout") (bytes "Lock wait timeout exceeded")
  /-- 200 select: the executor evaluated a SELECT. -/
  select : response.IsSelect ↔
    dbServerTryAcquireLock (dbServerClassifyQuery query) granted = true ∧
      ∃ rows, sqlParse query = .ok (.select rows)
  /-- 400: a syntax error, an unknown column, EXIT or QUIT. -/
  badRequest : response.statusCode = 400 ↔ execution.serverStatus = .ok ∧
    (execution.result.status = .syntaxError ∨ execution.result.status = .queryError ∨
      execution.result.status = .exit)
  /-- The last branch, and any other internal error, is not reached. -/
  supported : response.statusCode ≠ 500

section Truthful

variable {rows : Rows} {granted : Bool} {query : Cursor}

/-- No row was appended. -/
private theorem not_appended (m : Memory) :
    ¬ ∃ rows row, m.rows? = some rows ∧ m.rows? = some (rows ++ [row]) := by
  rintro ⟨before, row, hbefore, hafter⟩
  rw [hbefore] at hafter
  have hlen := congrArg List.length (Option.some.inj hafter)
  simp at hlen

/-- The answer to a timeout. -/
theorem truthful_of_timeout (m : Memory)
    (hlock : dbServerTryAcquireLock (dbServerClassifyQuery query) granted = false) :
    Truthful granted query m m (dbServerTimeout (dbServerBegin query))
      (apiErrorResponse 503 (bytes "lock_timeout") (bytes "Lock wait timeout exceeded")) where
  -- nothing was appended, and 503 is no status of another clause
  insert := by
    constructor
    · intro h
      exact absurd h.1 (by decide)
    · rintro ⟨before, row, hbefore, hafter, -⟩
      exact absurd ⟨before, row, hbefore, hafter⟩ (not_appended m)
  unchanged := fun _ => rfl
  lockTimeout := ⟨fun _ => hlock, fun _ => rfl⟩
  lockTimeout_body := fun _ => rfl
  select := by
    constructor
    · intro h
      exact absurd h.1 (by decide)
    · rintro ⟨h, -⟩
      rw [hlock] at h
      cases h
  badRequest := by
    constructor
    · intro h
      exact absurd h (by decide)
    · rintro ⟨h, -⟩
      cases h
  supported := by decide

/-- The answer to a text without a statement. -/
theorem truthful_of_error (m : Memory) {result : SQLResult} {response : APIResponse}
    (hlock : dbServerTryAcquireLock (dbServerClassifyQuery query) granted = true)
    (hparse : sqlParse query = .error result) (hresponse : response.statusCode = 400) :
    Truthful granted query m m (dbServerDone (dbServerBegin query) result) response where
  -- a refused text appends nothing
  insert := by
    constructor
    · intro h
      rw [h.1] at hresponse
      exact absurd hresponse (by decide)
    · rintro ⟨before, row, hbefore, hafter, -⟩
      exact absurd ⟨before, row, hbefore, hafter⟩ (not_appended m)
  unchanged := fun _ => rfl
  lockTimeout := by simp [hresponse, hlock]
  lockTimeout_body := by simp [hresponse]
  select := by
    constructor
    · intro h
      rw [h.1] at hresponse
      exact absurd hresponse (by decide)
    · rintro ⟨-, select, hselect⟩
      rw [hparse] at hselect
      cases hselect
  badRequest := ⟨fun _ => ⟨rfl, status_of_sqlParse_error hparse⟩, fun _ => hresponse⟩
  supported := by simp [hresponse]

/-- The answer to a SELECT. -/
theorem truthful_of_select (m : Memory) {select : SqlSelect} {found : List RecPtr}
    {response : APIResponse}
    (hlock : dbServerTryAcquireLock (dbServerClassifyQuery query) granted = true)
    (hparse : sqlParse query = .ok (.select select)) (hresponse : response.IsSelect) :
    Truthful granted query m m (dbServerDone (dbServerBegin query)
      (sqlSelectResult select.emptyStatus (some found))) response where
  insert := by
    constructor
    · intro h
      exact absurd hresponse h.not_isSelect
    · rintro ⟨before, row, hbefore, hafter, -⟩
      exact absurd ⟨before, row, hbefore, hafter⟩ (not_appended m)
  unchanged := fun _ => rfl
  lockTimeout := by simp [hresponse.1, hlock]
  lockTimeout_body := by simp [hresponse.1]
  select := ⟨fun _ => ⟨hlock, select, hparse⟩, fun _ => hresponse⟩
  -- a SELECT that ran ends with OK or NOT_FOUND
  badRequest := by
    have hstatus := status_of_sqlSelectResult select found
    constructor
    · intro h
      rw [hresponse.1] at h
      exact absurd h (by decide)
    · rintro ⟨-, herror⟩
      change (sqlSelectResult select.emptyStatus (some found)).status = _ ∨ _ at herror
      rcases hstatus with h | h <;> simp [dbServerDone, h] at herror
  supported := by simp [hresponse.1]

/-- The answer to an INSERT that appended its row. -/
theorem truthful_of_insert {m m' : Memory} {record : RecPtr} {r : Record} {name : List UInt8}
    {age : Int} (hm : HoldsRows m rows) (hm' : HoldsRows m' (rows ++ [(record, r)]))
    (hlock : dbServerTryAcquireLock (dbServerClassifyQuery query) granted = true)
    (hparse : sqlParse query = .ok (.insert name age)) :
    Truthful granted query m m' (dbServerDone (dbServerBegin query) (sqlInserted record r.id))
      ⟨200, apiContentType, apiInsertBody r.id⟩ := by
  have hinsert : APIResponse.IsInsert ⟨200, apiContentType, apiInsertBody r.id⟩ :=
    ⟨rfl, apiInsertPrefix_prefix r.id⟩
  have hother : (200 : Int) ≠ 503 ∧ (200 : Int) ≠ 400 ∧ (200 : Int) ≠ 500 := by decide
  exact {
    -- the rows after the call are those before it and the new one
    insert := by
      refine ⟨fun _ => ⟨rows.contents, r.row, hm.rows?, ?_, rfl, rfl⟩, fun _ => hinsert⟩
      rw [hm'.rows?, Rows.contents, List.map_append]
      rfl
    unchanged := fun h => absurd hinsert h
    lockTimeout := by simp [hlock]
    lockTimeout_body := fun h => absurd h hother.1
    select := by
      constructor
      · intro h
        exact absurd h hinsert.not_isSelect
      · rintro ⟨-, select, hselect⟩
        rw [hparse] at hselect
        cases hselect
    badRequest := by
      constructor
      · intro h
        exact absurd h hother.2.1
      · rintro ⟨-, h | h | h⟩ <;> cases h
    supported := hother.2.2 }

end Truthful

/-- The answer tells the truth about the effect: on every server that queries lead to,
for every query and whether or not it gets its lock, `db_server_execute` returns, an
answer is built without touching the table, and it is truthful. -/
theorem apiBuildExecutionResponse_truthful {server : DBServer} (hserver : server.Reachable)
    (hinserts : server.memory.table.size < 2 ^ 31 - 1) (granted : Bool) (query : Cursor) :
    ∃ execution server' response,
      dbServerExecute granted query server = some (execution, server') ∧
      (apiBuildExecutionResponse execution).run server'.memory =
        some (some response, server'.memory) ∧
      Truthful granted query server.memory server'.memory execution response := by
  obtain ⟨hok, rows, hm, hn⟩ := hserver.inv
  rw [hm.size] at hinserts
  cases hlock : dbServerTryAcquireLock (dbServerClassifyQuery query) granted with
  | false =>
    obtain ⟨metrics, hexecute⟩ := dbServerExecute_of_timeout server hlock
    exact ⟨_, _, _, hexecute, run_apiBuildErrorResponse hok _ _ _,
      truthful_of_timeout _ hlock⟩
  | true =>
    obtain ⟨result, m', hrun, houtcome⟩ := run_sqlExecute hm hn hok query
    obtain ⟨metrics, hexecute⟩ := dbServerExecute_of_lock hlock hrun
    have hok' : m'.NoFailure := hok.run hrun
    -- one case per outcome of the statement; the last is excluded by the bound on the rows
    cases houtcome with
    | error hparse hsame =>
      subst hsame
      obtain ⟨response, hresponse, hcode⟩ := run_response_of_error hok
        (rfl : (dbServerDone (dbServerBegin query) result).serverStatus = .ok) hparse
      exact ⟨_, _, response, hexecute, hresponse,
        truthful_of_error _ hlock hparse hcode⟩
    | select select found hparse hfound hresult hsame =>
      subst hsame hresult
      have hresponse := run_response_of_select hm.toHoldsRows hok hserver.typed hfound
        (length_found_le hm hn hok hrun)
        (rfl : (dbServerDone (dbServerBegin query) _).serverStatus = .ok)
        (rfl : _ = sqlSelectResult select.emptyStatus (some (found.map Prod.fst)))
      exact ⟨_, _, _, hexecute, hresponse,
        truthful_of_select _ hlock hparse (apiSelectResponse_isSelect _ _)⟩
    | insert name age record hparse hresult hm' hn' =>
      generalize wrapInt (rows.length + 1) = id at hresult hm'
      subst hresult
      exact ⟨_, _, _, hexecute, run_apiSetResponseBody hok' _ _,
        truthful_of_insert hm.toHoldsRows hm'.toHoldsRows hlock hparse⟩
    | full name age hparse hfull hresult hm' hn' => omega

/-- A SELECT that finds the row of an INSERT before it. -/
theorem apiBuildExecutionResponse_truthful_ann :
    let insert := bytes "INSERT INTO users VALUES ('Ann', 30);"
    let select := bytes "SELECT * FROM users WHERE age = 30"
    ∃ inserted server, dbServerExecute true insert dbServerInit = some (inserted, server) ∧
      ∃ execution server' response,
        dbServerExecute true select server = some (execution, server') ∧
        (apiBuildExecutionResponse execution).run server'.memory =
          some (some response, server'.memory) ∧
        execution.result.rowCount = 1 ∧
        Truthful true select server.memory server'.memory execution response := by
  intro insert select
  obtain ⟨inserted, server, -, hinsert, -⟩ :=
    apiBuildExecutionResponse_truthful .init (by decide) true insert
  have hserver : server.Reachable := .execute _ _ _ .init hinsert
  -- both statements computed once, for the size of the table and the number of rows found
  have hruns : ((dbServerExecute true insert dbServerInit).bind fun done =>
      (dbServerExecute true select done.2).map fun found =>
        (done.2.memory.table.size, found.1.result.rowCount)) = some (1, 1) := by decide +kernel
  rw [hinsert, Option.bind_some] at hruns
  have hsize : server.memory.table.size = 1 := by
    obtain ⟨found, -, hfound⟩ := Option.map_eq_some_iff.mp hruns
    exact (Prod.mk.inj hfound).1
  obtain ⟨execution, server', response, hselect, hresponse, htruthful⟩ :=
    apiBuildExecutionResponse_truthful hserver (by rw [hsize]; decide) true select
  rw [hselect, Option.map_some, Option.some.injEq, Prod.mk.injEq] at hruns
  exact ⟨inserted, server, hinsert, execution, server', response, hselect, hresponse, hruns.2,
    htruthful⟩

end SqlApi.Server

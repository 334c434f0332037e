import SqlApi.Core.SqlExcerpt
import SqlApi.Server.HttpResponse

/-!
# Answers in UTF-8

A server that was only asked in UTF-8 stores names in UTF-8 and answers in UTF-8, but for one
thing: the excerpt in a syntax error is cut by bytes.

Everything else in an answer is fixed text, a number, or a name; names come from the literals of
INSERT, whose quotes are ASCII, so they are cut between characters.
-/

namespace SqlApi.Server

open SqlApi.Lib SqlApi.Core

/-! ## Texts -/

section Texts

variable {s : List UInt8}

/-- Escapes are ASCII, and stand for ASCII. -/
theorem isUtf8_apiEscape_iff : IsUtf8 (s.flatMap apiEscapeByte) ↔ IsUtf8 s := by
  have hescape : ∀ n < 128, apiEscapeByte n.toUInt8 ≠ [] ∧
      ∀ c ∈ apiEscapeByte n.toUInt8, c < 128 := by decide +kernel
  refine isUtf8_flatMap_iff (fun b hb => ?_) (fun b hb => ?_)
  · have hbyte : b.toNat.toUInt8 = b := UInt8.ofNat_toNat
    exact hbyte ▸ hescape b.toNat (UInt8.lt_iff_toNat_lt.mp hb)
  · have hne {c : UInt8} (hc : c < 128) : b ≠ c := fun h => absurd hb (UInt8.not_le.mpr (h ▸ hc))
    have hlarge : ¬ b < 32 := fun hsmall =>
      absurd hb (UInt8.not_le.mpr (UInt8.lt_trans hsmall (by decide)))
    unfold apiEscapeByte
    rw [if_neg (not_or.mpr ⟨hne (by decide), hne (by decide)⟩), if_neg (hne (by decide)),
      if_neg (hne (by decide)), if_neg (hne (by decide)), if_neg hlarge]

theorem decimal_ascii (n : Int) : ∀ c ∈ decimal n, c < 128 := by
  obtain ⟨digits, -, hdigits, -, -, hdecimal⟩ := decimal_spec n
  intro c hc
  rw [hdecimal] at hc
  rcases List.mem_append.mp hc with hminus | hdigit
  · split at hminus
    · rw [List.mem_singleton.mp hminus]
      decide
    · cases hminus
  · have hrange : c.toNat ≤ 57 := by
      have := hdigits c hdigit
      simp only [isDigit, UInt8.le_iff_toNat_le, Bool.and_eq_true, decide_eq_true_eq] at this
      exact this.2
    rw [UInt8.lt_iff_toNat_lt]
    exact lt_of_le_of_lt hrange (by decide)

/-- An error is valid if and only if its message is. -/
theorem isUtf8_text_error_iff {statusCode : Int} {errorType message : List UInt8}
    (htype : ∀ c ∈ errorType, c < 128) :
    IsUtf8 (APIAnswer.error statusCode errorType message).text ↔ IsUtf8 message := by
  have hfixed : (∀ c ∈ bytes "\x7b\"ok\":false,\"status\":\"", c < 128) ∧
      (∀ c ∈ bytes "\",\"error\":\"", c < 128) ∧ (∀ c ∈ bytes "\",\"message\":\"", c < 128) ∧
      ∀ c ∈ bytes "\"\x7d", c < 128 := by decide
  have hhead : ∀ c ∈ bytes "\x7b\"ok\":false,\"status\":\"" ++ errorType ++ bytes "\",\"error\":\"" ++
      errorType ++ bytes "\",\"message\":\"", c < 128 := by
    simp only [List.forall_mem_append]
    exact ⟨⟨⟨⟨hfixed.1, htype⟩, hfixed.2.1⟩, htype⟩, hfixed.2.2.1⟩
  change IsUtf8 (apiErrorText errorType (message.flatMap apiEscapeByte) ++ []) ↔ _
  unfold apiErrorText
  rw [List.append_nil, isUtf8_append_ascii_iff hfixed.2.2.2, (isUtf8_ascii hhead).append_iff,
    isUtf8_apiEscape_iff]

theorem isUtf8_text_insert (insertedId : Int) : IsUtf8 (APIAnswer.insert insertedId).text := by
  have hfixed :
      (∀ c ∈ bytes "\x7b\"ok\":true,\"status\":\"ok\",\"action\":\"insert\",\"insertedId\":",
        c < 128) ∧ ∀ c ∈ bytes ",\"usedIndex\":false\x7d", c < 128 := by decide
  change IsUtf8 (apiInsertText insertedId ++ [])
  unfold apiInsertText
  rw [List.append_nil]
  refine isUtf8_ascii ?_
  simp only [List.forall_mem_append]
  exact ⟨⟨hfixed.1, decimal_ascii insertedId⟩, hfixed.2⟩

private theorem isUtf8_apiSelectRow {row : Row} (hname : IsUtf8 row.name) (index : Nat) :
    IsUtf8 (apiSelectRow index row.id (row.name.flatMap apiEscapeByte) row.age) := by
  have hfixed : IsUtf8 (bytes "\x7b\"id\":") ∧ IsUtf8 (bytes ",\"name\":\"") ∧
      IsUtf8 (bytes "\",\"age\":") ∧ IsUtf8 (bytes "\x7d") := by
    refine ⟨?_, ?_, ?_, ?_⟩ <;> exact isUtf8_ascii (by decide)
  have hcomma : IsUtf8 (bytes (if index = 0 then "" else ",")) := by
    split <;> exact isUtf8_ascii (by decide)
  have hid := isUtf8_ascii (decimal_ascii row.id)
  have hage := isUtf8_ascii (decimal_ascii row.age)
  have hescaped : IsUtf8 (row.name.flatMap apiEscapeByte) := isUtf8_apiEscape_iff.mpr hname
  unfold apiSelectRow
  exact ((((((hcomma.append hfixed.1).append hid).append hfixed.2.1).append hescaped).append
    hfixed.2.2.1).append hage).append hfixed.2.2.2

private theorem isUtf8_apiSelectHead (rowCount : Nat) (usedIndex : Bool) :
    IsUtf8 (apiSelectHead rowCount usedIndex) := by
  have hindex : ∀ c ∈ bytes (if usedIndex then "true" else "false"), c < 128 := by
    cases usedIndex <;> decide
  have hfixed :
      (∀ c ∈ bytes "\x7b\"ok\":true,\"status\":\"ok\",\"action\":\"select\",\"rowCount\":",
        c < 128) ∧ (∀ c ∈ bytes ",\"usedIndex\":", c < 128) ∧
        ∀ c ∈ bytes ",\"rows\":[", c < 128 := by decide
  unfold apiSelectHead
  refine isUtf8_ascii ?_
  simp only [List.forall_mem_append]
  exact ⟨⟨⟨⟨hfixed.1, decimal_ascii rowCount⟩, hfixed.2.1⟩, hindex⟩, hfixed.2.2⟩

private theorem isUtf8_apiRowTexts {rows : List Row} (hnames : ∀ row ∈ rows, IsUtf8 row.name)
    (index : Nat) : ∀ text ∈ apiRowTexts index rows, IsUtf8 text := by
  induction rows generalizing index with
  | nil => nofun
  | cons row rows ih =>
    obtain ⟨hrow, hrest⟩ := List.forall_mem_cons.mp hnames
    exact List.forall_mem_cons.mpr ⟨isUtf8_apiSelectRow hrow index, ih hrest (index + 1)⟩

/-- The answer to a SELECT is valid when the names are. -/
theorem isUtf8_text_select {rows : List Row} (hnames : ∀ row ∈ rows, IsUtf8 row.name)
    (usedIndex : Bool) : IsUtf8 (APIAnswer.select usedIndex rows).text := by
  have hhead := isUtf8_apiSelectHead rows.length usedIndex
  have hrows := isUtf8_apiRowTexts hnames 0
  rw [APIAnswer.text_select]
  refine IsUtf8.flatten (List.forall_mem_cons.mpr ⟨hhead, ?_⟩)
  refine List.forall_mem_append.mpr ⟨hrows, List.forall_mem_singleton.mpr ?_⟩
  exact isUtf8_ascii (by decide)

end Texts

/-! ## Servers -/

/-- The servers that queries lead to when those that get their lock are of some kind. -/
inductive DBServer.ReachableBy (kind : Cursor → Prop) : DBServer → Prop
  | init : DBServer.ReachableBy kind dbServerInit
  | execute {server server' : DBServer} (granted : Bool) {query : Cursor}
      {execution : DBServerExecution} : DBServer.ReachableBy kind server →
      (dbServerTryAcquireLock (dbServerClassifyQuery query) granted = true → kind query) →
      dbServerExecute granted query server = some (execution, server') →
      DBServer.ReachableBy kind server'

theorem DBServer.ReachableBy.reachable {kind : Cursor → Prop} {server : DBServer}
    (h : server.ReachableBy kind) : server.Reachable := by
  induction h with
  | init => exact .init
  | execute granted _ _ hrun ih => exact .execute granted _ _ ih hrun

/-- The names in a table are valid UTF-8. -/
def Utf8Names (rows : Rows) : Prop := ∀ row ∈ rows.contents, IsUtf8 row.name

section Servers

variable {m m' : Memory} {rows : Rows} {query : Cursor} {result : SQLResult}

/-- What a valid query does keeps the names valid. -/
theorem SqlOutcome.utf8Names (h : SqlOutcome query m rows result m') (hm : TableInv m rows)
    (hn : Numbered m rows) (hquery : IsUtf8 query) (hnames : Utf8Names rows) :
    ∃ rows', TableInv m' rows' ∧ Numbered m' rows' ∧ Utf8Names rows' := by
  obtain ⟨rows', hm', hn', rfl | ⟨record, name, age, hparse, rfl⟩⟩ := h.appended hm hn
  · exact ⟨_, hm', hn', hnames⟩
  · -- the name is a literal of the query, and none of it is cut off in the record
    have hquoted := quotedIn_of_sqlParse_insert hparse
    have hrow := newRecord_row ⟨hquoted.length, hquoted.zero, hquoted.quote⟩
      (wrapInt (rows.length + 1)) age
    refine ⟨_, hm', hn', ?_⟩
    unfold Utf8Names
    rw [Rows.contents, List.map_append, List.forall_mem_append]
    refine ⟨hnames, List.forall_mem_singleton.mpr ?_⟩
    dsimp only
    rw [hrow]
    exact hquoted.isUtf8 hquery

/-- What holds of a server that was only asked in UTF-8. -/
theorem DBServer.ReachableBy.utf8Names {server : DBServer} (h : server.ReachableBy IsUtf8) :
    server.memory.NoFailure ∧ ∃ rows, TableInv server.memory rows ∧ Numbered server.memory rows ∧
      Utf8Names rows := by
  induction h with
  | init => exact ⟨rfl, [], tableCreate_inv, tableCreate_numbered, nofun⟩
  | @execute server server' granted query execution _ hquery hrun ih =>
    obtain ⟨hok, rows, hm, hn, hnames⟩ := ih
    rcases dbServerExecute_eq_some hrun with ⟨-, -, hsame⟩ | ⟨hlock, result, hsql, -⟩
    · rw [hsame]
      exact ⟨hok, rows, hm, hn, hnames⟩
    · have houtcome := sqlOutcome_of_run hm hn hok hsql
      exact ⟨hok.run hsql, houtcome.utf8Names hm hn (hquery hlock) hnames⟩

/-! ## Answers -/

/-- The text that answers a text without a statement. -/
private theorem isUtf8_text_sqlParse_iff (hquery : IsUtf8 query)
    (hparse : sqlParse query = .error result) (found : List Row) :
    IsUtf8 (apiExecutionAnswer found (dbServerDone (dbServerBegin query) result)).text ↔
      WholeChars query := by
  have htypes : (∀ c ∈ bytes "syntax_error", c < 128) ∧ ∀ c ∈ bytes "query_error", c < 128 := by
    decide
  have hmessage := isUtf8_errorMessage_iff hquery hparse
  rcases sqlParse_eq_error hparse with rfl | herror
  · have hexit : IsUtf8 (bytes "EXIT and QUIT are only supported in CLI mode") :=
      isUtf8_ascii (by decide)
    refine (isUtf8_text_error_iff htypes.2).trans (iff_of_true hexit ?_)
    exact hmessage.mp isUtf8_nil
  · cases herror with
    | syntaxError cursor => exact (isUtf8_text_error_iff htypes.1).trans hmessage
    | unknownColumn column clauseName => exact (isUtf8_text_error_iff htypes.2).trans hmessage

/-- The text that answers a query that got its lock. -/
private theorem SqlOutcome.isUtf8_text_iff (h : SqlOutcome query m rows result m')
    (hm : TableInv m rows) (hquery : IsUtf8 query) (hnames : Utf8Names rows) {found : List Row}
    (hfound : m'.rowsAt result.records = some found) :
    IsUtf8 (apiExecutionAnswer found (dbServerDone (dbServerBegin query) result)).text ↔
      WholeChars query := by
  cases h with
  | error hparse _ => exact isUtf8_text_sqlParse_iff hquery hparse found
  | select select found' hparse hsub hresult hsame =>
    subst hsame hresult
    obtain rfl : found'.contents = found :=
      Option.some.inj ((hm.toHoldsRows.rowsAt hsub).symm.trans hfound)
    have hanswer := apiExecutionAnswer_select found' query select
    rw [hanswer]
    -- the rows that were found are rows of the table
    refine iff_of_true (isUtf8_text_select (fun row hrow => ?_) _) (wholeChars_of_parse hparse)
    exact hnames row ((List.map_subset _ hsub) hrow)
  | insert name age record hparse hresult _ _ =>
    subst hresult
    exact iff_of_true (isUtf8_text_insert _) (wholeChars_of_parse hparse)
  | full name age hparse _ hresult _ _ =>
    subst hresult
    have hmessage : IsUtf8 (bytes "Internal execution error") := isUtf8_ascii (by decide)
    exact iff_of_true ((isUtf8_text_error_iff (by decide)).mpr hmessage) (wholeChars_of_parse hparse)

/-- What a server answers that was only asked in UTF-8. -/
theorem dbServerExecute_utf8_iff {server : DBServer} (hserver : server.ReachableBy IsUtf8)
    (granted : Bool) (hquery : IsUtf8 query) :
    ∃ execution server' found, dbServerExecute granted query server = some (execution, server') ∧
      server'.memory.NoFailure ∧ Answers server'.memory execution found ∧
      (IsUtf8 (apiExecutionAnswer found execution).text ↔
        (dbServerTryAcquireLock (dbServerClassifyQuery query) granted = true → WholeChars query)) := by
  obtain ⟨hok, rows, hm, hn, hnames⟩ := hserver.utf8Names
  obtain ⟨execution, server', found, hexecute, hok', hanswers⟩ :=
    dbServerExecute_answers hserver.reachable granted query
  refine ⟨execution, server', found, hexecute, hok', hanswers, ?_⟩
  rcases dbServerExecute_eq_some hexecute with ⟨hlock, rfl, -⟩ | ⟨hlock, result, hrun, rfl⟩
  -- without the lock the query is not looked at again
  · have htimeout : ∀ c ∈ bytes "lock_timeout", c < 128 := by decide
    have hmessage : IsUtf8 (cstr (snprintf 128 (bytes "Lock wait timeout exceeded"))) :=
      isUtf8_ascii (by decide)
    refine iff_of_true ((isUtf8_text_error_iff htimeout).mpr hmessage) fun hgranted => ?_
    rw [hlock] at hgranted
    cases hgranted
  · have houtcome := sqlOutcome_of_run hm hn hok hrun
    rw [houtcome.isUtf8_text_iff hm hquery hnames hanswers.rowsAt]
    exact ⟨fun h _ => h, fun h => h hlock⟩

end Servers

/-- UTF-8 in, UTF-8 out, as far as excerpts are whole: on every server that was only asked in UTF-8
and for every further query in UTF-8, the names that are stored stay valid, and the body is valid
if and only if, should the query get its lock, no character of it goes on where it is cut: behind
63 bytes of a longer string, or behind 63 bytes of the line where the parser gives up. -/
theorem apiBuildExecutionResponse_utf8_iff {server : DBServer}
    (hserver : server.ReachableBy IsUtf8) (granted : Bool) {query : Cursor}
    (hquery : IsUtf8 query) :
    ∃ execution server' rows response,
      dbServerExecute granted query server = some (execution, server') ∧
      server'.memory.rows? = some rows ∧ (∀ row ∈ rows, IsUtf8 row.name) ∧
      (apiBuildExecutionResponse execution).run server'.memory =
        some (some response, server'.memory) ∧
      response.contentType = apiContentType ∧
      (IsUtf8 response.body ↔
        (dbServerTryAcquireLock (dbServerClassifyQuery query) granted = true → WholeChars query)) := by
  obtain ⟨execution, server', found, hexecute, hok, hanswers, hutf8⟩ :=
    dbServerExecute_utf8_iff hserver granted hquery
  obtain ⟨-, rows, hm, -, hnames⟩ := (hserver.execute granted (fun _ => hquery) hexecute).utf8Names
  have hresponse := run_apiBuildExecutionResponse hok hanswers.typed hanswers.select
  exact ⟨execution, server', rows.contents, _, hexecute, hm.toHoldsRows.rows?, hnames, hresponse,
    rfl, hutf8⟩

/-- The name has two characters, three bytes each, and the age is missing. -/
theorem apiBuildExecutionResponse_utf8_iff_noAge :
    let query := bytes "INSERT INTO users VALUES ('" ++ String.utf8EncodeChar '가' ++
      String.utf8EncodeChar '나' ++ bytes "', x);"
    ∃ execution server' rows response,
      dbServerExecute true query dbServerInit = some (execution, server') ∧
      server'.memory.rows? = some rows ∧ (∀ row ∈ rows, IsUtf8 row.name) ∧
      (apiBuildExecutionResponse execution).run server'.memory =
        some (some response, server'.memory) ∧
      response.contentType = apiContentType ∧
      (IsUtf8 response.body ↔
        (dbServerTryAcquireLock (dbServerClassifyQuery query) true = true → WholeChars query)) :=
  apiBuildExecutionResponse_utf8_iff .init true
    ((((isUtf8_ascii (by decide)).append (isUtf8_char '가')).append (isUtf8_char '나')).append
      (isUtf8_ascii (by decide)))

/-- A name of 64 bytes: `sql_parse_string` gives up behind the 63rd, which is within the last
character, and the excerpt starts there. -/
theorem apiBuildExecutionResponse_halfCharacter :
    let query := bytes "INSERT INTO users VALUES ('a" ++
      (List.replicate 21 (String.utf8EncodeChar '가')).flatten ++ bytes "', 30);"
    IsUtf8 query ∧ ∃ execution server' response,
      dbServerExecute true query dbServerInit = some (execution, server') ∧
      (apiBuildExecutionResponse execution).run server'.memory =
        some (some response, server'.memory) ∧
      response.contentType = apiContentType ∧ ¬ IsUtf8 response.body := by
  intro query
  have hquery : IsUtf8 query := by
    have hname : ∀ text ∈ List.replicate 21 (String.utf8EncodeChar '가'), IsUtf8 text := by
      intro text htext
      rw [List.eq_of_mem_replicate htext]
      exact isUtf8_char '가'
    exact ((isUtf8_ascii (by decide)).append (IsUtf8.flatten hname)).append
      (isUtf8_ascii (by decide))
  -- the 64th byte of the name is the last of a character
  have hstop : SqlStopsAt query .string (query.drop 90) := by
    have hquery : query = bytes "INSERT INTO users VALUES ('" ++
        ((query.drop 27).take 63 ++ query.drop 90) := by decide +kernel
    rw [hquery]
    exact sqlStopsAt_longName (by decide +kernel) (by decide +kernel) (by decide +kernel)
      (by decide +kernel) (by decide +kernel)
  have hcut : ¬ WholeChars query := fun h => absurd (h.string _ hstop) (by decide +kernel)
  obtain ⟨execution, server', found, hexecute, hok, hanswers, hutf8⟩ :=
    dbServerExecute_utf8_iff .init true hquery
  refine ⟨hquery, execution, server', _, hexecute,
    run_apiBuildExecutionResponse hok hanswers.typed hanswers.select, rfl, fun hbody => ?_⟩
  exact hcut (hutf8.mp hbody (Bool.or_true _))

end SqlApi.Server

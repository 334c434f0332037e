import SqlApi.Cli.Main
import SqlApi.Server.DBServer

/-!
# `server.c`: statements from standard input

Without `--serve` and `--query` the server reads standard input like the interactive program,
with a buffer of 512 bytes. It is the only thread then, so every lock is free.

The loop is the one of `Repl`, with a buffer of another size than the interactive program has.
-/

namespace SqlApi.Server

open SqlApi.Lib SqlApi.Core SqlApi.Cli

/-! ## The program -/

/-- One row of an answer. -/
def serverPrintRow (record : Record) : List UInt8 :=
  bytes "ROW id=" ++ decimal record.id ++ bytes " name=" ++ cstr record.name ++ bytes " age=" ++
    decimal record.age ++ bytes "\n"

/-- The first line of an answer to SELECT. -/
def serverPrintSelect (rowCount : Nat) (usedIndex : Bool) : List UInt8 :=
  bytes "OK SELECT rows=" ++ decimal rowCount ++ bytes " used_index=" ++
    bytes (if usedIndex then "true" else "false") ++ bytes "\n"

/-- An error in an answer. -/
def serverPrintError (errorType : String) (message : List UInt8) : List UInt8 :=
  bytes "ERROR type=" ++ bytes errorType ++ bytes " message=" ++ message ++ bytes "\n"

/-- `server_print_execution`: the return value, and what is printed. -/
def serverPrintExecution (execution : DBServerExecution) : Prog (Bool × List UInt8) :=
  let result := execution.result
  if execution.serverStatus = .lockTimeout then
    return (true, serverPrintError "lock_timeout" execution.message)
  else
    match result.status with
    | .ok =>
      match result.action with
      | .insert =>
        return (true, bytes "OK INSERT id=" ++ decimal result.insertedId ++
          bytes " used_index=false\n")
      | .selectRows => do
        let rows ← printRecords serverPrintRow (result.records.take result.rowCount)
        return (true, serverPrintSelect result.rowCount execution.usedIndex ++ rows)
      | .none => return (true, bytes "OK DONE\n")
    | .notFound => return (true, serverPrintSelect 0 execution.usedIndex)
    -- only here the loop is told to end
    | .exit => return (false, bytes "BYE\n")
    | .syntaxError => return (true, serverPrintError "syntax" result.errorMessage)
    | .queryError => return (true, serverPrintError "query" result.errorMessage)
    | .error =>
      return (true, serverPrintError "internal"
        (if result.errorMessage ≠ [] then result.errorMessage else bytes "Execution error"))

/-- What the loop changes: the output so far, and the server. -/
structure StdinState where
  output : List UInt8
  server : DBServer

/-- `server_run_query`, on a server whose lock is free. -/
def serverRunQuery (query : Cursor) (s : StdinState) : Option (Bool × StdinState) :=
  (dbServerExecute true query s.server).bind fun (execution, server) =>
    ((serverPrintExecution execution).run server.memory).map fun ((goesOn, text), memory) =>
      (goesOn, ⟨s.output ++ text, { server with memory }⟩)

/-- What is printed at the start. -/
def serverBanner : List UInt8 :=
  bytes "SQL server harness ready.\n" ++ bytes "Type EXIT or QUIT to stop.\n"

/-- `server_run_stdin`, with the statements that it executed. -/
def serverRunStdin (stream : List UInt8) (server : DBServer) :
    Option (List (Piece UInt8) × StdinState) :=
  replLoop 512 serverRunQuery stream ⟨serverBanner, server⟩

/-! ## Its steps -/

section Step

variable {query : Cursor} {execution : DBServerExecution} {m m' : Memory}

/-- Printing reads the table only. -/
theorem serverPrintExecution_returns {r : Bool × List UInt8}
    (h : (serverPrintExecution execution).run m = some (r, m'))
    (hlock : execution.serverStatus ≠ .lockTimeout) :
    (!r.1) = (execution.result.status == .exit) := by
  unfold serverPrintExecution at h
  dsimp only at h
  rw [if_neg hlock] at h
  cases hstatus : execution.result.status with
  | ok =>
    rw [hstatus] at h
    cases haction : execution.result.action with
    | selectRows =>
      rw [haction] at h
      dsimp only at h
      rw [Prog.run, Program.run_bind] at h
      obtain ⟨⟨rows, m₁⟩, -, h⟩ := Option.bind_eq_some_iff.mp h
      cases h
      rfl
    | insert =>
      rw [haction] at h
      cases h
      rfl
    | none =>
      rw [haction] at h
      cases h
      rfl
  | _ =>
    rw [hstatus] at h
    cases h
    rfl

/-- The loop stops at EXIT and nowhere else. -/
theorem serverRunQuery_stops {s : StdinState} {r : Bool × StdinState}
    (h : serverRunQuery query s = some r) : (!r.1) = isExit query := by
  obtain ⟨⟨execution, server⟩, hexecute, h⟩ := Option.bind_eq_some_iff.mp h
  obtain ⟨⟨printed, m₁⟩, hprint, rfl⟩ := Option.map_eq_some_iff.mp h
  rcases dbServerExecute_eq_some hexecute with ⟨hlock, -, -⟩ | ⟨-, result, hsql, rfl⟩
  · -- nobody else holds the lock
    simp [dbServerTryAcquireLock] at hlock
  · rw [← status_eq_exit hsql]
    exact serverPrintExecution_returns hprint nofun

theorem run_serverPrintExecution
    (hrecords : ∀ p ∈ execution.result.records, (m.record? p).isSome) :
    ∃ r, (serverPrintExecution execution).run m = some (r, m) := by
  obtain ⟨rows, hrows⟩ := run_printRecords serverPrintRow fun p hp =>
    hrecords p (List.mem_of_mem_take hp)
  unfold serverPrintExecution
  dsimp only
  split
  · exact ⟨_, rfl⟩
  cases execution.result.status with
  | ok =>
    cases execution.result.action with
    | selectRows => exact ⟨_, run_bind_of hrows _⟩
    | insert => exact ⟨_, rfl⟩
    | none => exact ⟨_, rfl⟩
  | _ => exact ⟨_, rfl⟩

/-- On a server that has only answered queries a round always comes to its end. -/
theorem serverRunQuery_total (query : Cursor) {s : StdinState} (hs : s.server.Reachable) :
    ∃ r, serverRunQuery query s = some r ∧ r.2.server.Reachable := by
  obtain ⟨hok, rows, hm, hn⟩ := hs.inv
  obtain ⟨result, m', hsql, houtcome⟩ := run_sqlExecute hm hn hok query
  have hlock : dbServerTryAcquireLock (dbServerClassifyQuery query) true = true := by
    simp [dbServerTryAcquireLock]
  obtain ⟨metrics, hexecute⟩ := dbServerExecute_of_lock hlock hsql
  obtain ⟨r, hprint⟩ : ∃ r, (serverPrintExecution (dbServerDone (dbServerBegin query) result)).run
      m' = some (r, m') := run_serverPrintExecution (records_of_outcome houtcome hm)
  refine ⟨(r.1, ⟨s.output ++ r.2, ⟨m', metrics⟩⟩), ?_, .execute true query _ hs hexecute⟩
  rw [serverRunQuery, hexecute, Option.bind_some]
  dsimp only
  rw [hprint]
  rfl

end Step

/-- The program comes to an end on every input. -/
theorem serverRunStdin_total (stream : List UInt8) :
    ∃ statements s, serverRunStdin stream dbServerInit = some (statements, s) := by
  obtain ⟨statements, s, hrun, -⟩ : ∃ statements s',
      replLoop 512 serverRunQuery stream ⟨serverBanner, dbServerInit⟩ = some (statements, s') ∧
        s'.server.Reachable :=
    replLoop_total (I := fun s : StdinState => s.server.Reachable)
      (fun query _ hs => serverRunQuery_total query hs) .init stream
  exact ⟨statements, s, hrun⟩

/-! ## One line is one statement -/

section Statements

variable {stream : List UInt8}

/-- On a stream without a NUL, both programs come to an end, and whatever they start from, each
executes the lines of the stream up to the first EXIT, every line whole and once and none that
is too long for the buffer, if and only if none of these lines is too long. -/
theorem repl_passesLines_iff (hstream : 0 ∉ stream) :
    ((∃ statements s, serverRunStdin stream dbServerInit = some (statements, s)) ∧
      ∀ server statements s, serverRunStdin stream server = some (statements, s) →
        (PassesLines isNewline 512 isExit stream statements ↔
          LinesFit isNewline 512 isExit stream)) ∧
    ((∃ statements s, cliMain stream tableCreate = some (statements, s)) ∧
      ∀ table statements s, cliMain stream table = some (statements, s) →
        (PassesLines isNewline 256 isExit stream statements ↔
          LinesFit isNewline 256 isExit stream)) :=
  ⟨⟨serverRunStdin_total stream, fun _ _ _ h =>
      replLoop_passesLines_iff (by decide) (fun _ _ _ => serverRunQuery_stops) hstream h⟩,
    cliMain_total stream, fun _ _ _ h =>
      replLoop_passesLines_iff (by decide) (fun _ _ _ => step_stops) hstream h⟩

/-- A session that ends before its last line. -/
theorem repl_passesLines_iff_session :
    let stream := bytes "SELECT * FROM users;\nQUIT\nEXIT"
    0 ∉ stream ∧ ∃ statements s, serverRunStdin stream dbServerInit = some (statements, s) ∧
      (PassesLines isNewline 512 isExit stream statements ↔
        LinesFit isNewline 512 isExit stream) := by
  intro stream
  have hstream : 0 ∉ stream := by decide
  obtain ⟨⟨⟨statements, s, hrun⟩, hiff⟩, -⟩ := repl_passesLines_iff hstream
  exact ⟨hstream, statements, s, hrun, hiff _ _ _ hrun⟩

/-- What follows a word of 511 bytes on its line is executed as a statement of its own. -/
theorem serverRunStdin_splitLine :
    let stream := List.replicate 511 (byte 'x') ++ bytes "EXIT\n"
    ∃ statements s, serverRunStdin stream dbServerInit = some (statements, s) ∧
      statements = [⟨0, List.replicate 511 (byte 'x')⟩, ⟨511, bytes "EXIT\n"⟩] ∧
      ¬ PassesLines isNewline 512 isExit stream statements := by
  have hword : isExit (List.replicate 511 (byte 'x')) = false := by decide +kernel
  have hend : ∀ c ∈ List.replicate 511 (byte 'x'), isNewline c = false := fun c hc => by
    rw [List.eq_of_mem_replicate hc]
    rfl
  have hzero : 0 ∉ List.replicate 511 (byte 'x') := fun hc =>
    absurd (List.eq_of_mem_replicate hc) (by decide)
  have hlength : (List.replicate 511 (byte 'x')).length = 511 := List.length_replicate
  generalize List.replicate 511 (byte 'x') = word at hword hend hzero hlength
  intro stream
  have hstream : 0 ∉ stream := fun hc => (List.mem_append.mp hc).elim hzero (by decide)
  have hrest : bytes "EXIT\n" ≠ [] := by decide
  have hexit : isExit (bytes "EXIT\n") = true := by decide +kernel
  have hstops : ∀ query s r, serverRunQuery query s = some r → (!r.1) = isExit query :=
    fun _ _ _ => serverRunQuery_stops
  have hpieces : piecesAt isNewline 512 stream.length 0 stream =
      [⟨0, word⟩, ⟨511, bytes "EXIT\n"⟩] := by
    have hfuel : stream.length = 515 + 1 := by
      rw [List.length_append, hlength]
      rfl
    rw [hfuel, piecesAt_append (by rw [hlength]) hend hrest, hlength]
    rfl
  obtain ⟨statements, s, hrun⟩ := serverRunStdin_total stream
  refine ⟨statements, s, hrun, ?_, fun hpasses => ?_⟩
  · rw [replLoop_statements (by decide) hstops hstream hrun, hpieces]
    simp only [takeThrough, hword, hexit, Bool.false_eq_true, if_false, if_true]
  · -- the line has 516 bytes and is not left out, as no line stands before it
    have hfit := (replLoop_passesLines_iff (by decide) hstops hstream hrun).mp hpasses
    have hne : stream ≠ [] := List.append_ne_nil_of_right_ne_nil word hrest
    have hline : lineLength isNewline stream = 516 := by
      rw [lineLength_append hend, hlength]
      rfl
    obtain ⟨lines, hhead⟩ := takeThrough_cons (isExit ·.text)
      ⟨0, stream.take (lineLength isNewline stream)⟩
      (linesAt isNewline (0 + lineLength isNewline stream)
        (stream.drop (lineLength isNewline stream)))
    rw [LinesFit, linesAt_eq hne, hhead] at hfit
    have hfirst := hfit _ (List.mem_cons_self ..)
    have hle : lineLength isNewline stream ≤ stream.length := lineLength_le stream
    rw [List.length_take, Nat.min_eq_left hle, hline] at hfirst
    exact absurd hfirst (by decide)

end Statements

end SqlApi.Server

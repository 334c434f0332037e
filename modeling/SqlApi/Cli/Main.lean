import SqlApi.Core.Repl
import SqlApi.Server.DBServer

/-!
# `main.c`: the interactive program

`main` prompts, reads with a buffer of 256 bytes, executes what it has read on its table and
prints the answer, until EXIT or the end of the input.

The loop is the one of `Repl`; what is printed does not influence what is executed.
-/

namespace SqlApi.Cli

open SqlApi.Lib SqlApi.Core SqlApi.Server

/-! ## The program -/

/-- `INPUT_BUFFER_SIZE` -/
abbrev inputBufferSize : Nat := 256

/-- `table_print_record` -/
def tablePrintRecord (record : Record) : List UInt8 :=
  bytes "id=" ++ decimal record.id ++ bytes ", name='" ++ cstr record.name ++ bytes "', age=" ++
    decimal record.age ++ bytes "\n"

/-- `table_print_records`: what is printed, and the return value. -/
def tablePrintRecords (records : List RecPtr) (rowCount : Nat) : Prog (List UInt8 × Nat) := do
  return (← printRecords tablePrintRecord (records.take rowCount), rowCount)

/-- What is printed before the first prompt. -/
def banner : List UInt8 :=
  bytes "Simple SQL Processor with B+ Tree Index\n" ++
  bytes "Supported statements:\n" ++
  bytes "  INSERT INTO users VALUES ('Alice', 20);\n" ++
  bytes "  SELECT * FROM users;\n" ++
  bytes "  SELECT * FROM users WHERE id = 1;\n" ++
  bytes "  SELECT * FROM users WHERE id >= 10;\n" ++
  bytes "  SELECT * FROM users WHERE name = 'Alice';\n" ++
  bytes "  SELECT * FROM users WHERE age = 20;\n" ++
  bytes "  SELECT * FROM users WHERE age > 20;\n" ++
  bytes "Type EXIT or QUIT to leave.\n"

def prompt : List UInt8 := bytes "sql> "

/-- The answer to a result that is not EXIT. -/
def printResult (result : SQLResult) : Prog (List UInt8) :=
  match result.status with
  | .ok =>
    match result.action with
    | .insert =>
      return bytes "Inserted row with id = " ++ decimal result.insertedId ++ bytes "\n"
    | .selectRows => do
      let (text, printed) ← tablePrintRecords result.records result.rowCount
      return if printed = 0 then text ++ bytes "No rows\n" else text
    | .none => return bytes "Done\n"
  | .notFound => return bytes "Not found\n"
  | status =>
    -- a message of the executor is printed as it is; without one, a fixed text
    if result.errorMessage ≠ [] then return result.errorMessage ++ bytes "\n"
    else if status = .syntaxError then return bytes "Syntax error\n"
    else return bytes "Execution error\n"

/-- The body of the loop behind `fgets`, and the prompt of the next round: whether the loop goes
on, and what is printed. -/
def executeInput (input : Cursor) : Prog (Bool × List UInt8) := do
  let result ← sqlExecute input
  if result.status = .exit then return (false, [])
  else return (true, (← printResult result) ++ prompt)

/-- What the loop changes: the output so far, and the memory with the table. -/
structure CliState where
  output : List UInt8
  memory : Memory

def CliState.step (input : Cursor) (s : CliState) : Option (Bool × CliState) :=
  ((executeInput input).run s.memory).map fun ((goesOn, text), memory) =>
    (goesOn, ⟨s.output ++ text, memory⟩)

/-- `main` from when there is a table, with the statements that it executed. -/
def cliMain (stream : List UInt8) (table : Memory) : Option (List (Piece UInt8) × CliState) :=
  replLoop inputBufferSize CliState.step stream ⟨banner ++ prompt, table⟩

/-! ## Its steps -/

section Step

variable {m : Memory} {rows : Rows} {input : Cursor} {result : SQLResult}

/-- The loop stops at EXIT and nowhere else. -/
theorem step_stops {s : CliState} {r : Bool × CliState} (h : CliState.step input s = some r) :
    (!r.1) = isExit input := by
  obtain ⟨⟨⟨goesOn, text⟩, m'⟩, hrun, rfl⟩ := Option.map_eq_some_iff.mp h
  rw [executeInput, Prog.run, Program.run_bind] at hrun
  obtain ⟨⟨result, m₁⟩, hexecute, hrun⟩ := Option.bind_eq_some_iff.mp hrun
  rw [← status_eq_exit hexecute]
  dsimp only at hrun ⊢
  split at hrun
  next hexit =>
    cases hrun
    rw [hexit]
    rfl
  next hother =>
    rw [Program.run_bind] at hrun
    obtain ⟨⟨printed, m₂⟩, -, hrun⟩ := Option.bind_eq_some_iff.mp hrun
    cases hrun
    simpa using hother

/-- The records of a result are there. -/
theorem records_of_outcome {m' : Memory} (h : SqlOutcome input m rows result m')
    (hm : TableInv m rows) : ∀ p ∈ result.records, (m'.record? p).isSome := by
  cases h with
  | error hparse _ =>
    rw [(sqlParse_error_noRows hparse).2.1]
    exact nofun
  | select query found _ hfound hresult hsame =>
    rw [hresult, hsame]
    intro p hp
    obtain ⟨row, hrow, rfl⟩ := List.mem_map.mp hp
    rw [hm.live row (hfound hrow)]
    rfl
  | insert name age record _ hresult _ _ =>
    rw [hresult]
    exact nofun
  | full name age _ _ hresult _ _ =>
    rw [hresult]
    exact nofun

theorem run_printResult {m' : Memory} (hrecords : ∀ p ∈ result.records, (m'.record? p).isSome) :
    ∃ text, (printResult result).run m' = some (text, m') := by
  obtain ⟨text, htext⟩ := run_printRecords tablePrintRecord fun p hp =>
    hrecords p (List.mem_of_mem_take (i := result.rowCount) hp)
  unfold printResult
  cases result.status with
  | ok =>
    cases result.action with
    | insert => exact ⟨_, rfl⟩
    | selectRows =>
      have hprint : (tablePrintRecords result.records result.rowCount).run m' =
          some ((text, result.rowCount), m') := run_bind_of htext _
      exact ⟨_, run_bind_of hprint _⟩
    | none => exact ⟨_, rfl⟩
  | notFound => exact ⟨_, rfl⟩
  | _ =>
    dsimp only
    split
    · exact ⟨_, rfl⟩
    · split
      · exact ⟨_, rfl⟩
      · exact ⟨_, rfl⟩

/-- There is memory for everything, and the table is in order. -/
def CliState.Ready (s : CliState) : Prop :=
  s.memory.NoFailure ∧ ∃ rows, TableInv s.memory rows ∧ Numbered s.memory rows

/-- Then a round always comes to its end. -/
theorem step_total (input : Cursor) {s : CliState} (hs : s.Ready) :
    ∃ r, CliState.step input s = some r ∧ r.2.Ready := by
  obtain ⟨hok, rows, hm, hn⟩ := hs
  obtain ⟨result, m', hexecute, houtcome⟩ := run_sqlExecute hm hn hok input
  obtain ⟨text, hprint⟩ := run_printResult (records_of_outcome houtcome hm)
  have hrun : ∃ answer, (executeInput input).run s.memory = some (answer, m') := by
    unfold executeInput
    rw [run_bind_of hexecute]
    split
    · exact ⟨_, rfl⟩
    · exact ⟨_, run_bind_of hprint _⟩
  obtain ⟨answer, hrun⟩ := hrun
  refine ⟨_, by rw [CliState.step, hrun]; rfl, hok.run hexecute, houtcome.inv hm hn⟩

end Step

/-- The program comes to an end on every input. -/
theorem cliMain_total (stream : List UInt8) :
    ∃ statements s, cliMain stream tableCreate = some (statements, s) := by
  have hready : (⟨banner ++ prompt, tableCreate⟩ : CliState).Ready :=
    ⟨rfl, [], tableCreate_inv, tableCreate_numbered⟩
  obtain ⟨statements, s, hrun, -⟩ : ∃ statements s',
      replLoop inputBufferSize CliState.step stream ⟨banner ++ prompt, tableCreate⟩ =
        some (statements, s') ∧ s'.Ready :=
    replLoop_total (fun input _ hs => step_total input hs) hready stream
  exact ⟨statements, s, hrun⟩

end SqlApi.Cli

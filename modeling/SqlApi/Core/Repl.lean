import SqlApi.Core.SqlSpec
import SqlApi.Lib.Lines

/-!
# Reading statements from standard input

Two programs read standard input with `fgets` into a buffer and pass what is in the buffer to
the engine, until the engine answers EXIT. What is passed depends on the bytes and on the size
of the buffer only.
-/

namespace SqlApi.Core

open SqlApi.Lib

/-! ## The loop -/

/-- Where `fgets` ends a line. -/
def isNewline (c : UInt8) : Bool := c == byte '\n'

/-- Whether `sql_execute` answers EXIT. -/
def isExit (input : Cursor) : Bool :=
  match sqlParse input with
  | .error result => result.status == .exit
  | .ok _ => false

/-- A loop that passes what `fgets` puts into a buffer of this size to the engine, with the
statements that were passed: what is in the buffer, up to the terminator. -/
def replLoop {σ : Type} (size : Nat) (execute : Cursor → σ → Option (Bool × σ))
    (stream : List UInt8) (s : σ) : Option (List (Piece UInt8) × σ) :=
  (readLoop isNewline size (fun input => execute (cstr input)) stream.length 0 stream s).map
    fun (pieces, s) => (pieces.map fun piece => { piece with text := cstr piece.text }, s)

/-- The records of a result, a line each. -/
def printRecords (line : Record → List UInt8) : List RecPtr → Prog (List UInt8)
  | [] => pure []
  | p :: records => do
    let record ← getRecord p
    return line record ++ (← printRecords line records)

/-! ## EXIT -/

section Exit

variable {m m' : Memory} {input : Cursor} {result : SQLResult}

/-- A statement that is executed does not end the session. -/
theorem SqlStatement.status_exec {statement : SqlStatement}
    (hrun : statement.exec.run m = some (result, m')) : result.status ≠ .exit := by
  have hselect {query : Prog (Option (List RecPtr))} {empty : SQLStatus} (hempty : empty ≠ .exit)
      (h : (sqlSelectResult empty <$> query).run m = some (result, m')) :
      result.status ≠ .exit := by
    rw [Prog.run, Program.run_map] at h
    obtain ⟨⟨found, m₁⟩, -, heq⟩ := Option.map_eq_some_iff.mp h
    obtain ⟨rfl, -⟩ := Prod.mk.inj heq
    cases found with
    | none => rintro ⟨⟩
    | some records => cases records <;> simp [sqlSelectResult, hempty]
  cases statement with
  | insert name age =>
    -- either the row is refused, with an error, or inserted
    rw [exec, sqlInsertRow, Prog.run, Program.run_bind] at hrun
    obtain ⟨⟨inserted, m₁⟩, -, hrun⟩ := Option.bind_eq_some_iff.mp hrun
    cases inserted with
    | none =>
      cases hrun
      rintro ⟨⟩
    | some record =>
      rw [Program.run_bind] at hrun
      obtain ⟨⟨stored, m₂⟩, -, hrun⟩ := Option.bind_eq_some_iff.mp hrun
      cases hrun
      rintro ⟨⟩
  | select rows =>
    cases rows with
    | all => exact hselect (by decide) hrun
    | byId comparison id => exact hselect (by decide) hrun
    | byName name => exact hselect (by decide) hrun
    | byAge comparison age => exact hselect (by decide) hrun

/-- Whether a text ends the session is decided by the text. -/
theorem status_eq_exit (hrun : (sqlExecute input).run m = some (result, m')) :
    (result.status == .exit) = isExit input := by
  rw [sqlExecute_eq] at hrun
  unfold isExit
  cases hparse : sqlParse input with
  | error error =>
    rw [hparse] at hrun
    cases hrun
    rfl
  | ok statement =>
    rw [hparse] at hrun
    simpa using SqlStatement.status_exec hrun

end Exit

/-! ## Lines and statements -/

/-- What a loop passes whose engine stops at EXIT depends on the stream only. -/
theorem replLoop_statements {σ : Type} {size : Nat} (hsize : 2 ≤ size)
    {execute : Cursor → σ → Option (Bool × σ)}
    (hexecute : ∀ input s r, execute input s = some r → (!r.1) = isExit input)
    {stream : List UInt8} (hstream : 0 ∉ stream) {s s' : σ} {statements : List (Piece UInt8)}
    (h : replLoop size execute stream s = some (statements, s')) :
    statements =
      takeThrough (isExit ·.text) (piecesAt isNewline size stream.length 0 stream) := by
  obtain ⟨⟨pieces, s₁⟩, hloop, heq⟩ := Option.map_eq_some_iff.mp h
  obtain ⟨rfl, -⟩ := Prod.mk.inj heq
  have hstep : ∀ text s r, execute (cstr text) s = some r → (!r.1) = (isExit ∘ cstr) text :=
    fun text s r => hexecute (cstr text) s r
  -- without a NUL the buffer holds what was read and nothing else
  have hall : (piecesAt isNewline size stream.length 0 stream).flatMap Piece.text = stream :=
    flatMap_piecesAt hsize le_rfl 0
  have hwhole : ∀ piece ∈ piecesAt isNewline size stream.length 0 stream,
      cstr piece.text = piece.text := fun piece hpiece => cstr_eq_self fun hzero => by
    have hmem := List.mem_flatMap.mpr ⟨piece, hpiece, hzero⟩
    rw [hall] at hmem
    exact hstream hmem
  have hstops : ∀ piece ∈ piecesAt isNewline size stream.length 0 stream,
      (isExit ∘ cstr) piece.text = isExit piece.text := fun piece hpiece =>
    congrArg isExit (hwhole piece hpiece)
  rw [readLoop_pieces hstep hloop, takeThrough_congr hstops]
  refine (List.map_congr_left fun piece hpiece => ?_).trans (List.map_id _)
  rw [hwhole piece ((takeThrough_sublist _ _).subset hpiece)]
  rfl

/-- It passes exactly the lines of the stream, but for those that are too long, if and only if
no line up to the first EXIT is too long. -/
theorem replLoop_passesLines_iff {σ : Type} {size : Nat} (hsize : 2 ≤ size)
    {execute : Cursor → σ → Option (Bool × σ)}
    (hexecute : ∀ input s r, execute input s = some r → (!r.1) = isExit input)
    {stream : List UInt8} (hstream : 0 ∉ stream) {s s' : σ} {statements : List (Piece UInt8)}
    (h : replLoop size execute stream s = some (statements, s')) :
    PassesLines isNewline size isExit stream statements ↔
      LinesFit isNewline size isExit stream := by
  rw [PassesLines, replLoop_statements hsize hexecute hstream h]
  exact takeThrough_piecesAt_iff hsize isExit le_rfl 0

/-- It always comes to an end where the engine always answers. -/
theorem replLoop_total {σ : Type} {size : Nat} {execute : Cursor → σ → Option (Bool × σ)}
    {I : σ → Prop} (hexecute : ∀ input s, I s → ∃ r, execute input s = some r ∧ I r.2) {s : σ}
    (hs : I s) (stream : List UInt8) :
    ∃ statements s', replLoop size execute stream s = some (statements, s') ∧ I s' := by
  obtain ⟨⟨pieces, s'⟩, hloop, hs'⟩ : ∃ r, readLoop isNewline size
      (fun input => execute (cstr input)) stream.length 0 stream s = some r ∧ I r.2 :=
    readLoop_total (fun text s => hexecute (cstr text) s) hs stream.length 0 stream
  exact ⟨_, s', by rw [replLoop, hloop]; rfl, hs'⟩

/-- Records that are there are printed. -/
theorem run_printRecords {m : Memory} (line : Record → List UInt8) {records : List RecPtr}
    (hrecords : ∀ p ∈ records, (m.record? p).isSome) :
    ∃ text, (printRecords line records).run m = some (text, m) := by
  induction records with
  | nil => exact ⟨[], rfl⟩
  | cons p records ih =>
    obtain ⟨hp, hrest⟩ := List.forall_mem_cons.mp hrecords
    obtain ⟨record, hrecord⟩ := Option.isSome_iff_exists.mp hp
    obtain ⟨text, htext⟩ := ih hrest
    refine ⟨line record ++ text, ?_⟩
    have hget : (getRecord p).run m = some (record, m) := by
      rw [run_getRecord, hrecord]
      rfl
    rw [printRecords, run_bind_of hget, run_bind_of htext]
    rfl

end SqlApi.Core

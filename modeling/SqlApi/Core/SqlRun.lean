import SqlApi.Core.SqlText

/-!
# The engine as a list of rows

The reference model of the users table: a list of rows, where INSERT appends and
SELECT filters. A run of `sql_execute` on the texts of some statements, from an empty
table, gives at every step the answer of the reference model and leaves its rows in
the table.

## How the proof goes

A step lemma says that one statement on a table that holds the rows of the list gives the answer of
the list and leaves the rows of the list behind. The run is an induction over the statements. The
bound on the number of INSERTs keeps the ids in the range of an `int`, so that the id of a row is
its place in the list.
-/

namespace SqlApi.Core

open SqlApi.Lib

/-! ## Reference model -/

/-- A row of the users table. -/
structure Row where
  id : Int
  name : List UInt8
  age : Int
  deriving DecidableEq, Repr

/-- An answer: a result with rows in place of pointers. -/
structure Answer where
  status : SQLStatus
  action : SQLAction
  record : Option Row
  records : List Row
  insertedId : Int
  rowCount : Nat
  errorCode : Int
  sqlState : List UInt8
  errorMessage : List UInt8
  deriving DecidableEq, Repr

/-- The condition of a SELECT. -/
def SqlSelect.condition : SqlSelect → Row → Bool
  | .all, _ => true
  | .byId comparison id, row => tableCompareInt row.id comparison id
  | .byName name, row => row.name == name
  | .byAge comparison age, row => tableCompareInt row.age comparison age

/-- A statement on a list of rows: its answer and the rows afterwards. -/
def SqlStatement.reference (rows : List Row) : SqlStatement → Answer × List Row
  | .insert name age =>
    let row : Row := ⟨rows.length + 1, name, age⟩
    ({ status := .ok, action := .insert, record := some row, records := [], insertedId := row.id,
       rowCount := 1, errorCode := 0, sqlState := [], errorMessage := [] }, rows ++ [row])
  | .select query =>
    let found := rows.filter query.condition
    ({ status := if found = [] ∧ query ≠ .all then .notFound else .ok, action := .selectRows,
       record := found.head?, records := found, insertedId := 0, rowCount := found.length,
       errorCode := 0, sqlState := [], errorMessage := [] }, rows)

/-- The answers and the rows after each statement. -/
def referenceTrace : List SqlStatement → List Row → List (Answer × List Row)
  | [], _ => []
  | statement :: rest, rows =>
    let step := statement.reference rows
    step :: referenceTrace rest step.2

/-- Is it an INSERT? -/
def SqlStatement.isInsert : SqlStatement → Bool
  | .insert _ _ => true
  | .select _ => false

/-! ## What the code shows -/

/-- The row in a record. -/
def Record.row (r : Record) : Row := ⟨r.id, cstr r.name, r.age⟩

/-- The rows behind some pointers. -/
def Memory.rowsAt (m : Memory) (records : List RecPtr) : Option (List Row) :=
  records.mapM fun p => (m.record? p).map Record.row

/-- The rows of the table. -/
def Memory.rows? (m : Memory) : Option (List Row) :=
  (m.table.rows.take m.table.size).mapM fun slot => slot.bind fun p => (m.record? p).map Record.row

/-- The answer in a result. -/
def SQLResult.answer (m : Memory) (result : SQLResult) : Option Answer := do
  let record ← result.record.mapM fun p => (m.record? p).map Record.row
  let records ← m.rowsAt result.records
  pure {
    status := result.status
    action := result.action
    record
    records
    insertedId := result.insertedId
    rowCount := result.rowCount
    errorCode := result.errorCode
    sqlState := result.sqlState
    errorMessage := result.errorMessage }

/-- `sql_execute` on one text after the other: each result with the memory after it. -/
def sqlTrace : List (List UInt8) → Memory → Option (List (SQLResult × Memory))
  | [], _ => some []
  | text :: rest, m => do
    let (result, m') ← (sqlExecute text).run m
    let trace ← sqlTrace rest m'
    pure ((result, m') :: trace)

/-- The rows a table holds, without the pointers. -/
def Rows.contents (rows : Rows) : List Row := rows.map fun row => row.2.row

section Refinement

variable {m : Memory} {rows : Rows}

theorem HoldsRows.rowsAt (hm : HoldsRows m rows) {found : Rows} (hfound : found ⊆ rows) :
    m.rowsAt (found.map Prod.fst) = some found.contents := by
  unfold Memory.rowsAt
  induction found with
  | nil => rfl
  | cons row found ih =>
    obtain ⟨hrow, hfound⟩ := List.cons_subset.mp hfound
    rw [List.map_cons, List.mapM_cons, hm.live row hrow, ih hfound]
    rfl

theorem HoldsRows.rows? (hm : HoldsRows m rows) : m.rows? = some rows.contents := by
  have hslots : m.table.rows.take m.table.size = (rows.map Prod.fst).map some := by
    rw [hm.size, hm.slots, List.map_map]
    rfl
  -- the slots in use are all set, so reading them is reading the records
  have hmap : ∀ ps : List RecPtr, ((ps.map some).mapM fun slot : Option RecPtr =>
      slot.bind fun p => (m.record? p).map Record.row) = m.rowsAt ps := by
    intro ps
    unfold Memory.rowsAt
    induction ps with
    | nil => rfl
    | cons p ps ih =>
      rw [List.map_cons, List.mapM_cons, ih, List.mapM_cons]
      rfl
  unfold Memory.rows?
  rw [hslots, hmap, hm.rowsAt (List.Subset.refl _)]

/-- The record of an insertion holds the row. -/
theorem newRecord_row {name : List UInt8} (hname : IsName name) (id age : Int) :
    (newRecord id name age).row = ⟨id, name, age⟩ := by
  obtain ⟨hlen, hzero, -⟩ := hname
  have htext : cstr (newRecord id name age).name = name := by
    have hle : name.length ≤ recordNameSize - 1 := by omega
    show cstr (strncpy name (recordNameSize - 1) ++ [0]) = name
    rw [cstr_strncpy, cstr_eq_self hzero, List.take_of_length_le hle]
  unfold Record.row
  rw [htext]
  rfl

/-- The code and the reference model select the same rows. -/
theorem SqlSelect.selects_eq {query : SqlSelect} (hvalid : (SqlStatement.select query).Valid)
    (r : Record) : query.selects r = query.condition r.row := by
  cases query with
  | all => rfl
  | byId comparison id => rfl
  | byName name =>
    have hname : cstr name = name := cstr_eq_self hvalid.2.1
    show (cstr r.name == cstr name) = (cstr r.name == name)
    rw [hname]
  | byAge comparison age => rfl

theorem Rows.contents_filter {query : SqlSelect} (hvalid : (SqlStatement.select query).Valid) :
    Rows.contents (rows.filter fun row => query.selects row.2) =
      rows.contents.filter query.condition := by
  unfold Rows.contents
  rw [List.filter_map]
  congr 1
  exact List.filter_congr fun row _ => query.selects_eq hvalid row.2

/-- The answer of a SELECT that found some rows of the table. -/
theorem answer_sqlSelectResult (hm : HoldsRows m rows) (query : SqlSelect) {found : Rows}
    (hfound : found ⊆ rows) :
    (sqlSelectResult query.emptyStatus (some (found.map Prod.fst))).answer m = some
      { status := if found.contents = [] ∧ query ≠ .all then .notFound else .ok
        action := .selectRows
        record := found.contents.head?
        records := found.contents
        insertedId := 0
        rowCount := found.contents.length
        errorCode := 0
        sqlState := []
        errorMessage := [] } := by
  have hrows := hm.rowsAt hfound
  cases found with
  -- without rows the status depends on the query alone
  | nil =>
    cases query <;> rfl
  | cons row found =>
    have hhead := hm.live row (hfound (List.mem_cons_self ..))
    simp only [Rows.contents, List.map_cons] at hrows
    simp [SQLResult.answer, sqlSelectResult, sqlNoResult, sqlMakeResult, hhead, hrows,
      Rows.contents]

/-- One statement: the answer and the rows of the reference model. -/
theorem TableInv.step_sqlExecute (hm : TableInv m rows) (hn : Numbered m rows) (hok : m.NoFailure)
    {statement : SqlStatement} {text : List UInt8} (hvalid : statement.Valid)
    (htext : statement.Renders text) (hroom : rows.length + 1 < 2 ^ 31) :
    ∃ result m' rows', (sqlExecute text).run m = some (result, m') ∧
      TableInv m' rows' ∧ Numbered m' rows' ∧
      result.answer m' = some (statement.reference rows.contents).1 ∧
      rows'.contents = (statement.reference rows.contents).2 := by
  rw [sqlExecute_eq, sqlParse_of_renders hvalid htext]
  cases statement with
  | insert name age =>
    obtain ⟨m', hrun, hm', hn'⟩ := hm.run_sqlInsertRow hn hok (by omega) name age
    -- the id has not wrapped around
    have hid : wrapInt (rows.length + 1) = rows.length + 1 := wrapInt_eq_self (by omega) (by omega)
    rw [hid] at hrun hm' hn'
    have hlength : (rows.contents.length : Int) = rows.length := by rw [Rows.contents, List.length_map]
    have hlive := hm'.live _ (List.mem_append_right rows (List.mem_singleton.mpr rfl))
    refine ⟨_, m', _, hrun, hm', hn', ?_, ?_⟩
    · simp only [SQLResult.answer, sqlInserted, SqlStatement.reference, hlength, Option.mapM_some,
        hlive, Option.map_some, newRecord_row hvalid.1]
      rfl
    · rw [Rows.contents, List.map_append]
      simp only [List.map_cons, List.map_nil, newRecord_row hvalid.1, SqlStatement.reference, hlength]
      rfl
  | select query =>
    obtain ⟨found, hrun, -, hfound⟩ := hm.run_select hok query
    obtain rfl := hfound (hn.ascending (by omega))
    refine ⟨_, m, rows, hrun, hm, hn, ?_, rfl⟩
    have hsub : (rows.filter fun row => query.selects row.2) ⊆ rows := List.filter_subset_self _
    have hfilter : rows.contents.filter query.condition =
        Rows.contents (rows.filter fun row => query.selects row.2) :=
      (Rows.contents_filter hvalid).symm
    unfold SqlStatement.reference
    dsimp only
    rw [hfilter]
    generalize (rows.filter fun row => query.selects row.2) = found at hsub
    exact answer_sqlSelectResult hm.toHoldsRows query hsub

/-- A run of statements: the answers and the rows of the reference model at every
step. -/
theorem TableInv.run_sqlTrace (hm : TableInv m rows) (hn : Numbered m rows) (hok : m.NoFailure)
    {statements : List SqlStatement} {texts : List (List UInt8)}
    (hvalid : ∀ statement ∈ statements, statement.Valid)
    (htexts : List.Forall₂ SqlStatement.Renders statements texts)
    (hroom : rows.length + statements.countP SqlStatement.isInsert < 2 ^ 31 - 1) :
    ∃ trace, sqlTrace texts m = some trace ∧
      List.Forall₂ (fun step expected => step.1.answer step.2 = some expected.1 ∧
        step.2.rows? = some expected.2) trace (referenceTrace statements rows.contents) := by
  -- the induction is on the statements: each step refines, and counts towards the bound
  induction htexts generalizing m rows with
  | nil => exact ⟨[], rfl, .nil⟩
  | @cons statement text statements texts htext htexts ih =>
    obtain ⟨hvalid₁, hvalid⟩ := List.forall_mem_cons.mp hvalid
    rw [List.countP_cons] at hroom
    obtain ⟨result, m₁, rows₁, hrun, hm₁, hn₁, hanswer, hrows₁⟩ :=
      hm.step_sqlExecute hn hok hvalid₁ htext (by omega)
    -- only an INSERT adds a row, and it was counted
    have hlength : rows₁.length + statements.countP SqlStatement.isInsert < 2 ^ 31 - 1 := by
      have hlen : rows₁.length = (statement.reference rows.contents).2.length := by
        rw [← hrows₁, Rows.contents, List.length_map]
      rw [hlen]
      cases statement with
      | insert name age =>
        simp only [SqlStatement.reference, SqlStatement.isInsert, if_true, List.length_append,
          List.length_singleton, Rows.contents, List.length_map] at hroom ⊢
        omega
      | select query =>
        simp only [SqlStatement.reference, SqlStatement.isInsert, Rows.contents,
          List.length_map] at hroom ⊢
        omega
    obtain ⟨trace, htrace, hsteps⟩ := ih hm₁ hn₁ (hok.run hrun) hvalid hlength
    refine ⟨(result, m₁) :: trace, ?_, ?_⟩
    · simp [sqlTrace, hrun, htrace]
    · rw [hrows₁] at hsteps
      refine .cons ⟨hanswer, ?_⟩ hsteps
      rw [hm₁.rows?, hrows₁]

end Refinement

/-! ## The reference model numbers and orders its rows -/

/-- Rows numbered 1, 2, 3 and so on. -/
def InOrder (rows : List Row) : Prop :=
  rows.map Row.id = (List.range rows.length).map fun k : Nat => (k : Int) + 1

theorem InOrder.ascending {rows : List Row} (hrows : InOrder rows) :
    (rows.map Row.id).Pairwise (· < ·) := by
  rw [show rows.map Row.id = _ from hrows, List.pairwise_map]
  refine List.pairwise_lt_range.imp fun {i j} hij => ?_
  omega

theorem InOrder.reference {rows : List Row} (hrows : InOrder rows) (statement : SqlStatement) :
    InOrder (statement.reference rows).2 := by
  cases statement with
  | insert name age =>
    unfold InOrder SqlStatement.reference
    dsimp only
    rw [List.map_append, List.length_append, List.length_singleton, List.range_succ,
      List.map_append, show rows.map Row.id = _ from hrows]
    rfl
  | select query => exact hrows

/-- Every answer lists its rows in id order. -/
theorem InOrder.referenceTrace {rows : List Row} (hrows : InOrder rows)
    (statements : List SqlStatement) :
    ∀ expected ∈ referenceTrace statements rows,
      (expected.1.records.map Row.id).Pairwise (· < ·) := by
  induction statements generalizing rows with
  | nil => exact fun _ h => nomatch h
  | cons statement statements ih =>
    intro expected hexpected
    rcases List.mem_cons.mp hexpected with rfl | hexpected
    · cases statement with
      | insert name age => exact List.Pairwise.nil
      | select query => exact hrows.ascending.sublist (List.filter_sublist.map Row.id)
    · exact ih (hrows.reference statement) expected hexpected

/-- The engine refines the reference model: any statements, written as any of their
texts and run from an empty table, are answered as by the list of rows, in id order,
and the table holds exactly its rows after every step. -/
theorem sqlExecute_refines {statements : List SqlStatement} {texts : List (List UInt8)}
    (hvalid : ∀ statement ∈ statements, statement.Valid)
    (htexts : List.Forall₂ SqlStatement.Renders statements texts)
    (hinserts : statements.countP SqlStatement.isInsert < 2 ^ 31 - 1) :
    ∃ trace, sqlTrace texts tableCreate = some trace ∧
      List.Forall₂ (fun step expected => step.1.answer step.2 = some expected.1 ∧
        step.2.rows? = some expected.2) trace (referenceTrace statements []) ∧
      ∀ expected ∈ referenceTrace statements [],
        (expected.1.records.map Row.id).Pairwise (· < ·) := by
  have hroom : (0 : Nat) + statements.countP SqlStatement.isInsert < 2 ^ 31 - 1 := by omega
  obtain ⟨trace, htrace, hsteps⟩ :=
    tableCreate_inv.run_sqlTrace tableCreate_numbered rfl hvalid htexts hroom
  have hempty : InOrder [] := rfl
  exact ⟨trace, htrace, hsteps, hempty.referenceTrace statements⟩

/-- An INSERT and two SELECTs. -/
theorem sqlExecute_refines_insert_select :
    let statements : List SqlStatement :=
      [.insert (bytes "Alice") (-20), .select (.byId .ge 1), .select (.byName (bytes "Bob"))]
    ∃ trace, sqlTrace (statements.map fun statement => sqlText statement.tokens) tableCreate =
        some trace ∧
      List.Forall₂ (fun step expected => step.1.answer step.2 = some expected.1 ∧
        step.2.rows? = some expected.2) trace (referenceTrace statements []) ∧
      ∀ expected ∈ referenceTrace statements [],
        (expected.1.records.map Row.id).Pairwise (· < ·) := by
  intro statements
  refine sqlExecute_refines ?_ ?_ (by decide)
  · intro statement hstatement
    have hname : IsName (bytes "Alice") ∧ IsName (bytes "Bob") := by
      unfold IsName
      decide
    have hint : IsInt (-20) ∧ IsInt 1 := by
      unfold IsInt
      decide
    simp only [statements, List.mem_cons, List.not_mem_nil, or_false] at hstatement
    rcases hstatement with rfl | rfl | rfl
    · exact ⟨hname.1, hint.1⟩
    · exact hint.2
    · exact hname.2
  · rw [List.forall₂_map_right_iff, List.forall₂_same]
    exact fun statement _ => statement.renders_sqlText

/-- A statement whose values can be written: the string of a condition has no quote and no NUL
in it, whatever its length. -/
def SqlStatement.Quotable : SqlStatement → Prop
  | .select (.byName name) => 0 ∉ name ∧ 39 ∉ name
  | statement => statement.Valid

/-- The bound on the string of a condition is needed: one of 64 bytes does not fit the buffer it
is parsed into. The reference model finds no row, `sql_execute` a syntax error. -/
theorem sqlExecute_refines_longName :
    ¬ ∀ (statements : List SqlStatement) (texts : List (List UInt8)),
      (∀ statement ∈ statements, statement.Quotable) →
      List.Forall₂ SqlStatement.Renders statements texts →
      statements.countP SqlStatement.isInsert < 2 ^ 31 - 1 →
      ∃ trace, sqlTrace texts tableCreate = some trace ∧
        List.Forall₂ (fun step expected => step.1.answer step.2 = some expected.1 ∧
          step.2.rows? = some expected.2) trace (referenceTrace statements []) := by
  intro h
  let statement : SqlStatement := .select (.byName (List.replicate 64 (byte 'A')))
  have hquotable : ∀ s ∈ [statement], s.Quotable := by
    intro s hs
    obtain rfl := List.mem_singleton.mp hs
    have hname : 0 ∉ List.replicate 64 (byte 'A') ∧ 39 ∉ List.replicate 64 (byte 'A') := by decide
    exact hname
  have hrenders : List.Forall₂ SqlStatement.Renders [statement] [sqlText statement.tokens] :=
    .cons statement.renders_sqlText .nil
  obtain ⟨trace, htrace, hsteps⟩ := h _ _ hquotable hrenders (by decide)
  -- the parser gives up behind the 63rd byte
  obtain ⟨result, hparse, hstatus⟩ : ∃ result,
      sqlParse (sqlText statement.tokens) = .error result ∧ result.status = .syntaxError :=
    ⟨sqlSetSyntaxError sqlNoResult ((sqlText statement.tokens).drop 97), by decide +kernel, rfl⟩
  have hrun : (sqlExecute (sqlText statement.tokens)).run tableCreate =
      some (result, tableCreate) := by
    rw [sqlExecute_eq, hparse]
    rfl
  obtain rfl : [(result, tableCreate)] = trace := by simpa [sqlTrace, hrun] using htrace
  obtain ⟨⟨hanswer, -⟩, -⟩ := List.forall₂_cons.mp hsteps
  have hsame : result.status = .notFound := by
    obtain ⟨record, -, hrest⟩ := Option.bind_eq_some_iff.mp hanswer
    obtain ⟨records, -, hpure⟩ := Option.bind_eq_some_iff.mp hrest
    exact congrArg Answer.status (Option.some.inj hpure)
  rw [hstatus] at hsame
  cases hsame

end SqlApi.Core

import SqlApi.Core.SqlAccepted

/-!
# Integer literals

`sql_parse_int` takes any number of digits: `strtol` stops at the bounds of `long`, and
the cast to `int` keeps the low 32 bits. A literal means what it says exactly when it is a
value of type `int`; a longer one is stored, or compared against, as another number.

Both directions are needed of the parser: every literal is read as its low 32 bits, and every text
that was executed is the text of a statement with some literal in it.
-/

namespace SqlApi.Core

open SqlApi.Lib

/-! ## What a literal should do -/

/-- The integer literal in a statement. -/
def SqlStatement.literal : SqlStatement → Option Int
  | .insert _ age => some age
  | .select .all => none
  | .select (.byId _ id) => some id
  | .select (.byName _) => none
  | .select (.byAge _ age) => some age

/-- A row of the table. -/
def Memory.IsRow (m : Memory) (p : RecPtr) (r : Record) : Prop :=
  some p ∈ m.table.rows.take m.table.size ∧ m.record? p = some r

/-- The execution of a text did what the statement written in it says: the age in the new
row is the literal, and the rows returned are those that satisfy the condition. -/
def SqlStatement.Kept (text : List UInt8) (m : Memory) (result : SQLResult) (m' : Memory) :
    SqlStatement → Prop
  | .insert _ age => ∃ record r, result.record = some record ∧ m'.IsRow record r ∧ r.age = age
  | .select query => sqlParse text = .ok (.select query) ∧
      ∀ p r, m.IsRow p r → (p ∈ result.records ↔ query.selects r = true)

/-- The results that are errors. -/
def SQLResult.IsRejected (result : SQLResult) : Prop :=
  result.status = .syntaxError ∨ result.status = .queryError ∨ result.status = .error

/-! ## What it does -/

/-- Only the values of type `int` survive. -/
theorem sqlIntValue_eq_iff (n : Int) : sqlIntValue n = n ↔ IsInt n := by
  constructor
  · intro h
    rw [← h]
    exact isInt_wrapInt _
  · exact sqlIntValue_eq_self

/-- A SELECT is read as it is written exactly when its literal survives. -/
theorem SqlSelect.read_eq_iff {query : SqlSelect} {n : Int}
    (hn : (SqlStatement.select query).literal = some n) : query.read = query ↔ IsInt n := by
  cases query with
  | all => cases hn
  | byName name => cases hn
  | byId comparison id =>
    obtain rfl : id = n := Option.some.inj hn
    rw [← sqlIntValue_eq_iff]
    simp [SqlSelect.read]
  | byAge comparison age =>
    obtain rfl : age = n := Option.some.inj hn
    rw [← sqlIntValue_eq_iff]
    simp [SqlSelect.read]

section Literal

variable {m : Memory} {rows : Rows}

/-- The rows of the table are those of the invariant. -/
theorem HoldsRows.isRow_iff (hm : HoldsRows m rows) {p : RecPtr} {r : Record} :
    m.IsRow p r ↔ (p, r) ∈ rows := by
  unfold Memory.IsRow
  rw [hm.size, hm.slots]
  constructor
  · rintro ⟨hslot, hrecord⟩
    obtain ⟨row, hrow, heq⟩ := List.mem_map.mp hslot
    obtain rfl : row.1 = p := Option.some.inj heq
    obtain rfl : row.2 = r := Option.some.inj ((hm.live row hrow).symm.trans hrecord)
    exact hrow
  · intro hrow
    exact ⟨List.mem_map.mpr ⟨(p, r), hrow, rfl⟩, hm.live _ hrow⟩

/-- The rows that a SELECT returns are those it is about. -/
theorem TableInv.mem_records_iff (hm : TableInv m rows) {query : SqlSelect} {found : Rows}
    (hfound : found.Perm (rows.filter fun row => query.selects row.2)) {p : RecPtr} {r : Record}
    (hrow : m.IsRow p r) : p ∈ found.map Prod.fst ↔ query.selects r = true := by
  constructor
  · intro hmem
    obtain ⟨row, hrow', rfl⟩ := List.mem_map.mp hmem
    obtain ⟨hrow', hselects⟩ := List.mem_filter.mp (hfound.mem_iff.mp hrow')
    -- one record stands at a pointer
    obtain rfl : row.2 = r := Option.some.inj ((hm.live row hrow').symm.trans hrow.2)
    exact hselects
  · intro hselects
    have hmem : (p, r) ∈ rows.filter fun row => query.selects row.2 :=
      List.mem_filter.mpr ⟨hm.isRow_iff.mp hrow, hselects⟩
    exact List.mem_map.mpr ⟨(p, r), hfound.mem_iff.mpr hmem, rfl⟩

/-- A SELECT does what it says exactly when its literal survives. -/
theorem TableInv.run_select_kept (hm : TableInv m rows) (hok : m.NoFailure) {query : SqlSelect}
    {tokens : List SqlToken} {text : List UInt8} {n : Int}
    (htokens : (SqlStatement.select query).Written tokens) (htext : SqlText tokens text)
    (hn : (SqlStatement.select query).literal = some n) :
    ∃ result, (sqlExecute text).run m = some (result, m) ∧ ¬ result.IsRejected ∧
      ((SqlStatement.select query).Kept text m result m ↔ IsInt n) := by
  have hparse : sqlParse text = .ok (.select query.read) := sqlParse_of_written htokens htext
  obtain ⟨found, hrun, hfound, -⟩ := hm.run_select hok query.read
  have hexec : (sqlExecute text).run m =
      some (sqlSelectResult query.read.emptyStatus (some (found.map Prod.fst)), m) := by
    rw [sqlExecute_eq, hparse]
    exact hrun
  refine ⟨_, hexec, ?_, ?_⟩
  · have hstatus : query.read.emptyStatus = .ok ∨ query.read.emptyStatus = .notFound := by
      cases query.read <;> simp [SqlSelect.emptyStatus]
    rcases hstatus with hstatus | hstatus <;> cases found <;>
      simp [SQLResult.IsRejected, sqlSelectResult, hstatus]
  · rw [← SqlSelect.read_eq_iff hn]
    constructor
    · rintro ⟨hparse', -⟩
      rw [hparse] at hparse'
      exact SqlStatement.select.inj (Except.ok.inj hparse')
    · intro hread
      rw [hread] at hparse hfound
      exact ⟨hparse, fun p r hrow => hm.mem_records_iff hfound hrow⟩

/-- An INSERT stores its literal exactly when it survives; a full table refuses it. -/
theorem TableInv.run_insert_kept (hm : TableInv m rows) (hn : Numbered m rows) (hok : m.NoFailure)
    {name : List UInt8} {age : Int} {tokens : List SqlToken} {text : List UInt8}
    (htokens : (SqlStatement.insert name age).Written tokens) (htext : SqlText tokens text) :
    ∃ result m', (sqlExecute text).run m = some (result, m') ∧
      ((result.IsRejected ∨ (SqlStatement.insert name age).Kept text m result m') ↔
        IsInt age ∨ m.table.size = 2 ^ 32) := by
  have hparse : sqlParse text = .ok (.insert name (sqlIntValue age)) :=
    sqlParse_of_written htokens htext
  have hexec (m : Memory) : (sqlExecute text).run m = (sqlInsertRow name (sqlIntValue age)).run m := by
    rw [sqlExecute_eq, hparse]
    rfl
  rw [hm.size]
  rcases lt_or_eq_of_le hn.bound with hroom | hfull
  · -- the row is stored with the value that was read, which is the literal or is not
    obtain ⟨m', hrun, hm', -⟩ := hm.run_sqlInsertRow hn hok hroom name (sqlIntValue age)
    generalize wrapInt (rows.length + 1) = id at hrun hm'
    refine ⟨_, m', (hexec m).trans hrun, ?_⟩
    rw [or_iff_left (ne_of_lt hroom), ← sqlIntValue_eq_iff]
    have hrow : m'.IsRow m.records.length (newRecord id name (sqlIntValue age)) :=
      hm'.isRow_iff.mpr (List.mem_append_right rows (List.mem_singleton_self _))
    constructor
    · rintro (hrejected | ⟨record, r, hrecord, hrow', hage⟩)
      · exact absurd hrejected (by simp [SQLResult.IsRejected, sqlInserted])
      · obtain rfl : m.records.length = record := Option.some.inj hrecord
        obtain rfl := Option.some.inj (hrow.2.symm.trans hrow'.2)
        exact hage
    · intro hage
      exact .inr ⟨_, _, rfl, hrow, hage⟩
  · -- the ids are used up, so the row is refused
    obtain ⟨m', hrun, -, -⟩ := hm.run_sqlInsertRow_full hn hok hfull name (sqlIntValue age)
    refine ⟨_, m', (hexec m).trans hrun, ?_⟩
    exact iff_of_true (.inl (.inr (.inr rfl))) (.inr hfull)

end Literal

/-- Literals mean what they say exactly when they are values of type `int`: on every table, for
every accepted text with a literal, the execution is an error or does what the literal says if
and only if it is such a value, or the statement is an INSERT and the table is full. -/
theorem sqlExecute_literal_iff {m : Memory} (hm : InsertedTable m) {statement : SqlStatement}
    {tokens : List SqlToken} {text : List UInt8} {n : Int} (htokens : statement.Written tokens)
    (htext : SqlText tokens text) (hn : statement.literal = some n) :
    ∃ result m', (sqlExecute text).run m = some (result, m') ∧
      ((result.IsRejected ∨ statement.Kept text m result m') ↔
        IsInt n ∨ (statement.isInsert = true ∧ m.table.size = 2 ^ 32)) := by
  obtain ⟨hok, rows, hinv, hnumbered⟩ := hm.numbered
  cases statement with
  | insert name age =>
    obtain rfl : age = n := Option.some.inj hn
    obtain ⟨result, m', hrun, hkept⟩ := hinv.run_insert_kept hnumbered hok htokens htext
    refine ⟨result, m', hrun, ?_⟩
    rw [hkept]
    simp [SqlStatement.isInsert]
  | select query =>
    obtain ⟨result, hrun, hexecuted, hkept⟩ := hinv.run_select_kept hok htokens htext hn
    refine ⟨result, m, hrun, ?_⟩
    rw [or_iff_right hexecuted, hkept]
    simp [SqlStatement.isInsert]

/-- The largest age. -/
theorem sqlExecute_literal_iff_create :
    let statement : SqlStatement := .insert (bytes "Ann") 2147483647
    let text := sqlText (statement.tokens ++ [.symbol ";"])
    ∃ result m', (sqlExecute text).run tableCreate = some (result, m') ∧
      ((result.IsRejected ∨ statement.Kept text tableCreate result m') ↔
        IsInt 2147483647 ∨ (statement.isInsert = true ∧ tableCreate.table.size = 2 ^ 32)) := by
  intro statement text
  have hnamed : statement.Named := by
    change IsName (bytes "Ann")
    unfold IsName
    decide
  exact sqlExecute_literal_iff insertedTable_create (.plain hnamed .semicolon) (sqlText_spec _) rfl

/-- An age of `2 ^ 32 + 1` is stored as 1. -/
theorem sqlExecute_literal_wraps :
    let statement : SqlStatement := .insert (bytes "Ann") 4294967297
    let text := sqlText (statement.tokens ++ [.symbol ";"])
    ∃ result m' record, (sqlExecute text).run tableCreate = some (result, m') ∧
      ¬ (result.IsRejected ∨ statement.Kept text tableCreate result m') ∧
      result.record = some record ∧ (m'.record? record).map Record.age = some 1 := by
  intro statement text
  have hrun : ((sqlExecute text).run tableCreate).map
      (fun r => (r.1.status, r.1.record, (r.1.record.bind r.2.record?).map Record.age)) =
        some (.ok, some 0, some 1) := by decide
  obtain ⟨⟨result, m'⟩, hrun, heq⟩ := Option.map_eq_some_iff.mp hrun
  obtain ⟨hstatus, hrecord, hage⟩ : result.status = .ok ∧ result.record = some 0 ∧
      (result.record.bind m'.record?).map Record.age = some 1 := by simpa using heq
  rw [hrecord] at hage
  refine ⟨result, m', 0, hrun, ?_, hrecord, hage⟩
  rintro (hrejected | ⟨record, r, hrecord', hrow, hr⟩)
  · rw [SQLResult.IsRejected, hstatus] at hrejected
    simp at hrejected
  · obtain rfl : 0 = record := Option.some.inj (hrecord.symm.trans hrecord')
    have hage' : some r.age = some 1 := by
      rw [← hage]
      exact (congrArg (Option.map Record.age) hrow.2).symm
    rw [hr] at hage'
    exact absurd hage' (by decide)

end SqlApi.Core

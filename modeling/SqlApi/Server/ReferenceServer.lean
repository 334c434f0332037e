import SqlApi.Server.Linearizable
import SqlApi.Server.UsedIndex

/-!
# The server as a list of rows

The reference model of the server: a list of rows that answers one query after the other. The
concurrent server is linearizable to it. Whatever the workers do, a call that does not time out is
answered as the reference model answers its query on the rows of the queries before its place, and
its place is between its start and its return.

`apiReference` answers one query on a list of rows, and `referenceRows` are the rows after some
queries. A serial run of the queries leaves the table with these rows; so an execution at its place
in the order (`Linearized`) has the answer of the list at that place (`ReferenceAnswer`).
-/

namespace SqlApi.Server

open SqlApi.Lib SqlApi.Core

/-! ## Reference model -/

/-- The answer to a statement on a list of rows. -/
def apiStatementAnswer (rows : List Row) : SqlStatement → APIAnswer
  | .insert _ _ => .insert (rows.length + 1)
  | .select query => .select (selectUsesIndex query) (rows.filter query.condition)

/-- A query on a list of rows: its answer and the rows afterwards. -/
def apiReference (rows : List Row) (query : Cursor) : APIAnswer × List Row :=
  match sqlParse query with
  | .ok statement => (apiStatementAnswer rows statement, (statement.reference rows).2)
  | .error result => (apiExecutionAnswer [] (dbServerDone (dbServerBegin query) result), rows)

/-- A statement in any of its texts. -/
theorem apiReference_of_renders {statement : SqlStatement} {text : Cursor}
    (hvalid : statement.Valid) (htext : statement.Renders text) (rows : List Row) :
    apiReference rows text = (apiStatementAnswer rows statement, (statement.reference rows).2) := by
  rw [apiReference, sqlParse_of_renders hvalid htext]

/-- The rows after some calls. -/
def referenceRows {W : Type} (calls : List (W × Cursor)) (rows : List Row) : List Row :=
  calls.foldl (fun rows call => (apiReference rows call.2).2) rows

/-- Is it a call that inserts, if its query is a statement at all? -/
def writes {W : Type} (call : W × Cursor) : Bool := dbServerClassifyQuery call.2 == .write

/-! ## One query -/

section Query

variable {m : Memory} {rows : Rows} {query : Cursor}

/-- What the parser accepts has numbers that fit and names. -/
theorem valid_of_sqlParse (hzero : 0 ∉ query) {statement : SqlStatement}
    (hparse : sqlParse query = .ok statement) : statement.Valid := by
  obtain ⟨written, tokens, htokens, -, rfl⟩ := (sqlParse_eq_ok_iff hzero).mp hparse
  have hnamed : written.Named := by
    cases htokens with
    | plain hnamed _ => exact hnamed
    | split _ hnamed _ => exact hnamed
  cases written with
  | insert name age => exact ⟨hnamed, isInt_wrapInt _⟩
  | select rows =>
    cases rows with
    | all => trivial
    | byName name => exact hnamed
    | byId comparison id => exact isInt_wrapInt _
    | byAge comparison age => exact isInt_wrapInt _

/-- The flag of a SELECT that the parser accepts. -/
theorem usedIndex_of_sqlParse (hzero : 0 ∉ query) {select : SqlSelect}
    (hparse : sqlParse query = .ok (.select select)) :
    (dbServerBegin query).usedIndex = selectUsesIndex select := by
  obtain ⟨written, tokens, htokens, htext, hread⟩ := (sqlParse_eq_ok_iff hzero).mp hparse
  have hat : At tokens query := ⟨[], query, nofun, htext, rfl⟩
  cases written with
  | insert name age => cases hread
  | select written =>
    obtain rfl : select = written.read := SqlStatement.select.inj hread
    change dbServerGuessUsesIndex query = _
    rw [dbServerGuessUsesIndex_of_select hat htokens]
    cases written <;> rfl

/-- What the server makes of a query is what the reference model makes of it. -/
theorem run_apiReference (hm : TableInv m rows) (hn : Numbered m rows) (hok : m.NoFailure)
    (hzero : 0 ∉ query) (hroom : rows.length + 1 < 2 ^ 31) :
    ∃ result m' rows' found, (sqlExecute query).run m = some (result, m') ∧
      TableInv m' rows' ∧ Numbered m' rows' ∧ m'.rowsAt result.records = some found ∧
      apiExecutionAnswer found (dbServerDone (dbServerBegin query) result) =
        (apiReference rows.contents query).1 ∧
      rows'.contents = (apiReference rows.contents query).2 := by
  unfold apiReference
  rw [sqlExecute_eq]
  cases hparse : sqlParse query with
  | error result =>
    have hrecords := (sqlParse_error_noRows hparse).2.1
    exact ⟨result, m, rows, [], rfl, hm, hn, by rw [hrecords]; rfl, rfl, rfl⟩
  | ok statement =>
    have hvalid := valid_of_sqlParse hzero hparse
    cases statement with
    -- the id is the number of rows plus one, which has not wrapped round
    | insert name age =>
      obtain ⟨m', hrun, hm', hn'⟩ := hm.run_sqlInsertRow hn hok (by omega) name age
      have hid : wrapInt (rows.length + 1) = rows.length + 1 :=
        wrapInt_eq_self (by omega) (by omega)
      rw [hid] at hrun hm' hn'
      have hlength : (rows.contents.length : Int) = rows.length := by
        rw [Rows.contents, List.length_map]
      refine ⟨_, m', _, [], hrun, hm', hn', rfl, ?_, ?_⟩
      · change APIAnswer.insert (rows.length + 1) = .insert (rows.contents.length + 1)
        rw [hlength]
      · rw [Rows.contents, List.map_append]
        simp only [List.map_cons, List.map_nil, newRecord_row hvalid.1, SqlStatement.reference,
          hlength]
        rfl
    -- the rows found are those the condition selects, in the order of the table
    | select select =>
      obtain ⟨found, hrun, -, hfound⟩ := hm.run_select hok select
      obtain rfl := hfound (hn.ascending (by omega))
      have hsub : (rows.filter fun row => select.selects row.2) ⊆ rows := List.filter_subset_self _
      refine ⟨_, m, rows, _, hrun, hm, hn, hm.toHoldsRows.rowsAt hsub, ?_, rfl⟩
      rw [apiExecutionAnswer_select, usedIndex_of_sqlParse hzero hparse,
        Rows.contents_filter hvalid]
      rfl

/-- Only a query that writes appends a row, and one at most. -/
theorem length_apiReference_le {W : Type} (rows : List Row) (call : W × Cursor) :
    (apiReference rows call.2).2.length ≤ rows.length + [call].countP writes := by
  unfold apiReference
  cases hparse : sqlParse call.2 with
  | error result => exact Nat.le_add_right _ _
  | ok statement =>
    cases statement with
    | insert name age =>
      have hwrites : writes call = true := by
        unfold writes
        rw [dbServerClassifyQuery_of_insert hparse]
        rfl
      rw [List.countP_singleton, if_pos hwrites]
      exact (List.length_append ..).le
    | select select => exact Nat.le_add_right _ _

end Query

/-! ## One query after the other -/

section Serial

variable {W : Type} {m m' : Memory} {rows : Rows} {calls : List (W × Cursor)}
  {answers : List (W × Cursor × SQLResult)}

/-- A serial run leaves the rows of the reference model. -/
theorem run_serial_reference (hm : TableInv m rows) (hn : Numbered m rows) (hok : m.NoFailure)
    (htexts : ∀ call ∈ calls, 0 ∉ call.2)
    (hroom : rows.length + calls.countP writes < 2 ^ 31 - 1)
    (hrun : (serial sqlExecute calls).run exec m = some (answers, m')) :
    m'.NoFailure ∧ ∃ rows', TableInv m' rows' ∧ Numbered m' rows' ∧
      rows'.contents = referenceRows calls rows.contents ∧
      rows'.length ≤ rows.length + calls.countP writes := by
  -- the induction is on the calls in the order of the lock: each leaves the table the reference
  -- model describes
  induction calls generalizing m rows answers with
  | nil =>
    obtain ⟨-, rfl⟩ := Prod.mk.inj (Option.some.inj hrun)
    exact ⟨hok, rows, hm, hn, rfl, le_rfl⟩
  | cons call calls ih =>
    obtain ⟨hzero, hzeros⟩ := List.forall_mem_cons.mp htexts
    have hcount : (call :: calls).countP writes = [call].countP writes + calls.countP writes := by
      rw [← List.countP_append, List.singleton_append]
    rw [hcount] at hroom ⊢
    obtain ⟨result, m₁, rows₁, found, hquery, hm₁, hn₁, -, -, hrows₁⟩ :=
      run_apiReference hm hn hok hzero (by omega)
    have hlength : rows₁.length ≤ rows.length + [call].countP writes := by
      have hle := length_apiReference_le rows.contents call
      rwa [← hrows₁, Rows.contents, List.length_map, Rows.contents, List.length_map] at hle
    obtain ⟨w, query⟩ := call
    rw [serial, Program.run_bind_of_eq hquery, Program.run_bind, Option.bind_eq_some_iff] at hrun
    obtain ⟨⟨answers', m₂⟩, hrest, hrun⟩ := hrun
    obtain ⟨-, rfl⟩ := Prod.mk.inj (Option.some.inj hrun)
    obtain ⟨hok', rows', hm', hn', hrows', hlength'⟩ :=
      ih hm₁ hn₁ (hok.run hquery) hzeros (by omega) hrest
    refine ⟨hok', rows', hm', hn', ?_, by omega⟩
    rw [hrows', hrows₁]
    rfl

end Serial

/-! ## Linearizability -/

section Linearizable

variable {W : Type} [DecidableEq W] {t : List (CallEvent W)} {s s' : System W} {w : W}
  {query : Cursor} {execution : DBServerExecution} {rows : List Row}

/-- The calls that were granted the lock are C strings, and do not use up the ids. -/
structure Countable (t : List (CallEvent W)) : Prop where
  texts : ∀ call ∈ lockOrder t, 0 ∉ call.2
  inserts : (lockOrder t).countP writes < 2 ^ 31 - 1

/-- What a call is answered: that it took too long, or the answer of the reference model. -/
def ReferenceAnswer (t : List (CallEvent W)) (w : W) (query : Cursor) (answer : APIAnswer) : Prop :=
  NotGranted t w query ∧
      answer = .error 503 (bytes "lock_timeout") (bytes "Lock wait timeout exceeded") ∨
    ∃ before, GrantedAfter t w query before ∧
      answer = (apiReference (referenceRows before []) query).1

/-- The answer at a place is that of the reference model. -/
theorem Linearized.reference (h : Linearized t w query execution rows) (ht : Countable t) :
    ReferenceAnswer t w query (apiExecutionAnswer rows execution) := by
  cases h with
  | timeout hnot => exact .inl ⟨hnot, rfl⟩
  | @done before answers m m' result rows hgranted hbefore hquery hrows =>
    refine .inr ⟨before, hgranted, ?_⟩
    obtain ⟨after, horder, -⟩ := hgranted.lockOrder
    have hmem {call : W × Cursor} (hcall : call ∈ before) : call ∈ lockOrder t :=
      horder ▸ List.mem_append_left _ hcall
    -- the calls before this one are some of all, so the bounds hold for them
    have hcount : before.countP writes ≤ (lockOrder t).countP writes := by
      rw [horder, List.countP_append]
      exact Nat.le_add_right _ _
    have hroom : (0 : Nat) + before.countP writes < 2 ^ 31 - 1 := by
      have := ht.inserts
      omega
    obtain ⟨hok, rows', hm, hn, hrows', hlength⟩ :=
      run_serial_reference tableCreate_inv tableCreate_numbered rfl
        (fun call hcall => ht.texts call (hmem hcall)) hroom hbefore
    have hzero : 0 ∉ query := ht.texts (w, query) (horder ▸ by simp)
    obtain ⟨result', m'', -, found, hquery', -, -, hfound, hanswer, -⟩ :=
      run_apiReference hm hn hok hzero (by simp only [List.length_nil] at hlength; omega)
    -- one program on one memory has one result
    obtain ⟨rfl, rfl⟩ := Prod.mk.inj (Option.some.inj (hquery'.symm.trans hquery))
    obtain rfl := Option.some.inj (hfound.symm.trans hrows)
    rw [hanswer, hrows']
    rfl

/-- The states that a state leads to. -/
def System.Reaches (s s' : System W) : Prop :=
  Relation.ReflTransGen (fun s s' => ∃ e, s.Step e s') s s'

theorem Kept.reaches (h : Kept s execution rows) (hreach : s.Reaches s') :
    Kept s' execution rows := by
  induction hreach with
  | refl => exact h
  | tail _ hstep ih =>
    obtain ⟨e, hstep⟩ := hstep
    exact ih.step hstep

/-- `db_server_execute` is linearizable. In every run of any workers that is granted the lock for C
strings only, and for fewer than 2^31 - 1 INSERTs (`Countable`), whatever a worker is about to
return is a timeout without a place in the order of the locks, or has its place between its start
and now and is answered as the reference model answers the query there; and that is what
`api_build_execution_response` says at any time from now on. -/
theorem dbServerExecute_linearizable (h : System.Run t s) (ht : Countable t)
    (hfinishing : s.phase w = .finishing query execution) :
    ∃ answer, ReferenceAnswer t w query answer ∧ ∀ s', s.Reaches s' →
      (apiBuildExecutionResponse execution).run s'.server.memory =
        some (some answer.response, s'.server.memory) := by
  obtain ⟨rows, hplace, hkept⟩ := h.linearized hfinishing
  exact ⟨_, hplace.reference ht, fun s' hreach => (hkept.reaches hreach).response⟩

/-- A reader that was refused its lock goes behind the writer that held it. -/
private theorem run_overtaken {insert select : Cursor}
    (hwrite : dbServerClassifyQuery insert = .write)
    (hread : dbServerClassifyQuery select = .read) :
    ∃ (t : List (CallEvent Bool)) (s : System Bool) (execution : DBServerExecution),
      System.Run t s ∧ s.phase false = .finishing select execution ∧
      lockOrder t = [(true, insert), (false, select)] := by
  -- the reader starts first, but the writer gets the lock first
  have hlock : RWLock.free.tryLock (dbServerClassifyQuery insert).access = some ⟨0, true⟩ := by
    rw [hwrite]
    rfl
  have hrefused := ((System.Run.init.step (.start (w := false) select rfl)).step
    (.start (w := true) insert rfl)).step
      (.refuse (w := false) rfl (by rw [hread]; rintro ⟨⟩))
  have hacquired := hrefused.step (.acquire (w := true) rfl hlock)
  obtain ⟨inserted, m, hinsert, houtcome⟩ :=
    run_sqlExecute tableCreate_inv tableCreate_numbered rfl insert
  obtain ⟨n, hexecuted⟩ := hacquired.operations (w := true) rfl hinsert
  have hreleased := (hexecuted.step (.release (w := true) rfl)).step (.finish (w := true) rfl)
  -- then the reader
  obtain ⟨rows, hm, hn⟩ := houtcome.inv tableCreate_inv tableCreate_numbered
  have hok : m.NoFailure := Memory.NoFailure.run (m := tableCreate) rfl hinsert
  have hfree : ((RWLock.mk 0 true).unlock (dbServerClassifyQuery insert).access).tryLock
      (dbServerClassifyQuery select).access = some ⟨1, false⟩ := by
    rw [hwrite, hread]
    rfl
  have hretried := (hreleased.step (.retry (w := false) rfl)).step
    (.acquire (w := false) rfl hfree)
  obtain ⟨found, m', hselect, -⟩ := run_sqlExecute hm hn hok select
  obtain ⟨n', hselected⟩ := hretried.operations (w := false) rfl hselect
  refine ⟨_, _, _, hselected.step (.release (w := false) rfl), rfl, ?_⟩
  simp only [lockOrder_append, lockOrder_operations]
  rfl

/-- Its answer has the row of that writer. -/
theorem dbServerExecute_linearizable_overtaken :
    let insert := sqlText (SqlStatement.insert (bytes "Kim") 25).tokens
    let select := sqlText (SqlStatement.select (.byId .eq 1)).tokens
    ∃ (t : List (CallEvent Bool)) (s : System Bool) (execution : DBServerExecution),
      System.Run t s ∧ s.phase false = .finishing select execution ∧
      lockOrder t = [(true, insert), (false, select)] ∧
      (apiReference (referenceRows [(true, insert)] []) select).1 =
        .select true [⟨1, bytes "Kim", 25⟩] ∧
      ∃ answer, ReferenceAnswer t false select answer ∧ ∀ s', s.Reaches s' →
        (apiBuildExecutionResponse execution).run s'.server.memory =
          some (some answer.response, s'.server.memory) := by
  intro insert select
  have hkinds : dbServerClassifyQuery insert = .write ∧ dbServerClassifyQuery select = .read := by
    decide
  -- the SELECT starts first and the INSERT takes the lock first
  obtain ⟨t, s, execution, hrun, hfinishing, horder⟩ := run_overtaken hkinds.1 hkinds.2
  refine ⟨t, s, execution, hrun, hfinishing, horder, ?_,
    dbServerExecute_linearizable hrun ⟨?_, ?_⟩ hfinishing⟩
  · have hvalid : (SqlStatement.insert (bytes "Kim") 25).Valid ∧
        (SqlStatement.select (.byId .eq 1)).Valid := by
      unfold SqlStatement.Valid IsName IsInt
      decide
    have hinsert (rows : List Row) : apiReference rows insert = _ :=
      apiReference_of_renders hvalid.1 (SqlStatement.renders_sqlText _) rows
    have hselect (rows : List Row) : apiReference rows select = _ :=
      apiReference_of_renders hvalid.2 (SqlStatement.renders_sqlText _) rows
    change (apiReference (apiReference [] insert).2 select).1 = _
    rw [hinsert, hselect]
    rfl
  · rw [horder]
    decide
  · rw [horder]
    decide

end Linearizable

end SqlApi.Server

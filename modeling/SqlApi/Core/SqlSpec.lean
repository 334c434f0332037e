import SqlApi.Core.SqlCursor
import SqlApi.Core.TableIds

/-!
# What a statement does

`sqlParse` decides from the text alone whether there is a statement to execute, and
which one; `sqlExecute_eq` says that `sql_execute` is this decision followed by the
statement's table operations. The empty-message convention between the two statement
parsers is gone after that.

A run of a statement is then its outcome: an error that leaves the memory as it is, the rows that a
SELECT found, or the row that an INSERT added.
-/

namespace SqlApi.Core

open SqlApi.Lib

/-! ## Parsing first -/

/-- A statement that parses. -/
inductive SqlStatement where
  | insert (name : List UInt8) (age : Int)
  | select (rows : SqlSelect)
  deriving DecidableEq, Repr

/-- The table operations of a statement. -/
def SqlStatement.exec : SqlStatement → Prog SQLResult
  | .insert name age => sqlInsertRow name age
  | .select rows => rows.exec

/-- The statement in a text, or the result that is returned without one. -/
def sqlParse (input : Cursor) : Except SQLResult SqlStatement :=
  match sqlMatchExit (sqlSkipSpaces input) with
  | (some (), cursor) =>
    -- EXIT and QUIT stand alone
    match sqlMatchStatementEnd cursor with
    | (some (), _) => .error (sqlMakeResult .exit .none)
    | (none, cursor) => .error (sqlSetSyntaxError sqlNoResult cursor)
  | (none, cursor) =>
    match sqlStatement "INSERT" sqlInsertValues input with
    | .ok (name, age) => .ok (.insert name age)
    | .error result =>
      -- only a statement whose first word is another one is tried again
      if !result.isFallThrough then .error result
      else
        match sqlStatement "SELECT" sqlSelectRows input with
        | .ok rows => .ok (.select rows)
        | .error result =>
          -- neither of them: the error is in front of the first word
          .error (if result.isFallThrough then sqlSetSyntaxError result cursor else result)

/-- A statement that was executed is not taken for one that did not parse. -/
private theorem sqlInsertRow_bind (name : List UInt8) (age : Int) (next : Prog SQLResult) :
    (do
      let result ← sqlInsertRow name age
      if !result.isFallThrough then pure result else next) = sqlInsertRow name age := by
  unfold sqlInsertRow
  rw [bind_assoc]
  congr 1
  funext inserted
  cases inserted with
  | none => rfl
  | some record => rfl

private theorem SqlSelect.exec_bind (rows : SqlSelect) (f : SQLResult → SQLResult) :
    (do
      let result ← rows.exec
      if result.isFallThrough then pure (f result) else pure result) = rows.exec := by
  have hresult : ∀ empty found, empty ≠ .syntaxError →
      (sqlSelectResult empty found).isFallThrough = false := by
    intro empty found hempty
    cases found with
    | none => rfl
    | some records => cases records <;> simp [sqlSelectResult, SQLResult.isFallThrough, hempty]
  have hmap : ∀ (query : Prog (Option (List RecPtr))) empty, empty ≠ .syntaxError →
      (do
        let result ← sqlSelectResult empty <$> query
        if result.isFallThrough then pure (f result) else pure result) =
          sqlSelectResult empty <$> query := by
    intro query empty hempty
    rw [bind_map_left, ← bind_pure_comp]
    congr 1
    funext found
    rw [hresult empty found hempty]
    rfl
  cases rows with
  | all => exact hmap _ _ (by decide)
  | byId comparison id => exact hmap _ _ (by decide)
  | byName name => exact hmap _ _ (by decide)
  | byAge comparison age => exact hmap _ _ (by decide)

/-- `sql_execute` parses, then executes. -/
theorem sqlExecute_eq (input : Cursor) :
    sqlExecute input = match sqlParse input with
      | .error result => pure result
      | .ok statement => statement.exec := by
  unfold sqlExecute sqlParse
  -- both look for EXIT and QUIT first
  cases hexit : sqlMatchExit (sqlSkipSpaces input) with
  | mk exit cursor =>
    cases exit with
    | some _ =>
      dsimp only
      cases sqlMatchStatementEnd cursor with
      | mk ended rest => cases ended <;> rfl
    | none =>
      dsimp only
      -- then for an INSERT
      unfold sqlExecuteInsert
      cases sqlStatement "INSERT" sqlInsertValues input with
      | ok values => exact sqlInsertRow_bind values.1 values.2 _
      | error result =>
        dsimp only
        rw [pure_bind]
        cases hfall : result.isFallThrough with
        | false => rfl
        | true =>
          -- and a SELECT only where the INSERT parser has found no INSERT
          unfold sqlExecuteSelect
          cases sqlStatement "SELECT" sqlSelectRows input with
          | ok rows => exact rows.exec_bind fun result => sqlSetSyntaxError result cursor
          | error result =>
            dsimp only
            rw [pure_bind]
            cases result.isFallThrough <;> rfl

/-! ## Errors -/

/-- The results a statement parser gives up with. -/
inductive SqlError : SQLResult → Prop
  | syntaxError (cursor : Cursor) : SqlError (sqlSetSyntaxError sqlNoResult cursor)
  | unknownColumn (column clauseName : List UInt8) :
      SqlError (sqlSetUnknownColumnError sqlNoResult column clauseName)

/-- The errors in a text are such results. -/
theorem SqlErrorIn.sqlError {text : Cursor} {result : SQLResult} (h : SqlErrorIn text result) :
    SqlError result := by
  cases h with
  | cursor _ => exact .syntaxError _
  | tableName _ => exact .syntaxError _
  | column _ _ => exact .unknownColumn _ _

/-- The message of an error is not empty. -/
theorem SqlError.isFallThrough {result : SQLResult} (hresult : SqlError result) :
    result.isFallThrough = false := by
  cases hresult with
  | syntaxError cursor =>
    simp [SQLResult.isFallThrough, sqlSetSyntaxError, snprintf, bytes]
  | unknownColumn column clauseName => rfl

/-! ## What parses -/

section Parse

variable {α : Type} {input cursor : Cursor} {result : SQLResult}

/-- A keyword that was matched stands at the cursor. -/
theorem sqlMatchKeyword_eq_some {keyword : String} (hkeyword : 0 ∉ bytes keyword)
    (h : sqlMatchKeyword keyword input = (some (), cursor)) :
    ∃ text, SameWord (bytes keyword) text ∧ input = text ++ cursor := by
  obtain ⟨text, htext, -, heq⟩ := matchKeyword_eq_some hkeyword h
  exact ⟨text, htext, heq⟩

/-- Only one of two keywords with different first letters is matched. -/
theorem sqlMatchKeyword_exclusive {text rest : List UInt8} {keyword other : String}
    (htext : SameWord (bytes keyword) text) (hkeyword : bytes keyword ≠ [])
    (hother : bytes other ≠ []) (hne : toLower (peek (bytes keyword)) ≠ toLower (peek (bytes other))) :
    sqlMatchKeyword other (text ++ rest) = (none, text ++ rest) := by
  obtain ⟨k, ks, hk⟩ := List.exists_cons_of_ne_nil hkeyword
  obtain ⟨o, os, ho⟩ := List.exists_cons_of_ne_nil hother
  rw [hk, ho] at hne
  unfold SameWord at htext
  rw [hk] at htext
  cases text with
  | nil => cases htext
  | cons c text =>
    have hc : toLower c = toLower k := (List.cons.inj htext).1
    have hword : matchWord (o :: os) (c :: text ++ rest) = none := by
      rw [List.cons_append, matchWord, peek_cons, if_neg]
      rw [hc]
      exact hne
    unfold sqlMatchKeyword matchKeyword
    rw [ho, hword]

/-- A text that starts with a keyword does not start with whitespace. -/
theorem sqlSkipSpaces_of_keyword {text rest : List UInt8} {keyword : String}
    (htext : SameWord (bytes keyword) text) (hkeyword : bytes keyword ≠ [])
    (halpha : ∀ c ∈ bytes keyword, isAlpha c = true) :
    sqlSkipSpaces (text ++ rest) = text ++ rest := by
  have hne : text ≠ [] := fun h => by
    have hlen := htext.length_eq
    rw [h] at hlen
    exact hkeyword (List.eq_nil_of_length_eq_zero hlen.symm)
  obtain ⟨c, cs, rfl⟩ := List.exists_cons_of_ne_nil hne
  have hc : isSpace c = false :=
    isSpace_of_isAlpha (htext.isAlpha halpha c (List.mem_cons_self ..))
  unfold sqlSkipSpaces skipSpaces
  rw [List.cons_append, List.dropWhile_cons_of_neg (by simp [hc])]

theorem sqlStatement_eq_ok {keyword : String} {parser : SqlParser α} {a : α}
    (h : sqlStatement keyword parser input = .ok a) :
    ∃ cursor rest, sqlMatchKeyword keyword input = (some (), cursor) ∧
      parser cursor = .ok (a, rest) := by
  unfold sqlStatement at h
  cases hmatch : sqlMatchKeyword keyword input with
  | mk matched cursor =>
    rw [hmatch] at h
    cases matched with
    | none => cases h
    | some _ =>
      dsimp only at h
      cases hrun : parser.run cursor with
      | error e => simp [hrun] at h
      | ok r =>
        rw [hrun] at h
        obtain rfl : r.1 = a := Except.ok.inj h
        exact ⟨cursor, r.2, rfl, hrun⟩

theorem sqlStatement_eq_error {keyword : String} {parser : SqlParser α} {P : α → Prop}
    (hparser : parser.Parses input P) (h : sqlStatement keyword parser input = .error result) :
    (result = sqlNoResult ∧ (sqlMatchKeyword keyword input).1 = none) ∨ SqlErrorIn input result := by
  have hmoved := advances_sqlMatchKeyword keyword input
  unfold sqlStatement at h
  cases hmatch : sqlMatchKeyword keyword input with
  | mk matched cursor =>
    rw [hmatch] at h hmoved
    cases matched with
    | none => exact .inl ⟨(Except.error.inj h).symm, rfl⟩
    | some _ =>
      dsimp only at h
      cases hrun : parser.run cursor with
      | ok r => simp [hrun] at h
      | error e =>
        rw [hrun] at h
        obtain rfl : e = result := Except.error.inj h
        have herror := hparser cursor hmoved
        rw [show parser cursor = _ from hrun] at herror
        exact .inr herror

/-- A text without a statement yields EXIT or an error in it. -/
theorem sqlParse_errorIn (h : sqlParse input = .error result) :
    result = sqlMakeResult .exit .none ∨ SqlErrorIn input result := by
  have hskip := sqlSkipSpaces_suffix input
  have hmoved := (advances_sqlMatchExit (sqlSkipSpaces input)).trans hskip
  unfold sqlParse at h
  -- every error is about a place that the scanners have moved to
  cases hexit : sqlMatchExit (sqlSkipSpaces input) with
  | mk exit cursor =>
    rw [hexit] at h hmoved
    cases exit with
    | some _ =>
      have hstop := (advances_sqlMatchStatementEnd cursor).trans hmoved
      dsimp only at h
      cases hend : sqlMatchStatementEnd cursor with
      | mk ended rest =>
        rw [hend] at h hstop
        cases ended with
        | some _ => exact .inl (Except.error.inj h).symm
        | none =>
          obtain rfl := Except.error.inj h
          exact .inr (.cursor hstop)
    | none =>
      dsimp only at h
      cases hins : sqlStatement "INSERT" sqlInsertValues input with
      | ok values => simp [hins] at h
      | error first =>
        rw [hins] at h
        dsimp only at h
        rcases sqlStatement_eq_error parses_sqlInsertValues hins with ⟨rfl, -⟩ | hfirst
        · -- no INSERT: the SELECT parser decides
          rw [if_neg (by decide)] at h
          cases hsel : sqlStatement "SELECT" sqlSelectRows input with
          | ok rows => simp [hsel] at h
          | error second =>
            rw [hsel] at h
            obtain rfl := Except.error.inj h
            rcases sqlStatement_eq_error parses_sqlSelectRows hsel with ⟨rfl, -⟩ | hsecond
            · exact .inr (.cursor hmoved)
            · rw [hsecond.sqlError.isFallThrough]
              exact .inr hsecond
        · rw [hfirst.sqlError.isFallThrough] at h
          obtain rfl := Except.error.inj h
          exact .inr hfirst

/-- A text without a statement yields EXIT or one of the errors. -/
theorem sqlParse_eq_error (h : sqlParse input = .error result) :
    result = sqlMakeResult .exit .none ∨ SqlError result :=
  (sqlParse_errorIn h).imp_right SqlErrorIn.sqlError

/-- There is nothing from the table in it. -/
theorem sqlParse_error_noRows (h : sqlParse input = .error result) :
    result.action = .none ∧ result.records = [] ∧ result.rowCount = 0 := by
  rcases sqlParse_eq_error h with rfl | herror
  · exact ⟨rfl, rfl, rfl⟩
  · cases herror with
    | syntaxError cursor => exact ⟨rfl, rfl, rfl⟩
    | unknownColumn column clauseName => exact ⟨rfl, rfl, rfl⟩

/-- An INSERT that parses was read behind its keyword. -/
theorem sqlParse_eq_insert {name : List UInt8} {age : Int}
    (h : sqlParse input = .ok (.insert name age)) :
    ∃ cursor rest, sqlMatchKeyword "INSERT" input = (some (), cursor) ∧
      sqlInsertValues cursor = .ok ((name, age), rest) := by
  unfold sqlParse at h
  split at h
  · split at h <;> cases h
  · split at h
    next hins =>
      cases h
      exact sqlStatement_eq_ok hins
    next =>
      split at h
      · cases h
      · split at h <;> cases h

/-- Its name is a string of the text. -/
theorem quotedIn_of_sqlParse_insert {name : List UInt8} {age : Int}
    (h : sqlParse input = .ok (.insert name age)) : QuotedIn input name := by
  obtain ⟨cursor, rest, hmatch, hvalues⟩ := sqlParse_eq_insert h
  have hmoved := advances_sqlMatchKeyword "INSERT" input
  rw [hmatch] at hmoved
  have hparses := parses_sqlInsertValues cursor hmoved
  rw [hvalues] at hparses
  exact hparses.1

/-- A SELECT that parses was read behind its keyword. -/
theorem sqlParse_eq_select {rows : SqlSelect} (h : sqlParse input = .ok (.select rows)) :
    ∃ cursor rest, sqlMatchKeyword "SELECT" input = (some (), cursor) ∧
      sqlSelectRows cursor = .ok (rows, rest) := by
  unfold sqlParse at h
  split at h
  · split at h <;> cases h
  · split at h
    · cases h
    · split at h
      · cases h
      · split at h
        next hsel =>
          cases h
          exact sqlStatement_eq_ok hsel
        next => cases h

/-- What is known of the first word of a statement. -/
theorem statementKeyword_facts {keyword : String}
    (hkeyword : keyword = "INSERT" ∨ keyword = "SELECT") :
    0 ∉ bytes keyword ∧ bytes keyword ≠ [] ∧ (∀ c ∈ bytes keyword, isAlpha c = true) ∧
      toLower (peek (bytes keyword)) ≠ toLower (peek (bytes "EXIT")) ∧
      toLower (peek (bytes keyword)) ≠ toLower (peek (bytes "QUIT")) := by
  rcases hkeyword with rfl | rfl <;> decide

/-- INSERT and SELECT are not taken for EXIT or QUIT. -/
theorem sqlMatchExit_of_sameWord {keyword : String} {text rest : List UInt8}
    (hkeyword : keyword = "INSERT" ∨ keyword = "SELECT") (htext : SameWord (bytes keyword) text) :
    sqlMatchExit (text ++ rest) = (none, text ++ rest) := by
  obtain ⟨-, hne, -, hexit, hquit⟩ := statementKeyword_facts hkeyword
  unfold sqlMatchExit
  rw [sqlMatchKeyword_exclusive htext hne (by decide) hexit]
  exact sqlMatchKeyword_exclusive htext hne (by decide) hquit

/-- A text that starts with one of them is not, either. -/
private theorem sqlMatchExit_of_keyword {keyword : String}
    (h : sqlMatchKeyword keyword input = (some (), cursor))
    (hkeyword : keyword = "INSERT" ∨ keyword = "SELECT") :
    sqlMatchExit (sqlSkipSpaces input) = (none, input) := by
  obtain ⟨hzero, hne, halpha, -, -⟩ := statementKeyword_facts hkeyword
  obtain ⟨text, htext, rfl⟩ := sqlMatchKeyword_eq_some hzero h
  rw [sqlSkipSpaces_of_keyword htext hne halpha]
  exact sqlMatchExit_of_sameWord hkeyword htext

theorem sqlParse_of_insert {name : List UInt8} {age : Int}
    (h : sqlStatement "INSERT" sqlInsertValues input = .ok (name, age)) :
    sqlParse input = .ok (.insert name age) := by
  obtain ⟨cursor, -, hmatch, -⟩ := sqlStatement_eq_ok h
  unfold sqlParse
  rw [sqlMatchExit_of_keyword hmatch (.inl rfl), h]

theorem sqlParse_of_select {rows : SqlSelect}
    (h : sqlStatement "SELECT" sqlSelectRows input = .ok rows) :
    sqlParse input = .ok (.select rows) := by
  obtain ⟨cursor, -, hmatch, -⟩ := sqlStatement_eq_ok h
  obtain ⟨text, htext, hinput⟩ := sqlMatchKeyword_eq_some (by decide) hmatch
  have hinsert : sqlStatement "INSERT" sqlInsertValues input = .error sqlNoResult := by
    unfold sqlStatement
    rw [hinput, sqlMatchKeyword_exclusive htext (by decide) (by decide) (by decide)]
  unfold sqlParse
  rw [sqlMatchExit_of_keyword hmatch (.inr rfl), hinsert, h]
  rfl

end Parse

/-! ## Runs of statements -/

/-- The result of an INSERT that succeeded. -/
def sqlInserted (record : RecPtr) (id : Int) : SQLResult :=
  { sqlNoResult with
    status := .ok
    action := .insert
    record := some record
    insertedId := id
    rowCount := 1 }

/-- The rows a SELECT is about. -/
def SqlSelect.selects : SqlSelect → Record → Bool
  | .all, _ => true
  | .byId comparison id, r => tableCompareInt r.id comparison id
  | .byName name, r => r.hasName name
  | .byAge comparison age, r => tableCompareInt r.age comparison age

/-- The status when there are none. -/
def SqlSelect.emptyStatus : SqlSelect → SQLStatus
  | .all => .ok
  | _ => .notFound

section Exec

variable {m : Memory} {rows : Rows}

/-- An INSERT below `2 ^ 32` rows appends its row. -/
theorem TableInv.run_sqlInsertRow (hm : TableInv m rows) (hn : Numbered m rows) (hok : m.NoFailure)
    (hroom : rows.length < 2 ^ 32) (name : List UInt8) (age : Int) :
    ∃ m', (sqlInsertRow name age).run m =
        some (sqlInserted m.records.length (wrapInt (rows.length + 1)), m') ∧
      TableInv m' (rows ++ [(m.records.length, newRecord (wrapInt (rows.length + 1)) name age)]) ∧
      Numbered m'
        (rows ++ [(m.records.length, newRecord (wrapInt (rows.length + 1)) name age)]) := by
  obtain ⟨m', hrun, hm', hn'⟩ := hm.run_tableInsert_numbered hn hok hroom name age
  refine ⟨m', ?_, hm', hn'⟩
  generalize wrapInt (rows.length + 1) = id at hm' ⊢
  have hmem : (m.records.length, newRecord id name age) ∈
      rows ++ [(m.records.length, newRecord id name age)] := by simp
  unfold sqlInsertRow
  rw [run_bind_of hrun]
  dsimp only
  rw [run_bind_of (hm'.run_getRecord hmem)]
  rfl

/-- An INSERT into a full table is an error. -/
theorem TableInv.run_sqlInsertRow_full (hm : TableInv m rows) (hn : Numbered m rows)
    (hok : m.NoFailure) (hfull : rows.length = 2 ^ 32) (name : List UInt8) (age : Int) :
    ∃ m', (sqlInsertRow name age).run m = some ({ sqlNoResult with status := .error }, m') ∧
      TableInv m' rows ∧ Numbered m' rows := by
  obtain ⟨m', hrun, hm', hn'⟩ := hm.run_tableInsert_full hn hok hfull name age
  refine ⟨m', ?_, hm', hn'⟩
  unfold sqlInsertRow
  rw [run_bind_of hrun]
  rfl

/-- A SELECT returns the rows it is about and leaves the memory alone. -/
theorem TableInv.run_select (hm : TableInv m rows) (hok : m.NoFailure) (select : SqlSelect) :
    ∃ found : Rows, select.exec.run m =
        some (sqlSelectResult select.emptyStatus (some (found.map Prod.fst)), m) ∧
      found.Perm (rows.filter fun row => select.selects row.2) ∧
      ((rows.map fun row => row.2.id).Pairwise (· < ·) →
        found = rows.filter fun row => select.selects row.2) := by
  cases select with
  | all =>
    have hall : (rows.filter fun row => SqlSelect.all.selects row.2) = rows :=
      List.filter_eq_self.mpr fun _ _ => rfl
    refine ⟨rows, run_map_of (hm.run_tableCollectAll hok) _, ?_, fun _ => hall.symm⟩
    rw [hall]
  | byId comparison id =>
    obtain ⟨found, hrun, hfound, hsorted⟩ := hm.run_tableFindByIdCondition hok comparison id
    refine ⟨found, run_map_of hrun _, hfound, fun hrows => ?_⟩
    have hrows' := List.pairwise_map.mp hrows
    exact hfound.eq_of_pairwise (fun a b _ _ hab hba => absurd hab (lt_asymm hba))
      (List.pairwise_map.mp hsorted) (hrows'.filter _)
  | byName name =>
    exact ⟨_, run_map_of (hm.run_tableCollectMatches hok (Record.hasName name)) _,
      List.Perm.refl _, fun _ => rfl⟩
  | byAge comparison age =>
    exact ⟨_, run_map_of
      (hm.run_tableCollectMatches hok fun r => tableCompareInt r.age comparison age) _,
      List.Perm.refl _, fun _ => rfl⟩

end Exec

end SqlApi.Core

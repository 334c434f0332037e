import SqlApi.Core.SqlReads

/-!
# `db_server.c`: which lock a query takes

The query text is classified before it is parsed, by a second scanner, and the
classification alone decides which lock is taken. The classification is sound for the
executor: what runs without a lock touches no table, what runs under the read lock
only reads.
-/

namespace SqlApi.Server

open SqlApi.Lib SqlApi.Core

/-! ## Classification -/

/-- `enum DBServerQueryKind` -/
inductive DBServerQueryKind where
  | none | read | write
  deriving DecidableEq, Repr

/-- `db_server_skip_spaces` -/
def dbServerSkipSpaces (cursor : Cursor) : Cursor := skipSpaces cursor

/-- `db_server_match_keyword` -/
def dbServerMatchKeyword (keyword : String) : Scanner Unit := matchKeyword (bytes keyword)

/-- `db_server_parse_identifier` -/
def dbServerParseIdentifier (bufferSize : Nat) : Scanner (List UInt8) := parseIdentifier bufferSize

/-- `db_server_identifier_equals` -/
def dbServerIdentifierEquals : List UInt8 → List UInt8 → Bool
  | l :: left, r :: right =>
    if l != 0 && r != 0 then toLower l == toLower r && dbServerIdentifierEquals left right
    else l == 0 && r == 0
  | left, right => peek left == 0 && peek right == 0

/-- `db_server_classify_query` -/
def dbServerClassifyQuery (query : Cursor) : DBServerQueryKind :=
  if (dbServerMatchKeyword "SELECT" (dbServerSkipSpaces query)).1.isSome then .read
  else if (dbServerMatchKeyword "INSERT" (dbServerSkipSpaces query)).1.isSome then .write
  else .none

/-- The loop of `db_server_guess_uses_index`: the first WHERE at any byte decides. -/
def dbServerGuessLoop : Cursor → Bool
  | [] => false
  | c :: rest =>
    if c = 0 then false
    -- the word is looked for at every byte, inside strings and words too
    else match dbServerMatchKeyword "WHERE" (c :: rest) with
      -- the first WHERE decides
      | (some (), cursor) =>
        match dbServerParseIdentifier 32 cursor with
        | (some column, _) => dbServerIdentifierEquals column (bytes "id")
        | (none, _) => false
      | (none, _) => dbServerGuessLoop rest

/-- `db_server_guess_uses_index` -/
def dbServerGuessUsesIndex (query : Cursor) : Bool :=
  match dbServerMatchKeyword "SELECT" (dbServerSkipSpaces query) with
  | (some (), cursor) => dbServerGuessLoop cursor
  | (none, _) => false

/-! ## Soundness of the classification -/

section Classify

variable {query : Cursor}

/-- A keyword the executor matches is matched by the classifier: there is no whitespace
to skip in front of it. -/
theorem dbServerMatchKeyword_of_sql {keyword : String} {cursor : Cursor}
    (hkeyword : keyword = "INSERT" ∨ keyword = "SELECT")
    (h : sqlMatchKeyword keyword query = (some (), cursor)) :
    dbServerMatchKeyword keyword (dbServerSkipSpaces query) = (some (), cursor) := by
  have hfacts : 0 ∉ bytes keyword ∧ bytes keyword ≠ [] ∧ ∀ c ∈ bytes keyword, isAlpha c = true := by
    rcases hkeyword with rfl | rfl <;> decide
  obtain ⟨hzero, hne, halpha⟩ := hfacts
  obtain ⟨text, htext, rfl⟩ := sqlMatchKeyword_eq_some hzero h
  have hskip : dbServerSkipSpaces (text ++ cursor) = text ++ cursor :=
    sqlSkipSpaces_of_keyword htext hne halpha
  rw [hskip]
  exact h

/-- A statement that parses is classified by its kind. -/
theorem dbServerClassifyQuery_of_insert {name : List UInt8} {age : Int}
    (h : sqlParse query = .ok (.insert name age)) : dbServerClassifyQuery query = .write := by
  obtain ⟨cursor, -, hmatch, -⟩ := sqlParse_eq_insert h
  obtain ⟨text, htext, rfl⟩ := sqlMatchKeyword_eq_some (by decide) hmatch
  have hinsert := dbServerMatchKeyword_of_sql (.inl rfl) hmatch
  have hskip : dbServerSkipSpaces (text ++ cursor) = text ++ cursor :=
    sqlSkipSpaces_of_keyword htext (by decide) (by decide)
  have hselect : dbServerMatchKeyword "SELECT" (text ++ cursor) = (none, text ++ cursor) :=
    sqlMatchKeyword_exclusive htext (by decide) (by decide) (by decide)
  unfold dbServerClassifyQuery
  rw [hinsert, hskip, hselect]
  rfl

theorem dbServerClassifyQuery_of_select {rows : SqlSelect}
    (h : sqlParse query = .ok (.select rows)) : dbServerClassifyQuery query = .read := by
  obtain ⟨cursor, -, hmatch, -⟩ := sqlParse_eq_select h
  unfold dbServerClassifyQuery
  rw [dbServerMatchKeyword_of_sql (.inr rfl) hmatch]
  rfl

/-- Without a lock there is no statement: the result is there before any table is. -/
theorem sqlExecute_of_none (hkind : dbServerClassifyQuery query = .none) :
    ∃ result, sqlParse query = .error result ∧ sqlExecute query = pure result := by
  rw [sqlExecute_eq]
  cases hparse : sqlParse query with
  | error result => exact ⟨result, rfl, rfl⟩
  | ok statement =>
    cases statement with
    | insert name age =>
      rw [dbServerClassifyQuery_of_insert hparse] at hkind
      cases hkind
    | select rows =>
      rw [dbServerClassifyQuery_of_select hparse] at hkind
      cases hkind

/-- Under the read lock the executor only reads. -/
theorem readOnly_of_read (hkind : dbServerClassifyQuery query = .read) :
    (sqlExecute query).ReadOnly := by
  refine readOnly_sqlExecute fun name age hparse => ?_
  rw [dbServerClassifyQuery_of_insert hparse] at hkind
  cases hkind

end Classify

/-- The classification is sound: for every query and every table, without a lock the
executor neither writes nor looks at the table, with the read lock it does not write. So
what writes is classified as a write, and what depends on the table as a read or a
write. -/
theorem dbServerClassifyQuery_sound (query : Cursor) :
    (dbServerClassifyQuery query = .none →
      ∃ result, ∀ m, (sqlExecute query).run m = some (result, m)) ∧
    (dbServerClassifyQuery query = .read →
      ∀ m result m', (sqlExecute query).run m = some (result, m') → SameStore m m') ∧
    (∀ m result m', (sqlExecute query).run m = some (result, m') → ¬ SameStore m m' →
      dbServerClassifyQuery query = .write) ∧
    (∀ m₁ m₂, ((sqlExecute query).run m₁).map Prod.fst ≠ ((sqlExecute query).run m₂).map Prod.fst →
      dbServerClassifyQuery query = .read ∨ dbServerClassifyQuery query = .write) := by
  -- a text of no kind never reaches the table: its result is one value for every memory
  have hnone : dbServerClassifyQuery query = .none →
      ∃ result, ∀ m, (sqlExecute query).run m = some (result, m) := by
    intro hkind
    obtain ⟨result, -, hpure⟩ := sqlExecute_of_none hkind
    exact ⟨result, fun m => by rw [hpure]; rfl⟩
  -- a SELECT runs a read-only program
  have hread : dbServerClassifyQuery query = .read →
      ∀ m result m', (sqlExecute query).run m = some (result, m') → SameStore m m' :=
    fun hkind _ _ _ hrun => (readOnly_of_read hkind).run hrun
  refine ⟨hnone, hread, fun m result m' hrun hwrites => ?_, fun m₁ m₂ hdiffer => ?_⟩
  · -- a run that writes is of no other kind: the two kinds above leave the store as it is
    cases hkind : dbServerClassifyQuery query with
    | none =>
      obtain ⟨result', hpure⟩ := hnone hkind
      obtain ⟨-, rfl⟩ : result' = result ∧ m = m' := by simpa [hpure m] using hrun
      exact absurd (.refl m) hwrites
    | read => exact absurd (hread hkind m result m' hrun) hwrites
    | write => rfl
  · -- a result that depends on the memory excludes the texts of no kind
    cases hkind : dbServerClassifyQuery query with
    | none =>
      obtain ⟨result, hpure⟩ := hnone hkind
      rw [hpure m₁, hpure m₂] at hdiffer
      exact absurd rfl hdiffer
    | read => exact .inl rfl
    | write => exact .inr rfl

end SqlApi.Server

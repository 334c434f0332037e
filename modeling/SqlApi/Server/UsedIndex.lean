import SqlApi.Core.SqlAccepted
import SqlApi.Server.DBServer

/-!
# `usedIndex`: a guess that is right

`db_server_guess_uses_index` does not ask the parser. It slides over the text behind
SELECT and takes the first WHERE it meets, at any byte. In a text that the parser accepts
nothing before the condition has a `w` in it, so that WHERE is the parser's own, and the
column behind it decides as it does there.

`Clear` are the texts without the first letter of the word: the keywords before the condition, the
star and the name of the table.
-/

namespace SqlApi.Server

open SqlApi.Lib SqlApi.Core

/-! ## Sliding to WHERE -/

/-- No byte at which WHERE could start, and no end of the text. -/
def Clear (text : List UInt8) : Prop := ∀ c ∈ text, c ≠ 0 ∧ toLower c ≠ toLower (byte 'W')

section Guess

variable {tokens : List SqlToken} {cursor rest : Cursor} {text : List UInt8}

/-- The loop slides over such bytes. -/
theorem dbServerGuessLoop_clear (htext : Clear text) (rest : Cursor) :
    dbServerGuessLoop (text ++ rest) = dbServerGuessLoop rest := by
  induction text with
  | nil => rfl
  | cons c text ih =>
    obtain ⟨⟨hzero, hletter⟩, htext⟩ := List.forall_mem_cons.mp htext
    have hmatch : dbServerMatchKeyword "WHERE" (c :: (text ++ rest)) =
        (none, c :: (text ++ rest)) := by
      have hword : matchWord (bytes "WHERE") (c :: (text ++ rest)) = none := by
        change (if toLower c = toLower (byte 'W') then _ else none) = none
        rw [if_neg hletter]
      simp only [dbServerMatchKeyword, matchKeyword, hword]
    rw [List.cons_append, dbServerGuessLoop, if_neg hzero, hmatch]
    exact ih htext

theorem Clear.append {other : List UInt8} (htext : Clear text) (hother : Clear other) :
    Clear (text ++ other) := by
  intro c hc
  rcases List.mem_append.mp hc with hc | hc
  · exact htext c hc
  · exact hother c hc

theorem clear_of_blank (htext : Blank text) : Clear text := by
  intro c hc
  have hspace := htext c hc
  refine ⟨fun hzero => ?_, fun hletter => ?_⟩
  · rw [hzero] at hspace
    exact absurd hspace (by decide)
  · -- a letter is no whitespace, in either case
    have halpha : isAlpha c = true := by
      rw [← isAlpha_toLower, hletter]
      decide
    rw [isSpace_of_isAlpha halpha] at hspace
    cases hspace

/-- Letter case does not bring in a `w`. -/
theorem clear_of_sameWord {word : List UInt8} (hword : Clear word)
    (htext : SameWord word text) : Clear text := by
  intro c hc
  have hmem : toLower c ∈ word.map toLower := htext ▸ List.mem_map_of_mem hc
  obtain ⟨w, hw, heq⟩ := List.mem_map.mp hmem
  obtain ⟨hzero, hletter⟩ := hword w hw
  refine ⟨fun hc0 => ?_, by rwa [← heq]⟩
  rw [hc0] at heq
  exact hzero (toLower_eq_zero heq)

/-- A token without a `w` in its spelling. -/
def ClearToken : SqlToken → Prop
  | .word name => Clear (bytes name)
  | .symbol text => Clear (bytes text)
  | .string _ => False
  | .int _ => False

instance (text : List UInt8) : Decidable (Clear text) := inferInstanceAs (Decidable (∀ c ∈ text, _))

instance : DecidablePred ClearToken
  | .word name => inferInstanceAs (Decidable (Clear (bytes name)))
  | .symbol text => inferInstanceAs (Decidable (Clear (bytes text)))
  | .string _ => .isFalse id
  | .int _ => .isFalse id

theorem ClearToken.spelling {token : SqlToken} (htoken : ClearToken token)
    (hspells : token.Spells text) : Clear text := by
  cases token with
  | word name => exact clear_of_sameWord htoken hspells
  | symbol symbol =>
    obtain rfl : text = bytes symbol := hspells
    exact htoken
  | string _ => exact htoken.elim
  | int _ => exact htoken.elim

/-- The loop slides over such tokens. -/
theorem dbServerGuessLoop_clearTokens {before : List SqlToken}
    (hbefore : ∀ token ∈ before, ClearToken token) (hat : At (before ++ tokens) cursor) :
    ∃ rest, At tokens rest ∧ dbServerGuessLoop cursor = dbServerGuessLoop rest := by
  induction before generalizing cursor with
  | nil => exact ⟨cursor, hat, rfl⟩
  | cons token before ih =>
    obtain ⟨htoken, hbefore⟩ := List.forall_mem_cons.mp hbefore
    -- first the gap, then the token; the loop goes byte by byte
    obtain ⟨gap, spelling, after, hgap, hspells, rfl, hafter, -⟩ := hat.head
    obtain ⟨rest, hrest, hloop⟩ := ih hbefore hafter
    refine ⟨rest, hrest, ?_⟩
    rw [dbServerGuessLoop_clear (clear_of_blank hgap),
      dbServerGuessLoop_clear (htoken.spelling hspells), hloop]

/-- The end of the text is no WHERE. -/
theorem dbServerGuessLoop_end (hend : SqlEnd tokens) (hat : At tokens cursor) :
    dbServerGuessLoop cursor = false := by
  have hclear : ∀ token ∈ tokens, ClearToken token := by
    cases hend with
    | plain => exact fun _ h => nomatch h
    | semicolon => decide
  rw [← List.append_nil tokens] at hat
  obtain ⟨rest, ⟨gap, text, hgap, htext, rfl⟩, hloop⟩ := dbServerGuessLoop_clearTokens hclear hat
  cases htext
  rw [hloop, dbServerGuessLoop_clear (clear_of_blank hgap), dbServerGuessLoop]

/-! ## The column behind it -/

/-- `db_server_identifier_equals` compares like the parser. -/
theorem dbServerIdentifierEquals_eq {left right : List UInt8} (hleft : 0 ∉ left)
    (hright : 0 ∉ right) : dbServerIdentifierEquals left right = strcasecmpEq left right := by
  unfold strcasecmpEq
  rw [cstr_eq_self hleft, cstr_eq_self hright]
  induction left generalizing right with
  | nil =>
    cases right with
    | nil => rfl
    | cons r right =>
      have hr : 0 ≠ r := fun h => hright (h ▸ List.mem_cons_self ..)
      simp [dbServerIdentifierEquals, hr.symm]
  | cons l left ih =>
    obtain ⟨hl, hleft⟩ : 0 ≠ l ∧ 0 ∉ left := by simpa using hleft
    cases right with
    | nil => simp [dbServerIdentifierEquals, hl.symm]
    | cons r right =>
      obtain ⟨hr, hright⟩ : 0 ≠ r ∧ 0 ∉ right := by simpa using hright
      have hboth : (l != 0 && r != 0) = true := by simp [hl.symm, hr.symm]
      rw [dbServerIdentifierEquals, if_pos hboth, ih hleft hright]
      simp [Bool.decide_and, Bool.beq_eq_decide_eq]

/-- At WHERE the loop stops, and the column decides. -/
theorem dbServerGuessLoop_where {name : String} (hname : IsWord name)
    (hlen : (bytes name).length < 32) (hat : At (.word "WHERE" :: .word name :: tokens) cursor) :
    dbServerGuessLoop cursor = strcasecmpEq (bytes name) (bytes "id") := by
  obtain ⟨gap, spelling, rest, hgap, hspells, rfl, hrest, hend⟩ := hat.head
  have hword : IsWord "WHERE" := by decide
  have hmatch : dbServerMatchKeyword "WHERE" (spelling ++ rest) = (some (), rest) :=
    matchKeyword_append hspells (hend "WHERE" rfl)
  obtain ⟨column, after, hcolumn, -, hsame⟩ := hrest.identifier hname hlen
  have hidentifier : dbServerParseIdentifier 32 rest = (some column, after) :=
    expect_eq_ok hcolumn
  have hzero : 0 ∉ column := by
    obtain ⟨-, -, hident, -, -⟩ := parseIdentifier_eq_some hidentifier
    exact fun hmem => absurd (hident 0 hmem) (by decide)
  rw [dbServerGuessLoop_clear (clear_of_blank hgap)]
  -- one round of the loop, at the first letter of WHERE
  obtain ⟨c, cs, rfl⟩ := List.exists_cons_of_ne_nil (hword.ne_nil hspells)
  have hc : c ≠ 0 := fun h => hword.zero_notMem hspells (h ▸ List.mem_cons_self ..)
  rw [List.cons_append] at hmatch ⊢
  rw [dbServerGuessLoop, if_neg hc]
  simp only [hmatch, hidentifier]
  rw [dbServerIdentifierEquals_eq hzero (by decide), hsame]

/-- The conditions that go through the index. -/
def selectUsesIndex : SqlSelect → Bool
  | .byId _ _ => true
  | .all => false
  | .byName _ => false
  | .byAge _ _ => false

/-- The condition decides. -/
theorem dbServerGuessLoop_condition {rows : SqlSelect} {ending : List SqlToken}
    (hend : SqlEnd ending) (hat : At (rows.tokens ++ ending) cursor) :
    dbServerGuessLoop cursor = selectUsesIndex rows := by
  cases rows with
  | all => exact dbServerGuessLoop_end hend hat
  | byId comparison id =>
    rw [dbServerGuessLoop_where (by decide) (by decide) hat, selectUsesIndex]
    decide
  | byName name =>
    rw [dbServerGuessLoop_where (by decide) (by decide) hat, selectUsesIndex]
    decide
  | byAge comparison age =>
    rw [dbServerGuessLoop_where (by decide) (by decide) hat, selectUsesIndex]
    decide

/-- Whatever stands between the table and the condition, the guess is right. -/
theorem dbServerGuessUsesIndex_of_select {rows : SqlSelect} (hat : At tokens text)
    (htokens : (SqlStatement.select rows).Written tokens) :
    dbServerGuessUsesIndex text = selectUsesIndex rows := by
  -- what stands between SELECT and the condition has no `w`, with a semicolon or without
  obtain ⟨before, ending, hbefore, hend, rfl⟩ : ∃ before ending,
      (∀ token ∈ before, ClearToken token) ∧ SqlEnd ending ∧
        tokens = .word "SELECT" :: (before ++ (rows.tokens ++ ending)) := by
    cases htokens with
    | @plain _ ending _ hend =>
      exact ⟨[.symbol "*", .word "FROM", .word "users"], ending, by decide, hend, rfl⟩
    | @split _ ending _ _ hend =>
      exact ⟨[.symbol "*", .word "FROM", .word "users", .symbol ";"], ending, by decide, hend, rfl⟩
  obtain ⟨gap, spelling, cursor, hgap, hspells, rfl, hcursor, hwordEnd⟩ := hat.head
  have hskip : dbServerSkipSpaces (gap ++ (spelling ++ cursor)) = spelling ++ cursor :=
    skipSpaces_word (by decide) hgap hspells
  have hmatch : dbServerMatchKeyword "SELECT" (spelling ++ cursor) = (some (), cursor) :=
    matchKeyword_append hspells (hwordEnd "SELECT" rfl)
  obtain ⟨rest, hrest, hloop⟩ := dbServerGuessLoop_clearTokens hbefore hcursor
  unfold dbServerGuessUsesIndex
  simp only [hskip, hmatch]
  rw [hloop, dbServerGuessLoop_condition hend hrest]

/-- Only SELECT is ever said to use the index. -/
theorem dbServerGuessUsesIndex_of_not_read (hkind : dbServerClassifyQuery text ≠ .read) :
    dbServerGuessUsesIndex text = false := by
  unfold dbServerGuessUsesIndex
  split
  next hmatch =>
    -- the guess starts at the keyword that makes the query a read
    refine absurd ?_ hkind
    unfold dbServerClassifyQuery
    rw [hmatch]
    rfl
  next => rfl

end Guess

/-! ## The flag of an execution -/

/-- The steps of `db_server_execute` leave the flag alone. -/
theorem dbServerExecute_usedIndex {granted : Bool} {query : Cursor} {server server' : DBServer}
    {execution : DBServerExecution}
    (hrun : dbServerExecute granted query server = some (execution, server')) :
    execution.usedIndex = dbServerGuessUsesIndex query ∧
      (execution.result.action = .none ∨
        ∃ m', (sqlExecute query).run server.memory = some (execution.result, m')) := by
  rcases dbServerExecute_eq_some hrun with ⟨-, rfl, -⟩ | ⟨-, result, hsql, rfl⟩
  · exact ⟨rfl, .inl rfl⟩
  · exact ⟨rfl, .inr ⟨server'.memory, hsql⟩⟩

/-- An INSERT reports no rows. -/
theorem action_of_sqlInsertRow {name : List UInt8} {age : Int} {m m' : Memory} {result : SQLResult}
    (hrun : (sqlInsertRow name age).run m = some (result, m')) : result.action ≠ .selectRows := by
  unfold sqlInsertRow at hrun
  rw [Prog.run, Program.run_bind, Option.bind_eq_some_iff] at hrun
  obtain ⟨⟨inserted, m₁⟩, -, hrun⟩ := hrun
  cases inserted with
  | none =>
    obtain ⟨rfl, -⟩ := Prod.mk.inj (Option.some.inj hrun)
    rintro ⟨⟩
  | some record =>
    dsimp only at hrun
    rw [Program.run_bind, Option.bind_eq_some_iff] at hrun
    obtain ⟨⟨stored, m₂⟩, -, hrun⟩ := hrun
    obtain ⟨rfl, -⟩ := Prod.mk.inj (Option.some.inj hrun)
    rintro ⟨⟩

/-- A result with rows is that of a SELECT. -/
theorem sqlParse_of_selectRows {query : Cursor} {m m' : Memory} {result : SQLResult}
    (hrun : (sqlExecute query).run m = some (result, m')) (haction : result.action = .selectRows) :
    ∃ rows, sqlParse query = .ok (.select rows) := by
  rw [sqlExecute_eq] at hrun
  cases hparse : sqlParse query with
  | error result' =>
    rw [hparse] at hrun
    obtain ⟨rfl, -⟩ : result' = result ∧ m = m' := by simpa using hrun
    rw [(sqlParse_error_noRows hparse).1] at haction
    cases haction
  | ok statement =>
    cases statement with
    | select rows => exact ⟨rows, rfl⟩
    | insert name age =>
      rw [hparse] at hrun
      exact absurd haction (action_of_sqlInsertRow hrun)

/-- The flag reports the path that was taken: on every server, a query that returns rows was
executed as one SELECT, and the flag is set exactly when that is a condition on the id, which
goes through the index. A query that is no SELECT never has it. -/
theorem dbServerExecute_usedIndex_iff (granted : Bool) (query : Cursor) (server : DBServer)
    (hzero : 0 ∉ query) (execution : DBServerExecution) (server' : DBServer)
    (hrun : dbServerExecute granted query server = some (execution, server')) :
    (execution.result.action = .selectRows → ∃ rows,
      sqlParse query = .ok (.select rows) ∧ sqlExecute query = rows.exec ∧
        (execution.usedIndex = true ↔ ∃ comparison id, rows = .byId comparison id ∧
          sqlExecute query = sqlSelectResult .notFound <$> tableFindByIdCondition comparison id)) ∧
    (dbServerClassifyQuery query ≠ .read → execution.usedIndex = false) := by
  obtain ⟨hflag, hresult⟩ := dbServerExecute_usedIndex hrun
  rw [hflag]
  refine ⟨fun haction => ?_, dbServerGuessUsesIndex_of_not_read⟩
  obtain hnone | ⟨m', hsql⟩ := hresult
  · rw [hnone] at haction
    cases haction
  obtain ⟨rows, hparse⟩ := sqlParse_of_selectRows hsql haction
  have hexec : sqlExecute query = rows.exec := by
    rw [sqlExecute_eq, hparse]
    rfl
  refine ⟨rows, hparse, hexec, ?_⟩
  obtain ⟨written, tokens, htokens, htext, hread⟩ := (sqlParse_eq_ok_iff hzero).mp hparse
  have hat : At tokens query := ⟨[], query, nofun, htext, rfl⟩
  cases written with
  | insert name age => cases hread
  | select written =>
    obtain rfl : rows = written.read := SqlStatement.select.inj hread
    rw [dbServerGuessUsesIndex_of_select hat htokens]
    cases written with
    | byId comparison id => exact ⟨fun _ => ⟨_, _, rfl, hexec⟩, fun _ => rfl⟩
    | all => exact ⟨nofun, nofun⟩
    | byName name => exact ⟨nofun, nofun⟩
    | byAge comparison age => exact ⟨nofun, nofun⟩

/-- A condition on the id of a new server's table. -/
theorem dbServerExecute_usedIndex_init :
    let query := bytes "select*from users;where id=7"
    ∃ execution server', dbServerExecute true query dbServerInit = some (execution, server') ∧
      execution.result.action = .selectRows ∧
      ((execution.result.action = .selectRows → ∃ rows,
        sqlParse query = .ok (.select rows) ∧ sqlExecute query = rows.exec ∧
          (execution.usedIndex = true ↔ ∃ comparison id, rows = .byId comparison id ∧
            sqlExecute query = sqlSelectResult .notFound <$> tableFindByIdCondition comparison id)) ∧
      (dbServerClassifyQuery query ≠ .read → execution.usedIndex = false)) := by
  intro query
  have haction : (dbServerExecute true query dbServerInit).map (fun run => run.1.result.action) =
      some .selectRows := by decide
  obtain ⟨⟨execution, server'⟩, hrun, hselect⟩ := Option.map_eq_some_iff.mp haction
  exact ⟨execution, server', hrun, hselect,
    dbServerExecute_usedIndex_iff true query dbServerInit (by decide) execution server' hrun⟩

end SqlApi.Server

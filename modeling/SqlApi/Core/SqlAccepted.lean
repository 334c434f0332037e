import SqlApi.Core.SqlGrammar

/-!
# The accepted texts, token by token

One description for every text that is not an error: the tokens of an INSERT or of a
SELECT, those of a SELECT with a semicolon before its condition, and EXIT or QUIT. Which
statement the parser reads depends on the tokens alone.

With it a claim about all accepted texts is a claim about a few lists of tokens, whatever stands
between them.
-/

namespace SqlApi.Core

open SqlApi.Lib

/-! ## Token lists -/

/-- The token lists that are read as a statement. -/
inductive SqlStatement.Written : SqlStatement → List SqlToken → Prop
  | plain {statement : SqlStatement} {ending : List SqlToken} :
      statement.Named → SqlEnd ending → Written statement (statement.tokens ++ ending)
  | split {rows : SqlSelect} {ending : List SqlToken} :
      rows ≠ .all → (SqlStatement.select rows).Named → SqlEnd ending →
      Written (.select rows) (rows.splitTokens ++ ending)

/-- The token lists that end a session. -/
inductive ExitTokens : List SqlToken → Prop
  | exit {ending : List SqlToken} : SqlEnd ending → ExitTokens (.word "EXIT" :: ending)
  | quit {ending : List SqlToken} : SqlEnd ending → ExitTokens (.word "QUIT" :: ending)

/-! ## Reading them -/

section Accepted

variable {text : List UInt8} {tokens : List SqlToken}

/-- The statement that is read has the numbers that were made of the literals. -/
theorem sqlParse_of_written {statement : SqlStatement} (htokens : statement.Written tokens)
    (htext : SqlText tokens text) : sqlParse text = .ok statement.read := by
  cases htokens with
  | plain hnamed hend => exact sqlParse_read hnamed ⟨_, hend, htext⟩
  | split hrows hnamed hend => exact sqlParse_of_splitTokens hrows hnamed hend htext

/-- The texts that are read as a statement. -/
theorem sqlParse_eq_ok_iff (hzero : 0 ∉ text) {statement : SqlStatement} :
    sqlParse text = .ok statement ↔
      ∃ (written : SqlStatement) (tokens : List SqlToken), written.Written tokens ∧
        SqlText tokens text ∧ statement = written.read := by
  constructor
  · intro h
    cases statement with
    | insert name age =>
      obtain ⟨hname, n, rfl, ending, hend, htext⟩ := (sqlParse_insert_iff hzero).mp h
      exact ⟨.insert name n, _, .plain hname hend, htext, rfl⟩
    | select rows =>
      obtain ⟨cursor, rest, hmatch, hrows⟩ := sqlParse_eq_select h
      obtain ⟨written, ending, hend, hnamed, rfl, hat⟩ :=
        at_of_sqlSelectRows hrows (zero_notMem_of_keyword (by decide) hmatch hzero)
      rcases hat with hat | ⟨hne, hat⟩
      · have htext := sqlText_of_keyword (by decide) hmatch hat
        exact ⟨.select written, _, .plain hnamed hend, htext, rfl⟩
      · have htext := sqlText_of_keyword (by decide) hmatch hat
        exact ⟨.select written, _, .split hne hnamed hend, htext, rfl⟩
  · rintro ⟨written, tokens, htokens, htext, rfl⟩
    exact sqlParse_of_written htokens htext

/-- The word of a list that ends a session. -/
theorem ExitTokens.word (h : ExitTokens tokens) :
    ∃ word ending, (word = "EXIT" ∨ word = "QUIT") ∧ tokens = .word word :: ending ∧
      SqlEnd ending := by
  cases h with
  | exit hend => exact ⟨_, _, .inl rfl, rfl, hend⟩
  | quit hend => exact ⟨_, _, .inr rfl, rfl, hend⟩

/-- EXIT and QUIT are found behind any whitespace. -/
theorem sqlMatchExit_of_at (htokens : ExitTokens tokens) (hat : At tokens text) :
    ∃ cursor ending, sqlMatchExit (sqlSkipSpaces text) = (some (), cursor) ∧ SqlEnd ending ∧
      At ending cursor := by
  obtain ⟨word, ending, hword, rfl, hend⟩ := htokens.word
  have hfacts : IsWord word := by rcases hword with rfl | rfl <;> decide
  obtain ⟨gap, spelling, rest, hgap, hspells, rfl, hrest, hwordEnd⟩ := hat.head
  refine ⟨rest, ending, ?_, hend, hrest⟩
  have hmatch : sqlMatchKeyword word (spelling ++ rest) = (some (), rest) :=
    matchKeyword_append hspells (hwordEnd word rfl)
  rw [skipSpaces_word hfacts hgap hspells]
  unfold sqlMatchExit
  rcases hword with rfl | rfl
  · simp only [hmatch]
  · have hexit : sqlMatchKeyword "EXIT" (spelling ++ rest) = (none, spelling ++ rest) :=
      sqlMatchKeyword_exclusive hspells (by decide) (by decide) (by decide)
    simp only [hexit, hmatch]

theorem sqlParse_of_exit (htokens : ExitTokens tokens) (hat : At tokens text) :
    sqlParse text = .error (sqlMakeResult .exit .none) := by
  obtain ⟨cursor, ending, hmatch, hend, hcursor⟩ := sqlMatchExit_of_at htokens hat
  obtain ⟨rest, hdone⟩ := At.statementEnd hend hcursor
  unfold sqlParse
  simp only [hmatch, hdone]

/-- What was matched as EXIT or QUIT is one of the words. -/
theorem found_exit {cursor : Cursor}
    (h : sqlMatchExit (sqlSkipSpaces text) = (some (), cursor)) :
    ∃ word, (word = "EXIT" ∨ word = "QUIT") ∧ (SqlToken.word word).FoundAt text cursor := by
  unfold sqlMatchExit at h
  cases hexit : sqlMatchKeyword "EXIT" (sqlSkipSpaces text) with
  | mk matched cursor' =>
    rw [hexit] at h
    cases matched with
    | some _ =>
      obtain rfl : cursor' = cursor := (Prod.mk.inj h).2
      exact ⟨"EXIT", .inl rfl, found_keyword (by decide) (expect_of hexit)⟩
    | none =>
      -- the cursor stays when there is no EXIT
      have hstay : cursor' = sqlSkipSpaces text := by
        unfold sqlMatchKeyword matchKeyword at hexit
        split at hexit
        · exact (Prod.mk.inj hexit).2.symm
        · split at hexit
          · exact (Prod.mk.inj hexit).2.symm
          · cases hexit
      subst hstay
      exact ⟨"QUIT", .inr rfl, found_keyword (by decide) (expect_of h)⟩

/-- The texts that end a session. -/
theorem sqlParse_eq_exit_iff (hzero : 0 ∉ text) :
    sqlParse text = .error (sqlMakeResult .exit .none) ↔
      ∃ tokens, ExitTokens tokens ∧ At tokens text := by
  have hnotError : ¬ SqlError (sqlMakeResult .exit .none) := nofun
  constructor
  · intro h
    unfold sqlParse at h
    split at h
    next cursor hexit =>
      obtain ⟨word, hword, hfound⟩ := found_exit hexit
      split at h
      next rest hdone =>
        obtain ⟨ending, hend, hat⟩ := at_of_statementEnd hdone (hfound.zero_notMem hzero)
        rcases hword with rfl | rfl
        · exact ⟨_, .exit hend, hfound.at hat⟩
        · exact ⟨_, .quit hend, hfound.at hat⟩
      next => exact absurd (Except.error.inj h ▸ .syntaxError _) hnotError
    next cursor hexit =>
      -- the statement parsers never give up with that result
      split at h
      · cases h
      next first hinsert =>
        rcases sqlStatement_eq_error parses_sqlInsertValues hinsert with ⟨rfl, -⟩ | hfirst
        · rw [if_neg (by decide)] at h
          split at h
          · cases h
          next second hselect =>
            rcases sqlStatement_eq_error parses_sqlSelectRows hselect with ⟨rfl, -⟩ | hsecond
            · exact absurd (Except.error.inj h ▸ .syntaxError _) hnotError
            · rw [hsecond.sqlError.isFallThrough] at h
              exact absurd (Except.error.inj h ▸ hsecond.sqlError) hnotError
        · rw [hfirst.sqlError.isFallThrough] at h
          exact absurd (Except.error.inj h ▸ hfirst.sqlError) hnotError
  · rintro ⟨tokens, htokens, hat⟩
    exact sqlParse_of_exit htokens hat

end Accepted

end SqlApi.Core

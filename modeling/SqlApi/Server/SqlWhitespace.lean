import SqlApi.Server.UsedIndex

/-!
# Whitespace between tokens

`sql_execute` skips leading whitespace on a cursor of its own, matches EXIT and QUIT
there, and then hands the input itself to the two statement parsers. So whitespace may be
added anywhere to a statement that is accepted, but not before INSERT or SELECT. The
server's classifier and its guess skip it there too.

`Spaced` is the relation between two texts with the same tokens. The scanners skip white space
before every token but the first, so the two texts lead to the same run, but for the two
statement parsers, which do not skip what comes first.
-/

namespace SqlApi.Server

open SqlApi.Lib SqlApi.Core

/-! ## Adding whitespace -/

/-- Two texts of the same tokens, spelled alike: the second has the whitespace of the first
after each token, and maybe more. -/
inductive SqlSpaced : List SqlToken → List UInt8 → List UInt8 → Prop
  | nil : SqlSpaced [] [] []
  | cons {token : SqlToken} {tokens : List SqlToken}
      {spelling gap wide rest rest' : List UInt8} :
      token.Spells spelling → Blank gap → Blank wide → gap.Sublist wide →
      SqlSpaced tokens rest rest' →
      (∀ name, token = .word name → EndsWord (gap ++ rest)) →
      SqlSpaced (token :: tokens) (spelling ++ (gap ++ rest)) (spelling ++ (wide ++ rest'))

/-- `text'` is `text` with whitespace added before, between and after its tokens. -/
def Spaced (tokens : List SqlToken) (text text' : List UInt8) : Prop :=
  ∃ lead wide body body', Blank lead ∧ Blank wide ∧ lead.Sublist wide ∧
    SqlSpaced tokens body body' ∧ text = lead ++ body ∧ text' = wide ++ body'

/-- The token lists that `sql_execute` accepts. -/
def AcceptedTokens (tokens : List SqlToken) : Prop :=
  (∃ statement : SqlStatement, statement.Written tokens) ∨ ExitTokens tokens

section Spaced

variable {tokens : List SqlToken} {text text' : List UInt8}

/-- Whitespace ends a word. -/
theorem endsWord_of_isSpace (h : isSpace (peek text) = true) : EndsWord text := by
  unfold EndsWord
  by_contra hne
  have hident : isIdent (peek text) = true := by simpa using hne
  have hcases : isAlpha (peek text) = true ∨ isDigit (peek text) = true ∨
      peek text = byte '_' := by
    simpa [isIdent, isAlnum, or_assoc] using hident
  rcases hcases with halpha | hdigit | hunderscore
  · rw [isSpace_of_isAlpha halpha] at h
    cases h
  · rw [(isDigit_spec hdigit).1] at h
    cases h
  · rw [hunderscore] at h
    exact absurd h (by decide)

/-- Where the second text does not go on with whitespace it goes on like the first. -/
theorem SqlSpaced.peek_cases (h : SqlSpaced tokens text text') :
    isSpace (peek text') = true ∨ peek text' = peek text := by
  induction h with
  | nil => exact .inr rfl
  | @cons token tokens spelling gap wide rest rest' _ _ hwide hsublist _ _ ih =>
    cases spelling with
    | cons c spelling => exact .inr rfl
    | nil =>
      cases wide with
      | cons c wide => exact .inl (hwide c (List.mem_cons_self ..))
      | nil =>
        obtain rfl : gap = [] := List.sublist_nil.mp hsublist
        exact ih

/-- Both texts are made of the tokens. -/
theorem SqlSpaced.texts (h : SqlSpaced tokens text text') :
    SqlText tokens text ∧ SqlText tokens text' := by
  induction h with
  | nil => exact ⟨.nil, .nil⟩
  | @cons token tokens spelling gap wide rest rest' hspells hgap hwide hsublist hrest hend ih =>
    refine ⟨.cons hspells hgap ih.1 hend, .cons hspells hwide ih.2 fun name hname => ?_⟩
    cases wide with
    | cons c wide => exact endsWord_of_isSpace (hwide c (List.mem_cons_self ..))
    | nil =>
      obtain rfl : gap = [] := List.sublist_nil.mp hsublist
      -- no gap here in either text: the next token decides where the word ends
      rcases hrest.peek_cases with hspace | hpeek
      · exact endsWord_of_isSpace hspace
      · unfold EndsWord
        rw [List.nil_append, hpeek]
        exact hend name hname

theorem Spaced.at (h : Spaced tokens text text') : At tokens text ∧ At tokens text' := by
  obtain ⟨lead, wide, body, body', hlead, hwide, -, hbody, rfl, rfl⟩ := h
  exact ⟨⟨lead, body, hlead, hbody.texts.1, rfl⟩, ⟨wide, body', hwide, hbody.texts.2, rfl⟩⟩

/-! ## The classifier -/

theorem dbServerClassifyQuery_of_at {word : String} (hword : IsWord word)
    (h : At (.word word :: tokens) text) :
    ∃ spelling rest, SameWord (bytes word) spelling ∧ EndsWord rest ∧
      dbServerSkipSpaces text = spelling ++ rest := by
  obtain ⟨gap, spelling, rest, hgap, hspells, rfl, -, hend⟩ := h.head
  exact ⟨spelling, rest, hspells, hend word rfl, skipSpaces_word hword hgap hspells⟩

/-- The first word decides, not the whitespace before it. -/
theorem dbServerClassifyQuery_select (h : At (.word "SELECT" :: tokens) text) :
    dbServerClassifyQuery text = .read := by
  obtain ⟨spelling, rest, hspells, hend, hskip⟩ := dbServerClassifyQuery_of_at (by decide) h
  have hselect : dbServerMatchKeyword "SELECT" (spelling ++ rest) = (some (), rest) :=
    matchKeyword_append hspells hend
  simp [dbServerClassifyQuery, hskip, hselect]

theorem dbServerClassifyQuery_insert (h : At (.word "INSERT" :: tokens) text) :
    dbServerClassifyQuery text = .write := by
  obtain ⟨spelling, rest, hspells, hend, hskip⟩ := dbServerClassifyQuery_of_at (by decide) h
  have hselect : dbServerMatchKeyword "SELECT" (spelling ++ rest) = (none, spelling ++ rest) :=
    sqlMatchKeyword_exclusive hspells (by decide) (by decide) (by decide)
  have hinsert : dbServerMatchKeyword "INSERT" (spelling ++ rest) = (some (), rest) :=
    matchKeyword_append hspells hend
  simp [dbServerClassifyQuery, hskip, hselect, hinsert]

theorem dbServerClassifyQuery_exit (htokens : ExitTokens tokens) (h : At tokens text) :
    dbServerClassifyQuery text = .none := by
  obtain ⟨word, ending, hword, rfl, -⟩ := htokens.word
  have hfacts : IsWord word ∧ toLower (peek (bytes word)) ≠ toLower (peek (bytes "SELECT")) ∧
      toLower (peek (bytes word)) ≠ toLower (peek (bytes "INSERT")) := by
    rcases hword with rfl | rfl <;> decide
  obtain ⟨spelling, rest, hspells, hend, hskip⟩ := dbServerClassifyQuery_of_at hfacts.1 h
  have hselect : dbServerMatchKeyword "SELECT" (spelling ++ rest) = (none, spelling ++ rest) :=
    sqlMatchKeyword_exclusive hspells hfacts.1.1 (by decide) hfacts.2.1
  have hinsert : dbServerMatchKeyword "INSERT" (spelling ++ rest) = (none, spelling ++ rest) :=
    sqlMatchKeyword_exclusive hspells hfacts.1.1 (by decide) hfacts.2.2
  simp [dbServerClassifyQuery, hskip, hselect, hinsert]

/-- Added whitespace changes neither the lock that is taken nor the guess. -/
theorem Spaced.classified (h : Spaced tokens text text') (htokens : AcceptedTokens tokens) :
    dbServerClassifyQuery text' = dbServerClassifyQuery text ∧
      dbServerGuessUsesIndex text' = dbServerGuessUsesIndex text := by
  obtain ⟨hat, hat'⟩ := h.at
  have hnoGuess {kind : DBServerQueryKind} (hkind : dbServerClassifyQuery text = kind)
      (hkind' : dbServerClassifyQuery text' = kind) (hread : kind ≠ .read) :
      dbServerGuessUsesIndex text' = dbServerGuessUsesIndex text := by
    rw [dbServerGuessUsesIndex_of_not_read (by rwa [hkind']),
      dbServerGuessUsesIndex_of_not_read (by rwa [hkind])]
  rcases htokens with ⟨statement, hwritten⟩ | hexit
  · cases statement with
    | insert name age =>
      cases hwritten with
      | plain _ _ =>
        have hkind := dbServerClassifyQuery_insert hat
        have hkind' := dbServerClassifyQuery_insert hat'
        exact ⟨hkind'.trans hkind.symm, hnoGuess hkind hkind' (by decide)⟩
    | select rows =>
      have hguess : dbServerGuessUsesIndex text' = dbServerGuessUsesIndex text :=
        (dbServerGuessUsesIndex_of_select hat' hwritten).trans
          (dbServerGuessUsesIndex_of_select hat hwritten).symm
      refine ⟨?_, hguess⟩
      cases hwritten with
      | plain _ _ =>
        rw [dbServerClassifyQuery_select hat, dbServerClassifyQuery_select hat']
      | split _ _ _ =>
        rw [dbServerClassifyQuery_select hat, dbServerClassifyQuery_select hat']
  -- EXIT and QUIT take no lock, and are not guessed about
  · have hkind := dbServerClassifyQuery_exit hexit hat
    have hkind' := dbServerClassifyQuery_exit hexit hat'
    exact ⟨hkind'.trans hkind.symm, hnoGuess hkind hkind' (by decide)⟩

/-! ## Whitespace before the first token -/

/-- The first token of a statement. -/
theorem written_keyword {statement : SqlStatement} (htokens : statement.Written tokens) :
    ∃ keyword rest, (keyword = "INSERT" ∨ keyword = "SELECT") ∧
      tokens = .word keyword :: rest := by
  cases htokens with
  | @plain _ ending _ _ =>
    cases statement with
    | insert name age => exact ⟨_, _, .inl rfl, rfl⟩
    | select rows => exact ⟨_, _, .inr rfl, rfl⟩
  | split _ _ _ => exact ⟨_, _, .inr rfl, rfl⟩

/-- A statement parser does not start at whitespace. -/
theorem sqlStatement_of_isSpace {α : Type} {keyword : String} {parser : SqlParser α}
    (hkeyword : IsWord keyword) (hspace : isSpace (peek text) = true) :
    sqlStatement keyword parser text = .error sqlNoResult := by
  cases hmatch : sqlMatchKeyword keyword text with
  | mk matched cursor =>
    cases matched with
    | none => simp only [sqlStatement, hmatch]
    | some _ =>
      have hzero : 0 ∉ bytes keyword := fun hmem => absurd (hkeyword.2 0 hmem) (by decide)
      -- a keyword that was matched starts with a letter
      obtain ⟨spelling, hspells, rfl⟩ := sqlMatchKeyword_eq_some hzero hmatch
      obtain ⟨c, cs, rfl⟩ := List.exists_cons_of_ne_nil (hkeyword.ne_nil hspells)
      have halpha := hspells.isAlpha hkeyword.2 c (List.mem_cons_self ..)
      have hspace : isSpace c = true := hspace
      rw [isSpace_of_isAlpha halpha] at hspace
      cases hspace

/-- Behind whitespace a statement is a syntax error. -/
theorem sqlParse_of_isSpace {statement : SqlStatement} (htokens : statement.Written tokens)
    (hat : At tokens text) (hspace : isSpace (peek text) = true) :
    ∃ cursor, sqlParse text = .error (sqlSetSyntaxError sqlNoResult cursor) := by
  obtain ⟨keyword, rest, hkeyword, rfl⟩ := written_keyword htokens
  obtain ⟨-, hne, halpha, -, -⟩ := statementKeyword_facts hkeyword
  obtain ⟨gap, spelling, after, hgap, hspells, rfl, -, -⟩ := hat.head
  refine ⟨spelling ++ after, ?_⟩
  have hskip : sqlSkipSpaces (gap ++ (spelling ++ after)) = spelling ++ after :=
    skipSpaces_word ⟨hne, halpha⟩ hgap hspells
  have hexit : sqlMatchExit (spelling ++ after) = (none, spelling ++ after) :=
    sqlMatchExit_of_sameWord hkeyword hspells
  -- no EXIT, no INSERT, no SELECT: the cursor that skipped the whitespace is quoted
  have hfall : sqlNoResult.isFallThrough = true := rfl
  unfold sqlParse
  simp only [hskip, hexit, sqlStatement_of_isSpace (show IsWord "INSERT" by decide) hspace,
    sqlStatement_of_isSpace (show IsWord "SELECT" by decide) hspace, hfall]
  rfl

/-- A text of a statement without whitespace before it. -/
theorem sqlParse_of_not_isSpace {statement : SqlStatement} (htokens : statement.Written tokens)
    (hat : At tokens text) (hspace : isSpace (peek text) = false) :
    sqlParse text = .ok statement.read := by
  obtain ⟨gap, body, hgap, hbody, rfl⟩ := hat
  cases gap with
  | cons c gap =>
    have hc : isSpace c = false := hspace
    rw [hgap c (List.mem_cons_self ..)] at hc
    cases hc
  | nil => exact sqlParse_of_written htokens hbody

end Spaced

/-! ## Two runs -/

/-- The results of statements that are accepted. -/
def SQLResult.IsAccepted (result : SQLResult) : Prop :=
  result.status = .ok ∨ result.status = .notFound ∨ result.status = .exit

/-- On a table `m` the text does what gave `result` and `m'`, and the server treats it like
the other text. -/
structure SameExecution (m : Memory) (text text' : Cursor) (result : SQLResult) (m' : Memory) :
    Prop where
  run : ∃ result', (sqlExecute text').run m = some (result', m') ∧
    result'.status = result.status ∧ result'.action = result.action ∧
    result'.insertedId = result.insertedId ∧ result'.records = result.records ∧
    result'.record = result.record ∧ result'.rowCount = result.rowCount
  classified : dbServerClassifyQuery text' = dbServerClassifyQuery text
  guessed : dbServerGuessUsesIndex text' = dbServerGuessUsesIndex text

/-- Whitespace may be added anywhere but before the first token of a statement: for every table,
every accepted text and every text that it becomes with more whitespace, both do the same if and
only if the second does not start with whitespace, or is EXIT or QUIT. -/
theorem sqlExecute_spaced_iff {m m' : Memory} {text text' : Cursor} {result : SQLResult}
    {tokens : List SqlToken} (hrun : (sqlExecute text).run m = some (result, m'))
    (haccepted : SQLResult.IsAccepted result) (htokens : AcceptedTokens tokens)
    (hspaced : Spaced tokens text text') :
    SameExecution m text text' result m' ↔
      (isSpace (peek text') = false ∨ ExitTokens tokens) := by
  obtain ⟨hkind, hguess⟩ := hspaced.classified htokens
  obtain ⟨hat, hat'⟩ := hspaced.at
  have hsame (hparse : sqlParse text' = sqlParse text) :
      SameExecution m text text' result m' := by
    refine ⟨⟨result, ?_, rfl, rfl, rfl, rfl, rfl, rfl⟩, hkind, hguess⟩
    rw [← hrun, sqlExecute_eq, sqlExecute_eq, hparse]
  rcases htokens with ⟨statement, hwritten⟩ | hexit
  -- the first text is accepted, so it does not start with whitespace
  · have hspace : isSpace (peek text) = false := by
      by_contra h
      obtain ⟨cursor, hparse⟩ := sqlParse_of_isSpace hwritten hat (by simpa using h)
      rw [sqlExecute_eq, hparse] at hrun
      obtain ⟨rfl, -⟩ := Prod.mk.inj (Option.some.inj hrun)
      simp [SQLResult.IsAccepted, sqlSetSyntaxError] at haccepted
    constructor
    · rintro ⟨⟨result', hrun', hstatus, -⟩, -, -⟩
      refine .inl ?_
      by_contra h
      -- the second text is a syntax error, the first is none
      obtain ⟨cursor, hparse⟩ := sqlParse_of_isSpace hwritten hat' (by simpa using h)
      rw [sqlExecute_eq, hparse] at hrun'
      obtain ⟨rfl, -⟩ := Prod.mk.inj (Option.some.inj hrun')
      rw [SQLResult.IsAccepted, ← hstatus] at haccepted
      simp [sqlSetSyntaxError] at haccepted
    · rintro (hspace' | hexit)
      · apply hsame
        rw [sqlParse_of_not_isSpace hwritten hat hspace,
          sqlParse_of_not_isSpace hwritten hat' hspace']
      · apply hsame
        rw [sqlParse_of_exit hexit hat, sqlParse_of_exit hexit hat']
  · refine iff_of_true (hsame ?_) (.inr hexit)
    rw [sqlParse_of_exit hexit hat, sqlParse_of_exit hexit hat']

/-- The text as one would write it, with one blank before it or not. -/
theorem spaced_sqlText {tokens : List SqlToken} :
    SqlSpaced tokens (sqlText tokens) (sqlText tokens) := by
  induction tokens with
  | nil => exact .nil
  | cons token tokens ih =>
    exact .cons token.spells_text blank_space blank_space (.refl _) ih fun _ _ => rfl

/-- An INSERT with more blanks between its tokens. -/
theorem sqlExecute_spaced_iff_insert :
    let text := bytes "INSERT INTO users VALUES ('Ann', 30);"
    let text' := bytes "INSERT  INTO users \nVALUES ( 'Ann' , 30 ) ;"
    ∃ result m', (sqlExecute text).run tableCreate = some (result, m') ∧ result.status = .ok ∧
      SameExecution tableCreate text text' result m' := by
  intro text text'
  have hnone : Blank (bytes "") := by decide
  have hblank : Blank (bytes " ") := by decide
  have hblanks : Blank (bytes "  ") := by decide
  have hbreak : Blank (bytes " \n") := by decide
  -- the tokens are the same, and only the blanks between them differ
  have hvalues : SqlSpaced [.symbol ",", .int 30, .symbol ")", .symbol ";"] (bytes ", 30);")
      (bytes ", 30 ) ;") :=
    .cons (SqlToken.spells_text _) hblank hblank (by decide)
      (.cons (SqlToken.spells_text _) hnone hblank (by decide)
        (.cons (SqlToken.spells_text _) hnone hblank (by decide)
          (.cons (SqlToken.spells_text _) hnone hnone (by decide) .nil nofun) nofun) nofun) nofun
  have hrow : SqlSpaced [.word "VALUES", .symbol "(", .string (bytes "Ann"), .symbol ",", .int 30,
      .symbol ")", .symbol ";"] (bytes "VALUES ('Ann', 30);") (bytes "VALUES ( 'Ann' , 30 ) ;") :=
    .cons (SqlToken.spells_text _) hblank hblank (by decide)
      (.cons (SqlToken.spells_text _) hnone hblank (by decide)
        (.cons (SqlToken.spells_text _) hnone hblank (by decide) hvalues nofun) nofun)
      fun _ _ => rfl
  have hbody : SqlSpaced ((SqlStatement.insert (bytes "Ann") 30).tokens ++ [.symbol ";"]) text
      text' :=
    .cons (SqlToken.spells_text _) hblank hblanks (by decide)
      (.cons (SqlToken.spells_text _) hblank hblank (by decide)
        (.cons (SqlToken.spells_text _) hblank hbreak (by decide) hrow fun _ _ => rfl)
        fun _ _ => rfl)
      fun _ _ => rfl
  have hname : IsName (bytes "Ann") := ⟨by decide, by decide, by decide⟩
  have hwritten : (SqlStatement.insert (bytes "Ann") 30).Written
      ((SqlStatement.insert (bytes "Ann") 30).tokens ++ [.symbol ";"]) := .plain hname .semicolon
  have hok : ((sqlExecute text).run tableCreate).map (fun done => done.1.status) = some .ok := by
    decide +kernel
  obtain ⟨⟨result, m'⟩, hrun, hstatus⟩ := Option.map_eq_some_iff.mp hok
  refine ⟨result, m', hrun, hstatus, ?_⟩
  exact (sqlExecute_spaced_iff hrun (.inl hstatus) (.inl ⟨_, hwritten⟩)
    ⟨[], [], _, _, nofun, nofun, .refl _, hbody, rfl, rfl⟩).mpr (.inl (by decide))

/-- A SELECT with a blank before it is a syntax error. -/
theorem sqlExecute_leading_space :
    let tokens := (SqlStatement.select .all).tokens ++ []
    let text := sqlText tokens
    ∃ result m', (sqlExecute text).run tableCreate = some (result, m') ∧
      SQLResult.IsAccepted result ∧ AcceptedTokens tokens ∧ Spaced tokens text (byte ' ' :: text) ∧
      ¬ SameExecution tableCreate text (byte ' ' :: text) result m' := by
  intro tokens text
  have htokens : (SqlStatement.select .all).Written tokens := .plain trivial .plain
  have hspaced : Spaced tokens text (byte ' ' :: text) :=
    ⟨[], [byte ' '], _, _, nofun, blank_space, List.nil_sublist _, spaced_sqlText, rfl, rfl⟩
  have hrun : ((sqlExecute text).run tableCreate).map (fun r => r.1.status) = some .ok := by decide
  have hrun' : ((sqlExecute (byte ' ' :: text)).run tableCreate).map (fun r => r.1.status) =
      some .syntaxError := by decide
  obtain ⟨⟨result, m'⟩, hrun, hstatus⟩ := Option.map_eq_some_iff.mp hrun
  obtain ⟨⟨error, m''⟩, hrun', herror⟩ := Option.map_eq_some_iff.mp hrun'
  refine ⟨result, m', hrun, .inl hstatus, .inl ⟨_, htokens⟩, hspaced, ?_⟩
  rintro ⟨⟨result', hsame, hstatus', -⟩, -, -⟩
  rw [hrun'] at hsame
  obtain ⟨rfl, -⟩ := Prod.mk.inj (Option.some.inj hsame)
  dsimp only at hstatus herror
  rw [herror, hstatus] at hstatus'
  cases hstatus'

end SqlApi.Server

import SqlApi.Core.SqlSpec

/-!
# Statements as text

The texts of a statement: its tokens one after the other, keywords and names in any
letter case, numbers in decimal, any whitespace after a token and none needed except
between two words, and a semicolon at the end or not. The parser reads every such text
back.

## Reading a text back

`At tokens cursor`: the cursor stands before these tokens, with white space in front of them or not.
Each scanner has one lemma, which takes a token off the list and says where the cursor is then. The
parsers follow the list of their statement token by token.

The numbers of a text are any integers; `SqlStatement.read` says what is left of them in an `int`.
-/

namespace SqlApi.Core

open SqlApi.Lib

/-! ## Tokens -/

/-- The tokens of the two statements. -/
inductive SqlToken where
  | word (name : String)
  | symbol (text : String)
  | string (text : List UInt8)
  | int (value : Int)

/-- How a token is written. -/
def SqlToken.Spells : SqlToken → List UInt8 → Prop
  | .word name, spelling => SameWord (bytes name) spelling
  | .symbol text, spelling => spelling = bytes text
  | .string text, spelling => spelling = 39 :: (text ++ [39])
  | .int value, spelling => IsDecimal value spelling

/-- A text made of tokens with whitespace after each; a word does not run into the next
token. -/
inductive SqlText : List SqlToken → List UInt8 → Prop
  | nil : SqlText [] []
  | cons {token : SqlToken} {tokens : List SqlToken} {spelling gap rest : List UInt8} :
      token.Spells spelling → Blank gap → SqlText tokens rest →
      (∀ name, token = .word name → EndsWord (gap ++ rest)) →
      SqlText (token :: tokens) (spelling ++ (gap ++ rest))

/-- The comparison as it is written. -/
def TableComparison.symbol : TableComparison → String
  | .eq => "="
  | .lt => "<"
  | .le => "<="
  | .gt => ">"
  | .ge => ">="

/-- The tokens of a WHERE clause. -/
def SqlSelect.tokens : SqlSelect → List SqlToken
  | .all => []
  | .byId comparison id => [.word "WHERE", .word "id", .symbol comparison.symbol, .int id]
  | .byName name => [.word "WHERE", .word "name", .symbol "=", .string name]
  | .byAge comparison age => [.word "WHERE", .word "age", .symbol comparison.symbol, .int age]

/-- The tokens of a statement. -/
def SqlStatement.tokens : SqlStatement → List SqlToken
  | .insert name age =>
    [.word "INSERT", .word "INTO", .word "users", .word "VALUES", .symbol "(", .string name,
      .symbol ",", .int age, .symbol ")"]
  | .select rows =>
    [.word "SELECT", .symbol "*", .word "FROM", .word "users"] ++ rows.tokens

/-- What may stand behind a statement: nothing, or a semicolon. -/
inductive SqlEnd : List SqlToken → Prop
  | plain : SqlEnd []
  | semicolon : SqlEnd [.symbol ";"]

/-- `text` is the statement as SQL. -/
def SqlStatement.Renders (statement : SqlStatement) (text : List UInt8) : Prop :=
  ∃ ending, SqlEnd ending ∧ SqlText (statement.tokens ++ ending) text

/-- A value of type `int`. -/
def IsInt (n : Int) : Prop := -2 ^ 31 ≤ n ∧ n < 2 ^ 31

/-- A name that fits into a record and into quotes. -/
def IsName (name : List UInt8) : Prop := name.length < recordNameSize ∧ 0 ∉ name ∧ 39 ∉ name

/-- The values in a statement are such numbers and names. -/
def SqlStatement.Valid : SqlStatement → Prop
  | .insert name age => IsName name ∧ IsInt age
  | .select .all => True
  | .select (.byId _ id) => IsInt id
  | .select (.byName name) => IsName name
  | .select (.byAge _ age) => IsInt age

/-- What `sql_parse_int` makes of a literal: `strtol` stops at the bounds of `long`, and the
rest of the bits do not fit. -/
def sqlIntValue (n : Int) : Int := wrapInt (max (-2 ^ 63) (min (2 ^ 63 - 1) n))

theorem sqlIntValue_eq_self {n : Int} (hn : IsInt n) : sqlIntValue n = n := by
  obtain ⟨hmin, hmax⟩ := hn
  have hclamp : max (-2 ^ 63) (min (2 ^ 63 - 1) n) = n := by omega
  unfold sqlIntValue
  rw [hclamp, wrapInt_eq_self hmin hmax]

theorem isInt_wrapInt (x : Int) : IsInt (wrapInt x) := by
  refine ⟨?_, ?_⟩
  · exact Int.le_bmod (by decide)
  · exact Int.bmod_lt (by decide)

/-- The strings in a statement are names. -/
def SqlStatement.Named : SqlStatement → Prop
  | .insert name _ => IsName name
  | .select (.byName name) => IsName name
  | .select _ => True

/-- A SELECT with its number as it is read. -/
def SqlSelect.read : SqlSelect → SqlSelect
  | .byId comparison id => .byId comparison (sqlIntValue id)
  | .byAge comparison age => .byAge comparison (sqlIntValue age)
  | rows => rows

/-- A statement with its number as it is read. -/
def SqlStatement.read : SqlStatement → SqlStatement
  | .insert name age => .insert name (sqlIntValue age)
  | .select rows => .select rows.read

/-- Numbers that fit are read as they are. -/
theorem SqlStatement.Valid.read {statement : SqlStatement} (h : statement.Valid) :
    statement.Named ∧ statement.read = statement := by
  -- the values are in the range of an int, so reading them does not change them
  cases statement with
  | insert name age =>
    refine ⟨h.1, ?_⟩
    rw [SqlStatement.read, sqlIntValue_eq_self h.2]
  | select rows =>
    cases rows with
    | all => exact ⟨trivial, rfl⟩
    | byName name => exact ⟨h, rfl⟩
    | byId comparison id =>
      refine ⟨trivial, ?_⟩
      rw [SqlStatement.read, SqlSelect.read, sqlIntValue_eq_self h]
    | byAge comparison age =>
      refine ⟨trivial, ?_⟩
      rw [SqlStatement.read, SqlSelect.read, sqlIntValue_eq_self h]

/-! ## One text for every statement -/

/-- A token as one would write it. -/
def SqlToken.text : SqlToken → List UInt8
  | .word name => bytes name
  | .symbol text => bytes text
  | .string text => 39 :: (text ++ [39])
  | .int value => decimal value

/-- Tokens with a blank after each. -/
def sqlText : List SqlToken → List UInt8
  | [] => []
  | token :: tokens => token.text ++ ([byte ' '] ++ sqlText tokens)

theorem SqlToken.spells_text (token : SqlToken) : token.Spells token.text := by
  cases token with
  | word name => rfl
  | symbol text => rfl
  | string text => rfl
  | int value => exact isDecimal_decimal value

theorem blank_space : Blank [byte ' '] := by
  intro c hc
  obtain rfl := List.mem_singleton.mp hc
  decide

theorem sqlText_spec (tokens : List SqlToken) : SqlText tokens (sqlText tokens) := by
  induction tokens with
  | nil => exact .nil
  | cons token tokens ih => exact .cons token.spells_text blank_space ih fun _ _ => rfl

/-- Every statement has a text. -/
theorem SqlStatement.renders_sqlText (statement : SqlStatement) :
    statement.Renders (sqlText statement.tokens) := by
  refine ⟨[], .plain, ?_⟩
  rw [List.append_nil]
  exact sqlText_spec _

/-! ## Reading tokens -/

/-- The tokens that are still to be read at a cursor, with whitespace before them. -/
def At (tokens : List SqlToken) (cursor : Cursor) : Prop :=
  ∃ gap rest, Blank gap ∧ SqlText tokens rest ∧ cursor = gap ++ rest

section Read

variable {tokens : List SqlToken} {cursor : Cursor}

/-- Running a parser whose result is known. -/
theorem SqlParser.bind_of {α β : Type} {p : SqlParser α} {a : α} {cursor cursor' : Cursor}
    (h : p cursor = .ok (a, cursor')) (f : α → SqlParser β) : (p >>= f) cursor = f a cursor' := by
  have hbind : (p >>= f) cursor = (p cursor).bind fun r => f r.1 r.2 := rfl
  rw [hbind, h]
  rfl

theorem expect_of {α : Type} {scanner : Scanner α} {a : α} {cursor cursor' : Cursor}
    (h : scanner cursor = (some a, cursor')) : expect scanner cursor = .ok (a, cursor') := by
  rw [expect, h]

/-- A token at the cursor: its spelling, and the other tokens behind it. -/
theorem At.head {token : SqlToken} (h : At (token :: tokens) cursor) :
    ∃ gap spelling rest, Blank gap ∧ token.Spells spelling ∧ cursor = gap ++ (spelling ++ rest) ∧
      At tokens rest ∧ ∀ name, token = .word name → EndsWord rest := by
  obtain ⟨gap, text, hgap, htext, rfl⟩ := h
  cases htext with
  | cons hspells hgap' hrest hend =>
    exact ⟨gap, _, _, hgap, hspells, rfl, ⟨_, _, hgap', hrest, rfl⟩, hend⟩

/-- The byte at the cursor: whitespace, the end, or the first byte of the next token. -/
theorem At.peek_cases (h : At tokens cursor) :
    isSpace (peek cursor) = true ∨ (tokens = [] ∧ peek cursor = 0) ∨
      ∃ token rest spelling, tokens = token :: rest ∧ token.Spells spelling ∧
        (spelling ≠ [] → peek cursor = peek spelling) := by
  obtain ⟨gap, text, hgap, htext, rfl⟩ := h
  cases gap with
  | cons c gap => exact .inl (hgap c (List.mem_cons_self ..))
  | nil =>
    cases htext with
    | nil => exact .inr (.inl ⟨rfl, rfl⟩)
    | cons hspells _ _ _ =>
      exact .inr (.inr ⟨_, _, _, rfl, hspells, fun hne => peek_append hne _⟩)

/-- Letters only, at least one. -/
def IsWord (name : String) : Prop := bytes name ≠ [] ∧ ∀ c ∈ bytes name, isAlpha c = true

instance (name : String) : Decidable (IsWord name) := inferInstanceAs (Decidable (_ ∧ _))

theorem IsWord.zero_notMem {name : String} {spelling : List UInt8} (hname : IsWord name)
    (hspelling : SameWord (bytes name) spelling) : 0 ∉ spelling := fun h => by
  have halpha := hspelling.isAlpha hname.2 0 h
  exact absurd halpha (by decide)

theorem IsWord.ne_nil {name : String} {spelling : List UInt8} (hname : IsWord name)
    (hspelling : SameWord (bytes name) spelling) : spelling ≠ [] := fun h => by
  have hlen := hspelling.length_eq
  rw [h] at hlen
  exact hname.1 (List.eq_nil_of_length_eq_zero hlen.symm)

/-- Skipping the whitespace before a word. -/
theorem skipSpaces_word {name : String} {gap spelling rest : List UInt8} (hname : IsWord name)
    (hgap : Blank gap) (hspelling : SameWord (bytes name) spelling) :
    sqlSkipSpaces (gap ++ (spelling ++ rest)) = spelling ++ rest := by
  obtain ⟨c, cs, rfl⟩ := List.exists_cons_of_ne_nil (hname.ne_nil hspelling)
  have hc := hspelling.isAlpha hname.2 c (List.mem_cons_self ..)
  exact skipSpaces_append hgap (isSpace_of_isAlpha hc)

theorem At.keyword {name : String} (h : At (.word name :: tokens) cursor) (hname : IsWord name) :
    ∃ rest, expect (sqlMatchKeyword name) (sqlSkipSpaces cursor) = .ok ((), rest) ∧
      At tokens rest := by
  obtain ⟨gap, spelling, rest, hgap, hspelling, rfl, hrest, hend⟩ := h.head
  refine ⟨rest, expect_of ?_, hrest⟩
  rw [skipSpaces_word hname hgap hspelling]
  exact matchKeyword_append hspelling (hend name rfl)

/-- A name is read as it is spelled, and compares like the name itself. -/
theorem At.identifier {name : String} (h : At (.word name :: tokens) cursor) (hname : IsWord name)
    (hlen : (bytes name).length < 32) :
    ∃ spelling rest, expect (sqlParseIdentifier 32) cursor = .ok (spelling, rest) ∧
      At tokens rest ∧ ∀ other, strcasecmpEq spelling other = strcasecmpEq (bytes name) other := by
  obtain ⟨gap, spelling, rest, hgap, hspelling, rfl, hrest, hend⟩ := h.head
  refine ⟨spelling, rest, expect_of ?_, hrest, fun other => ?_⟩
  · refine parseIdentifier_append hgap (hname.ne_nil hspelling) (hspelling.isAlpha hname.2) ?_
      (hend name rfl)
    rwa [SameWord.length_eq hspelling]
  · have hself : SameWord (bytes name) (bytes name) := rfl
    unfold strcasecmpEq
    rw [cstr_eq_self (hname.zero_notMem hspelling), cstr_eq_self (hname.zero_notMem hself),
      show spelling.map toLower = _ from hspelling]

theorem At.users (h : At (.word "users" :: tokens) cursor) :
    ∃ rest, sqlExpectUsers cursor = .ok ((), rest) ∧ At tokens rest := by
  obtain ⟨spelling, rest, hrun, hrest, hsame⟩ := h.identifier (by decide) (by decide)
  refine ⟨rest, ?_, hrest⟩
  unfold sqlExpectUsers
  rw [SqlParser.bind_of hrun, if_pos]
  · rfl
  · rw [hsame]
    decide

theorem At.char {c : Char} {text : String} (h : At (.symbol text :: tokens) cursor)
    (htext : bytes text = [byte c]) (hc : isSpace (byte c) = false) :
    ∃ rest, sqlMatchChar c cursor = (some (), rest) ∧ At tokens rest := by
  obtain ⟨gap, spelling, rest, hgap, hspelling, rfl, hrest, -⟩ := h.head
  obtain rfl : spelling = [byte c] := htext ▸ hspelling
  exact ⟨rest, matchChar_append hgap hc, hrest⟩

/-- The string loop stops at the closing quote. -/
theorem sqlStringLoop_append {bufferSize length : Nat} {text rest : List UInt8} (hzero : 0 ∉ text)
    (hquote : 39 ∉ text) (hlen : length + text.length < bufferSize) :
    sqlStringLoop bufferSize length (text ++ 39 :: rest) = (some text, rest) := by
  induction text generalizing length with
  | nil => rfl
  | cons c text ih =>
    obtain ⟨hc0, hzero⟩ : 0 ≠ c ∧ 0 ∉ text := by simpa using hzero
    obtain ⟨hc39, hquote⟩ : 39 ≠ c ∧ 39 ∉ text := by simpa using hquote
    rw [List.length_cons] at hlen
    rw [List.cons_append, sqlStringLoop, if_neg hc0.symm, if_neg hc39.symm, if_neg (by omega),
      ih hzero hquote (by omega)]
    rfl

/-- A name between quotes is read. -/
theorem sqlParseString_append {gap text rest : List UInt8} (hgap : Blank gap)
    (htext : IsName text) :
    sqlParseString recordNameSize (gap ++ (39 :: (text ++ [39]) ++ rest)) = (some text, rest) := by
  obtain ⟨hlen, hzero, hquote⟩ := htext
  have hskip : sqlSkipSpaces (gap ++ (39 :: (text ++ [39]) ++ rest)) = 39 :: (text ++ 39 :: rest) := by
    rw [List.cons_append, List.append_assoc]
    exact skipSpaces_append hgap rfl
  unfold sqlParseString
  rw [hskip]
  exact sqlStringLoop_append hzero hquote (by simpa using hlen)

theorem At.string {text : List UInt8} (h : At (.string text :: tokens) cursor)
    (htext : IsName text) :
    ∃ rest, expect (sqlParseString recordNameSize) cursor = .ok (text, rest) ∧ At tokens rest := by
  obtain ⟨gap, spelling, rest, hgap, hspelling, rfl, hrest, -⟩ := h.head
  obtain rfl : spelling = 39 :: (text ++ [39]) := hspelling
  exact ⟨rest, expect_of (sqlParseString_append hgap htext), hrest⟩

/-- A number starts with a digit or a minus. -/
theorem peek_of_isDecimal {n : Int} {s : List UInt8} (hs : IsDecimal n s) :
    s ≠ [] ∧ (isDigit (peek s) = true ∨ peek s = byte '-') := by
  obtain ⟨digits, hne, hdigits, hcases⟩ := hs
  obtain ⟨d, ds, rfl⟩ := List.exists_cons_of_ne_nil hne
  rcases hcases with ⟨rfl, -⟩ | ⟨rfl, -⟩
  · exact ⟨hne, .inl (hdigits d (List.mem_cons_self ..))⟩
  · exact ⟨List.cons_ne_nil _ _, .inr rfl⟩

/-- A number is read up to its last digit. -/
theorem sqlParseInt_append {gap spelling rest : List UInt8} {value : Int} (hgap : Blank gap)
    (hspells : IsDecimal value spelling) (hnext : isDigit (peek rest) = false) :
    sqlParseInt (gap ++ (spelling ++ rest)) = (some (sqlIntValue value), rest) := by
  obtain ⟨hne, hpeek⟩ := peek_of_isDecimal hspells
  have hspace : isSpace (peek (spelling ++ rest)) = false := by
    rw [peek_append hne]
    rcases hpeek with hdigit | hminus
    · exact (isDigit_spec hdigit).1
    · rw [hminus]
      decide
  have hstart : (isDigit (peek (spelling ++ rest)) || peek (spelling ++ rest) == byte '-') = true := by
    rw [peek_append hne]
    rcases hpeek with hdigit | hminus
    · simp [hdigit]
    · simp [hminus]
  -- a number has at least one byte, so strtol has moved
  have hmoved : ¬ rest = spelling ++ rest := fun heq => by
    have hlen := congrArg List.length heq
    rw [List.length_append] at hlen
    exact hne (List.eq_nil_of_length_eq_zero (by omega))
  have hskip : sqlSkipSpaces (gap ++ (spelling ++ rest)) = spelling ++ rest :=
    skipSpaces_append hgap hspace
  unfold sqlParseInt
  rw [hskip]
  dsimp only
  rw [if_pos hstart, strtol_of_isDecimal hspells hnext]
  dsimp only
  rw [if_neg hmoved, sqlIntValue]

theorem At.int {value : Int} (h : At (.int value :: tokens) cursor)
    (hnext : ∀ rest, At tokens rest → isDigit (peek rest) = false) :
    ∃ rest, expect sqlParseInt cursor = .ok (sqlIntValue value, rest) ∧ At tokens rest := by
  obtain ⟨gap, spelling, rest, hgap, hspelling, rfl, hrest, -⟩ := h.head
  exact ⟨rest, expect_of (sqlParseInt_append hgap hspelling (hnext rest hrest)), hrest⟩

/-- The longest comparison is read. -/
theorem sqlParseComparison_append {gap rest : List UInt8} {comparison : TableComparison}
    (hgap : Blank gap) (hnext : comparison = .lt ∨ comparison = .gt → peek rest ≠ byte '=') :
    sqlParseComparison (gap ++ (bytes comparison.symbol ++ rest)) = (some comparison, rest) := by
  have hspace : isSpace (peek (bytes comparison.symbol ++ rest)) = false := by
    cases comparison <;> rfl
  have hskip : sqlSkipSpaces (gap ++ (bytes comparison.symbol ++ rest)) =
      bytes comparison.symbol ++ rest := skipSpaces_append hgap hspace
  unfold sqlParseComparison
  rw [hskip]
  cases comparison with
  | eq => rfl
  | le => rfl
  | ge => rfl
  -- `<` is no `<=` because no `=` follows
  | lt =>
    have hfirst : peek (bytes TableComparison.lt.symbol ++ rest) = byte '<' := rfl
    have hsecond : peek ((bytes TableComparison.lt.symbol ++ rest).drop 1) ≠ byte '=' :=
      hnext (.inl rfl)
    dsimp only
    rw [hfirst, if_neg fun hboth => absurd hboth.1 (by decide), if_neg fun hboth => hsecond hboth.2,
      if_neg (by decide), if_pos rfl]
    rfl
  | gt =>
    have hfirst : peek (bytes TableComparison.gt.symbol ++ rest) = byte '>' := rfl
    have hsecond : peek ((bytes TableComparison.gt.symbol ++ rest).drop 1) ≠ byte '=' :=
      hnext (.inr rfl)
    dsimp only
    rw [hfirst, if_neg fun hboth => hsecond hboth.2, if_neg fun hboth => absurd hboth.1 (by decide),
      if_pos rfl]
    rfl

theorem At.comparison {comparison : TableComparison}
    (h : At (.symbol comparison.symbol :: tokens) cursor)
    (hnext : ∀ rest, At tokens rest → peek rest ≠ byte '=') :
    ∃ rest, expect sqlParseComparison cursor = .ok (comparison, rest) ∧ At tokens rest := by
  obtain ⟨gap, spelling, rest, hgap, hspelling, rfl, hrest, -⟩ := h.head
  obtain rfl : spelling = bytes comparison.symbol := hspelling
  exact ⟨rest, expect_of (sqlParseComparison_append hgap fun _ => hnext rest hrest), hrest⟩

/-- Behind the last token the statement ends. -/
theorem At.statementEnd (hend : SqlEnd tokens) (h : At tokens cursor) :
    ∃ rest, sqlMatchStatementEnd cursor = (some (), rest) := by
  cases hend with
  -- the end of the text
  | plain =>
    obtain ⟨gap, text, hgap, htext, rfl⟩ := h
    cases htext
    have hskip : sqlSkipSpaces (gap ++ []) = [] := skipSpaces_append hgap rfl
    refine ⟨[], ?_⟩
    unfold sqlMatchStatementEnd
    rw [hskip]
    rfl
  -- a semicolon, and then the end of the text
  | semicolon =>
    obtain ⟨gap, spelling, rest, hgap, hspelling, rfl, ⟨gap', text, hgap', htext, rfl⟩, -⟩ := h.head
    obtain rfl : spelling = bytes ";" := hspelling
    cases htext
    have hskip : sqlSkipSpaces (gap ++ (bytes ";" ++ (gap' ++ []))) = bytes ";" ++ (gap' ++ []) :=
      skipSpaces_append hgap rfl
    have hskip' : sqlSkipSpaces (gap' ++ []) = [] := skipSpaces_append hgap' rfl
    have hfirst : peek (bytes ";" ++ (gap' ++ [])) = byte ';' := rfl
    have hdrop : (bytes ";" ++ (gap' ++ [])).drop 1 = gap' ++ [] := rfl
    refine ⟨[], ?_⟩
    unfold sqlMatchStatementEnd
    rw [hskip]
    dsimp only
    rw [hfirst, if_pos rfl, hdrop, hskip']
    rfl

/-- A word starts with a letter. -/
theorem At.isAlpha_peek {name : String} (h : At (.word name :: tokens) cursor)
    (hname : IsWord name) : isAlpha (peek (sqlSkipSpaces cursor)) = true := by
  obtain ⟨gap, spelling, rest, hgap, hspelling, rfl, -, -⟩ := h.head
  have hspells : SameWord (bytes name) spelling := hspelling
  obtain ⟨c, cs, rfl⟩ := List.exists_cons_of_ne_nil (hname.ne_nil hspells)
  rw [skipSpaces_word hname hgap hspells]
  exact hspells.isAlpha hname.2 c (List.mem_cons_self ..)

private theorem ne_of_isAlpha {c d : UInt8} (hc : isAlpha c = true) (hd : isAlpha d = false) :
    c ≠ d := fun h => by
  rw [h, hd] at hc
  cases hc

private theorem sqlSkipSpaces_twice (cursor : Cursor) :
    sqlSkipSpaces (sqlSkipSpaces cursor) = sqlSkipSpaces cursor := skipSpaces_skipSpaces cursor

/-- Before a word the statement does not end. -/
theorem At.not_statementEnd {name : String} (h : At (.word name :: tokens) cursor)
    (hname : IsWord name) : sqlMatchStatementEnd cursor = (none, sqlSkipSpaces cursor) := by
  have halpha := h.isAlpha_peek hname
  unfold sqlMatchStatementEnd
  dsimp only
  rw [if_neg (ne_of_isAlpha halpha (by decide)), sqlSkipSpaces_twice,
    if_neg (ne_of_isAlpha halpha (by decide))]

/-- Nor does it before a semicolon and a word, but the semicolon is passed. -/
theorem At.not_statementEnd_semicolon {name : String}
    (h : At (.symbol ";" :: .word name :: tokens) cursor) (hname : IsWord name) :
    peek (sqlSkipSpaces cursor) = byte ';' ∧ ∃ after, At (.word name :: tokens) after ∧
      sqlMatchStatementEnd cursor = (none, sqlSkipSpaces after) := by
  obtain ⟨gap, spelling, after, hgap, hspells, rfl, hafter, -⟩ := h.head
  obtain rfl : spelling = bytes ";" := hspells
  have hskip : sqlSkipSpaces (gap ++ (bytes ";" ++ after)) = bytes ";" ++ after :=
    skipSpaces_append hgap rfl
  have hpeek : peek (bytes ";" ++ after) = byte ';' := rfl
  have hdrop : (bytes ";" ++ after).drop 1 = after := rfl
  rw [hskip]
  -- the semicolon is passed over before the test for the end fails
  refine ⟨hpeek, after, hafter, ?_⟩
  unfold sqlMatchStatementEnd
  dsimp only
  rw [hskip, if_pos hpeek, hdrop, if_neg (ne_of_isAlpha (hafter.isAlpha_peek hname) (by decide))]

/-! ## Reading statements -/

/-- Between a number and a digit there is another token. -/
private theorem isDigit_peek_of_symbol {text : String} {rest : List UInt8} (hne : bytes text ≠ [])
    (htext : isDigit (peek (bytes text)) = false) (h : At (.symbol text :: tokens) rest) :
    isDigit (peek rest) = false := by
  rcases h.peek_cases with hspace | ⟨hnil, -⟩ | ⟨token, after, spelling, heq, hspells, hpeek⟩
  · by_contra hdigit
    rw [(isDigit_spec (by simpa using hdigit)).1] at hspace
    cases hspace
  · cases hnil
  · obtain ⟨rfl, rfl⟩ := List.cons.inj heq
    obtain rfl : spelling = bytes text := hspells
    rw [hpeek hne, htext]

private theorem isDigit_peek_of_end {rest : List UInt8} (hend : SqlEnd tokens)
    (h : At tokens rest) : isDigit (peek rest) = false := by
  cases hend with
  | plain =>
    rcases h.peek_cases with hspace | ⟨-, hzero⟩ | ⟨token, after, spelling, heq, -, -⟩
    · by_contra hdigit
      rw [(isDigit_spec (by simpa using hdigit)).1] at hspace
      cases hspace
    · rw [hzero]
      decide
    · cases heq
  | semicolon => exact isDigit_peek_of_symbol (by decide) (by decide) h

/-- Neither whitespace nor a number or a string starts with `=`. -/
private theorem peek_ne_eq {value : SqlToken} {rest : List UInt8}
    (hvalue : ∀ spelling, value.Spells spelling → spelling ≠ [] ∧ peek spelling ≠ byte '=')
    (h : At (value :: tokens) rest) : peek rest ≠ byte '=' := by
  intro heq
  rcases h.peek_cases with hspace | ⟨hnil, -⟩ | ⟨token, after, spelling, hcons, hspells, hpeek⟩
  · rw [heq] at hspace
    exact absurd hspace (by decide)
  · cases hnil
  · obtain ⟨rfl, rfl⟩ := List.cons.inj hcons
    obtain ⟨hne, hpeek'⟩ := hvalue spelling hspells
    exact hpeek' ((hpeek hne).symm.trans heq)

private theorem spells_int_ne_eq (n : Int) (spelling : List UInt8)
    (h : (SqlToken.int n).Spells spelling) : spelling ≠ [] ∧ peek spelling ≠ byte '=' := by
  obtain ⟨hne, hpeek⟩ := peek_of_isDecimal h
  refine ⟨hne, fun heq => ?_⟩
  rw [heq] at hpeek
  exact absurd hpeek (by decide)

private theorem spells_string_ne_eq (text spelling : List UInt8)
    (h : (SqlToken.string text).Spells spelling) : spelling ≠ [] ∧ peek spelling ≠ byte '=' := by
  obtain rfl : spelling = 39 :: (text ++ [39]) := h
  have hquote : (39 : UInt8) ≠ byte '=' := by decide
  exact ⟨List.cons_ne_nil _ _, hquote⟩

/-- The rest of an INSERT is read back. -/
theorem sqlInsertValues_of_at {ending : List SqlToken} {name : List UInt8} {age : Int}
    (hend : SqlEnd ending) (hname : IsName name)
    (h : At ((SqlStatement.insert name age).tokens.tail ++ ending) cursor) :
    ∃ rest, sqlInsertValues cursor = .ok ((name, sqlIntValue age), rest) := by
  -- token by token; each one leaves the cursor at the next
  obtain ⟨c₁, hinto, h⟩ := h.keyword (by decide)
  obtain ⟨c₂, husers, h⟩ := h.users
  obtain ⟨c₃, hvalues, h⟩ := h.keyword (by decide)
  obtain ⟨c₄, hopen, h⟩ := At.char (c := '(') h (by decide) (by decide)
  obtain ⟨c₅, hstring, h⟩ := h.string hname
  obtain ⟨c₆, hcomma, h⟩ := At.char (c := ',') h (by decide) (by decide)
  obtain ⟨c₇, hint, h⟩ := h.int fun rest => isDigit_peek_of_symbol (by decide) (by decide)
  obtain ⟨c₈, hclose, h⟩ := At.char (c := ')') h (by decide) (by decide)
  obtain ⟨rest, hdone⟩ := At.statementEnd hend h
  refine ⟨rest, ?_⟩
  unfold sqlInsertValues
  have hskip : ∀ cursor, skip cursor = .ok ((), sqlSkipSpaces cursor) := fun _ => rfl
  rw [SqlParser.bind_of (hskip _), SqlParser.bind_of hinto, SqlParser.bind_of husers,
    SqlParser.bind_of (hskip _), SqlParser.bind_of hvalues, SqlParser.bind_of (expect_of hopen),
    SqlParser.bind_of hstring, SqlParser.bind_of (expect_of hcomma), SqlParser.bind_of hint,
    SqlParser.bind_of (expect_of hclose), SqlParser.bind_of (expect_of hdone)]
  rfl

/-- A WHERE clause is read back. -/
theorem sqlWhere_of_at {ending : List SqlToken} {rows : SqlSelect} (hend : SqlEnd ending)
    (hrows : rows ≠ .all) (hnamed : (SqlStatement.select rows).Named)
    (h : At (rows.tokens.tail ++ ending) cursor) :
    ∃ rest, sqlWhere cursor = .ok (rows.read, rest) := by
  have hget : ∀ cursor, (get : SqlParser Cursor) cursor = .ok (cursor, cursor) := fun _ => rfl
  unfold sqlWhere
  cases rows with
  | all => exact absurd rfl hrows
  | byId comparison id =>
    obtain ⟨column, c₁, hcolumn, h, hsame⟩ := h.identifier (by decide) (by decide)
    obtain ⟨c₂, hcomparison, h⟩ := At.comparison h fun rest => peek_ne_eq (spells_int_ne_eq id)
    obtain ⟨c₃, hint, h⟩ := h.int fun rest => isDigit_peek_of_end hend
    obtain ⟨rest, hdone⟩ := At.statementEnd hend h
    -- the column is compared with `id` first
    have hid : strcasecmpEq column (bytes "id") = true := by rw [hsame]; decide
    refine ⟨rest, ?_⟩
    rw [SqlParser.bind_of hcolumn, SqlParser.bind_of (hget _), SqlParser.bind_of hcomparison,
      if_pos hid, SqlParser.bind_of hint, SqlParser.bind_of (expect_of hdone)]
    rfl
  | byName name =>
    obtain ⟨column, c₁, hcolumn, h, hsame⟩ := h.identifier (by decide) (by decide)
    have hequals : At (.symbol TableComparison.eq.symbol :: .string name :: ending) c₁ := h
    obtain ⟨c₂, hcomparison, h⟩ := hequals.comparison fun rest => peek_ne_eq (spells_string_ne_eq name)
    obtain ⟨c₃, hstring, h⟩ := h.string hnamed
    obtain ⟨rest, hdone⟩ := At.statementEnd hend h
    have hid : strcasecmpEq column (bytes "id") = false := by rw [hsame]; decide
    have hname : strcasecmpEq column (bytes "name") = true := by rw [hsame]; decide
    refine ⟨rest, ?_⟩
    rw [SqlParser.bind_of hcolumn, SqlParser.bind_of (hget _), SqlParser.bind_of hcomparison,
      if_neg (by simp [hid]), if_pos hname, if_pos rfl, SqlParser.bind_of hstring,
      SqlParser.bind_of (expect_of hdone)]
    rfl
  | byAge comparison age =>
    obtain ⟨column, c₁, hcolumn, h, hsame⟩ := h.identifier (by decide) (by decide)
    obtain ⟨c₂, hcomparison, h⟩ := At.comparison h fun rest => peek_ne_eq (spells_int_ne_eq age)
    obtain ⟨c₃, hint, h⟩ := h.int fun rest => isDigit_peek_of_end hend
    obtain ⟨rest, hdone⟩ := At.statementEnd hend h
    have hid : strcasecmpEq column (bytes "id") = false := by rw [hsame]; decide
    have hname : strcasecmpEq column (bytes "name") = false := by rw [hsame]; decide
    have hage : strcasecmpEq column (bytes "age") = true := by rw [hsame]; decide
    refine ⟨rest, ?_⟩
    rw [SqlParser.bind_of hcolumn, SqlParser.bind_of (hget _), SqlParser.bind_of hcomparison,
      if_neg (by simp [hid]), if_neg (by simp [hname]), if_pos hage, SqlParser.bind_of hint,
      SqlParser.bind_of (expect_of hdone)]
    rfl

/-- The first part of a SELECT, up to the name of the table. -/
def sqlSelectTable : SqlParser Unit := do
  skip
  sqlSelectList
  skip
  expect (sqlMatchKeyword "FROM")
  sqlExpectUsers

/-- The second part: the end, or a condition. -/
def sqlSelectCondition : SqlParser SqlSelect := do
  skip
  match ← attempt sqlMatchStatementEnd with
  | some () => pure .all
  | none =>
    expect (sqlMatchKeyword "WHERE")
    sqlWhere

private theorem skip_apply (cursor : Cursor) : skip cursor = .ok ((), sqlSkipSpaces cursor) := rfl

/-- The end is looked for behind whitespace anyway. -/
theorem sqlMatchStatementEnd_skipSpaces (cursor : Cursor) :
    sqlMatchStatementEnd (sqlSkipSpaces cursor) = sqlMatchStatementEnd cursor := by
  unfold sqlMatchStatementEnd
  rw [sqlSkipSpaces_twice]

/-- So is a star. -/
theorem sqlMatchChar_skipSpaces (c : Char) (cursor : Cursor) :
    sqlMatchChar c (sqlSkipSpaces cursor) = sqlMatchChar c cursor := by
  unfold sqlMatchChar matchChar
  rw [show skipSpaces (sqlSkipSpaces cursor) = skipSpaces cursor from sqlSkipSpaces_twice cursor]

theorem sqlSelectRows_eq : sqlSelectRows = sqlSelectTable >>= fun _ => sqlSelectCondition := by
  unfold sqlSelectTable
  simp only [bind_assoc]
  rfl

theorem sqlSelectRows_of_table {c : Cursor} (h : sqlSelectTable cursor = .ok ((), c)) :
    sqlSelectRows cursor = sqlSelectCondition c := by
  rw [sqlSelectRows_eq, SqlParser.bind_of h]

/-- Behind the end of the statement there is nothing to read. -/
theorem sqlSelectCondition_of_end {c rest : Cursor}
    (h : sqlMatchStatementEnd c = (some (), rest)) : sqlSelectCondition c = .ok (.all, rest) := by
  have hattempt : attempt sqlMatchStatementEnd (sqlSkipSpaces c) = .ok (some (), rest) := by
    rw [attempt, sqlMatchStatementEnd_skipSpaces, h]
  unfold sqlSelectCondition
  rw [SqlParser.bind_of (skip_apply c), SqlParser.bind_of hattempt]
  rfl

/-- Otherwise the condition is read where the search for the end has stopped. -/
theorem sqlSelectCondition_of_where {c c' c'' rest : Cursor} {rows : SqlSelect}
    (h : sqlMatchStatementEnd c = (none, c')) 
    (hwhere : expect (sqlMatchKeyword "WHERE") c' = .ok ((), c''))
    (hrows : sqlWhere c'' = .ok (rows, rest)) : sqlSelectCondition c = .ok (rows, rest) := by
  have hattempt : attempt sqlMatchStatementEnd (sqlSkipSpaces c) = .ok (none, c') := by
    rw [attempt, sqlMatchStatementEnd_skipSpaces, h]
  unfold sqlSelectCondition
  rw [SqlParser.bind_of (skip_apply c), SqlParser.bind_of hattempt]
  dsimp only
  rw [SqlParser.bind_of hwhere, hrows]

/-- The table name is read, and the cursor stands behind it. -/
theorem At.sqlSelectTable
    (h : At ([.symbol "*", .word "FROM", .word "users"] ++ tokens) cursor) :
    ∃ c, Core.sqlSelectTable cursor = .ok ((), c) ∧ At tokens c := by
  obtain ⟨c₁, hstar, h⟩ := At.char (c := '*') h (by decide) (by decide)
  obtain ⟨c₂, hfrom, h⟩ := h.keyword (by decide)
  obtain ⟨c₃, husers, h⟩ := h.users
  refine ⟨c₃, ?_, h⟩
  have hlist : sqlSelectList (sqlSkipSpaces cursor) = .ok ((), c₁) := by
    rw [sqlSelectList, sqlMatchChar_skipSpaces, hstar]
  unfold Core.sqlSelectTable
  rw [SqlParser.bind_of (skip_apply _), SqlParser.bind_of hlist, SqlParser.bind_of (skip_apply _),
    SqlParser.bind_of hfrom, husers]

/-- The rest of a SELECT is read back. -/
theorem sqlSelectRows_of_at {ending : List SqlToken} {rows : SqlSelect} (hend : SqlEnd ending)
    (hnamed : (SqlStatement.select rows).Named)
    (h : At ((SqlStatement.select rows).tokens.tail ++ ending) cursor) :
    ∃ rest, sqlSelectRows cursor = .ok (rows.read, rest) := by
  obtain ⟨c, htable, h⟩ := At.sqlSelectTable h
  rw [sqlSelectRows_of_table htable]
  by_cases hrows : rows = .all
  · subst hrows
    obtain ⟨rest, hdone⟩ := At.statementEnd hend h
    exact ⟨rest, sqlSelectCondition_of_end hdone⟩
  · -- a condition starts with WHERE, which is no end of the statement
    have hwords : At (.word "WHERE" :: (rows.tokens.tail ++ ending)) c := by
      cases rows with
      | all => exact absurd rfl hrows
      | _ => exact h
    obtain ⟨c', hwhere, h⟩ := hwords.keyword (by decide)
    obtain ⟨rest, hcondition⟩ := sqlWhere_of_at hend hrows hnamed h
    exact ⟨rest, sqlSelectCondition_of_where (hwords.not_statementEnd (by decide)) hwhere hcondition⟩

/-- The keyword of a statement and the parser behind it. -/
private theorem sqlStatement_of_text {α : Type} {keyword : String} {tokens : List SqlToken}
    {text : List UInt8} {parser : SqlParser α} {a : α}
    (htext : SqlText (.word keyword :: tokens) text)
    (hparser : ∀ cursor, At tokens cursor → ∃ rest, parser cursor = .ok (a, rest)) :
    sqlStatement keyword parser text = .ok a := by
  cases htext with
  -- the first word is matched, and the rest is left to the parser
  | @cons _ _ spelling gap rest hspells hgap hrest hend =>
    have hmatch : sqlMatchKeyword keyword (spelling ++ (gap ++ rest)) = (some (), gap ++ rest) :=
      matchKeyword_append hspells (hend keyword rfl)
    obtain ⟨after, hrun⟩ := hparser (gap ++ rest) ⟨gap, rest, hgap, hrest, rfl⟩
    have hrun' : parser.run (gap ++ rest) = .ok (a, after) := hrun
    unfold sqlStatement
    rw [hmatch]
    dsimp only
    rw [hrun']
    rfl

end Read

/-- The parser reads every text of a statement back, whatever number is in it. -/
theorem sqlParse_read {statement : SqlStatement} {text : List UInt8} (hnamed : statement.Named)
    (htext : statement.Renders text) : sqlParse text = .ok statement.read := by
  obtain ⟨ending, hend, htext⟩ := htext
  cases statement with
  | insert name age =>
    refine sqlParse_of_insert (sqlStatement_of_text htext fun cursor h => ?_)
    exact sqlInsertValues_of_at hend hnamed h
  | select rows =>
    refine sqlParse_of_select (sqlStatement_of_text htext fun cursor h => ?_)
    exact sqlSelectRows_of_at hend hnamed h

/-- The parser reads every text of a statement back. -/
theorem sqlParse_of_renders {statement : SqlStatement} {text : List UInt8}
    (hvalid : statement.Valid) (htext : statement.Renders text) :
    sqlParse text = .ok statement := by
  obtain ⟨hnamed, hread⟩ := hvalid.read
  rw [sqlParse_read hnamed htext, hread]

end SqlApi.Core

import SqlApi.Core.SqlRun

/-!
# The accepted statements

What the parser accepts, read backwards: every step of a parser that succeeded found a
token, so an accepted text is made of the tokens of a statement. With the other direction,
that every text of a statement is read back, this settles which texts are accepted.

- **INSERT**: exactly the texts of an INSERT.
- **SELECT**: the texts of a SELECT, and one kind of text more. The test for the end of the
  statement moves the cursor past a semicolon also when it fails, and WHERE is looked for
  behind it.
-/

namespace SqlApi.Core

open SqlApi.Lib

/-! ## Finding tokens -/

/-- The token stands at the cursor, after whitespace, and `rest` is behind it. -/
def SqlToken.FoundAt (token : SqlToken) (cursor rest : Cursor) : Prop :=
  ∃ gap spelling, Blank gap ∧ token.Spells spelling ∧ cursor = gap ++ (spelling ++ rest) ∧
    ∀ name, token = .word name → EndsWord rest

section Found

variable {α β : Type} {token : SqlToken} {tokens : List SqlToken} {cursor rest : Cursor}

theorem SqlToken.FoundAt.at (h : token.FoundAt cursor rest) (hrest : At tokens rest) :
    At (token :: tokens) cursor := by
  obtain ⟨gap, spelling, hgap, hspells, rfl, hend⟩ := h
  obtain ⟨gap', text, hgap', htext, rfl⟩ := hrest
  exact ⟨gap, _, hgap, .cons hspells hgap' htext hend, rfl⟩

theorem SqlToken.FoundAt.zero_notMem (h : token.FoundAt cursor rest) (hzero : 0 ∉ cursor) :
    0 ∉ rest := by
  obtain ⟨gap, spelling, -, -, rfl, -⟩ := h
  exact fun hmem => hzero (List.mem_append_right _ (List.mem_append_right _ hmem))

/-- A parser that succeeded did so step by step. -/
theorem SqlParser.bind_eq_ok {p : SqlParser α} {f : α → SqlParser β} {b : β}
    (h : (p >>= f) cursor = .ok (b, rest)) :
    ∃ a cursor', p cursor = .ok (a, cursor') ∧ f a cursor' = .ok (b, rest) := by
  have hbind : (p >>= f) cursor = (p cursor).bind fun r => f r.1 r.2 := rfl
  rw [hbind] at h
  cases hp : p cursor with
  | error e =>
    rw [hp] at h
    cases h
  | ok r =>
    rw [hp] at h
    exact ⟨r.1, r.2, rfl, h⟩

theorem SqlParser.skip_bind_eq_ok {f : Unit → SqlParser β} {b : β}
    (h : (skip >>= f) cursor = .ok (b, rest)) : f () (sqlSkipSpaces cursor) = .ok (b, rest) := h

theorem SqlParser.pure_eq_ok {a b : α} (h : (pure a : SqlParser α) cursor = .ok (b, rest)) :
    a = b ∧ cursor = rest := Prod.mk.inj (Except.ok.inj h)

theorem expect_eq_ok {scanner : Scanner α} {a : α} (h : expect scanner cursor = .ok (a, rest)) :
    scanner cursor = (some a, rest) := by
  unfold expect at h
  split at h
  next heq =>
    obtain ⟨rfl, rfl⟩ := Prod.mk.inj (Except.ok.inj h)
    exact heq
  next => cases h

theorem found_keyword {name : String} (hname : 0 ∉ bytes name)
    (h : expect (sqlMatchKeyword name) (sqlSkipSpaces cursor) = .ok ((), rest)) :
    (SqlToken.word name).FoundAt cursor rest := by
  obtain ⟨text, htext, hend, hcursor⟩ := matchKeyword_eq_some hname (expect_eq_ok h)
  obtain ⟨gap, hgap, heq⟩ := skipSpaces_spec cursor
  exact ⟨gap, text, hgap, htext, hcursor ▸ heq, fun _ _ => hend⟩

theorem found_char {c : Char} {text : String} (htext : bytes text = [byte c]) (hc : byte c ≠ 0)
    (h : sqlMatchChar c cursor = (some (), rest)) :
    (SqlToken.symbol text).FoundAt cursor rest := by
  obtain ⟨gap, hgap, heq⟩ := matchChar_eq_some hc h
  exact ⟨gap, [byte c], hgap, htext.symm, heq, nofun⟩

/-- An identifier that compares like a name is one of its spellings. -/
theorem found_identifier {name : String} {column : List UInt8} (hname : 0 ∉ bytes name)
    (h : expect (sqlParseIdentifier 32) cursor = .ok (column, rest))
    (hsame : strcasecmpEq column (bytes name) = true) :
    (SqlToken.word name).FoundAt cursor rest := by
  obtain ⟨gap, hgap, hident, hend, heq⟩ := parseIdentifier_eq_some (expect_eq_ok h)
  have hzero : 0 ∉ column := fun hmem => absurd (hident 0 hmem) (by decide)
  have hspells : SameWord (bytes name) column := by
    unfold strcasecmpEq at hsame
    rw [cstr_eq_self hzero, cstr_eq_self hname] at hsame
    exact eq_of_beq hsame
  exact ⟨gap, column, hgap, hspells, heq, fun _ _ => hend⟩

theorem found_users (h : sqlExpectUsers cursor = .ok ((), rest)) :
    (SqlToken.word "users").FoundAt cursor rest := by
  unfold sqlExpectUsers at h
  obtain ⟨tableName, cursor', hname, h⟩ := SqlParser.bind_eq_ok h
  split at h
  case isTrue hsame =>
    obtain ⟨-, rfl⟩ := SqlParser.pure_eq_ok h
    exact found_identifier (by decide) hname hsame
  case isFalse => cases h

theorem found_string {text : List UInt8}
    (h : expect (sqlParseString recordNameSize) cursor = .ok (text, rest)) :
    (SqlToken.string text).FoundAt cursor rest ∧ IsName text := by
  obtain ⟨gap, hgap, rfl, hzero, hquote, hlen⟩ :=
    sqlParseString_eq_some (by decide) (expect_eq_ok h)
  refine ⟨⟨gap, 39 :: (text ++ [39]), hgap, rfl, ?_, nofun⟩, hlen, hzero, hquote⟩
  simp

/-- A number that was read is the whole of it. -/
theorem found_digits {value : Int} (hint : sqlParseInt cursor = (some value, rest)) :
    ∃ n, (SqlToken.int n).FoundAt cursor rest ∧ value = sqlIntValue n ∧
      isDigit (peek rest) = false := by
  obtain ⟨gap, hgap, heq⟩ := skipSpaces_spec cursor
  unfold sqlParseInt at hint
  dsimp only at hint
  split at hint
  case isFalse => cases hint
  case isTrue hstart =>
    have hstart' : isDigit (peek (sqlSkipSpaces cursor)) = true ∨
        peek (sqlSkipSpaces cursor) = 45 := by simpa using hstart
    split at hint
    case isTrue => cases hint
    case isFalse hmoved =>
      cases hscan : scanInteger (sqlSkipSpaces cursor) with
      | none =>
        unfold strtol at hmoved
        rw [hscan] at hmoved
        exact absurd rfl hmoved
      | some found =>
        obtain ⟨negative, k, after⟩ := found
        obtain ⟨n, spelling, hspells, hcursor, hnext⟩ := scanInteger_eq_some hstart' hscan
        rw [hcursor, strtol_of_isDecimal hspells hnext] at hint
        obtain ⟨hvalue, rfl⟩ := Prod.mk.inj hint
        exact ⟨n, ⟨gap, spelling, hgap, hspells, hcursor ▸ heq, nofun⟩,
          (Option.some.inj hvalue).symm, hnext⟩

theorem found_int {value : Int} (h : expect sqlParseInt cursor = .ok (value, rest)) :
    ∃ n, (SqlToken.int n).FoundAt cursor rest ∧ value = sqlIntValue n := by
  obtain ⟨n, hfound, hvalue, -⟩ := found_digits (expect_eq_ok h)
  exact ⟨n, hfound, hvalue⟩

theorem found_comparison {comparison : TableComparison}
    (h : expect sqlParseComparison cursor = .ok (comparison, rest)) :
    (SqlToken.symbol comparison.symbol).FoundAt cursor rest := by
  have hscan := expect_eq_ok h
  obtain ⟨gap, hgap, heq⟩ := skipSpaces_spec cursor
  have hfound {symbol : String} (hcursor : sqlSkipSpaces cursor = bytes symbol ++ rest) :
      (SqlToken.symbol symbol).FoundAt cursor rest :=
    ⟨gap, bytes symbol, hgap, rfl, hcursor ▸ heq, nofun⟩
  have htwo {c : UInt8} (hc : c ≠ 0) (hpeek : peek (sqlSkipSpaces cursor) = c ∧
      peek ((sqlSkipSpaces cursor).drop 1) = byte '=') :
      sqlSkipSpaces cursor = [c, byte '='] ++ (sqlSkipSpaces cursor).drop 2 := by
    have hsecond := eq_cons_of_peek hpeek.2 (by decide)
    rw [List.drop_drop] at hsecond
    exact (eq_cons_of_peek hpeek.1 hc).trans (congrArg (c :: ·) hsecond)
  -- the code tries the symbols of two characters first
  unfold sqlParseComparison at hscan
  dsimp only at hscan
  split at hscan
  case isTrue hge =>
    obtain ⟨⟨⟩, rfl⟩ := Prod.mk.inj hscan
    exact hfound (htwo (by decide) hge)
  split at hscan
  case isTrue hle =>
    obtain ⟨⟨⟩, rfl⟩ := Prod.mk.inj hscan
    exact hfound (htwo (by decide) hle)
  split at hscan
  case isTrue hgt =>
    obtain ⟨⟨⟩, rfl⟩ := Prod.mk.inj hscan
    exact hfound (eq_cons_of_peek hgt (by decide))
  split at hscan
  case isTrue hlt =>
    obtain ⟨⟨⟩, rfl⟩ := Prod.mk.inj hscan
    exact hfound (eq_cons_of_peek hlt (by decide))
  split at hscan
  case isTrue heq' =>
    obtain ⟨⟨⟩, rfl⟩ := Prod.mk.inj hscan
    exact hfound (eq_cons_of_peek heq' (by decide))
  case isFalse => cases hscan

theorem found_semicolon (h : peek (sqlSkipSpaces cursor) = byte ';') :
    (SqlToken.symbol ";").FoundAt cursor ((sqlSkipSpaces cursor).drop 1) := by
  obtain ⟨gap, hgap, heq⟩ := skipSpaces_spec cursor
  have hcursor := eq_cons_of_peek h (by decide)
  exact ⟨gap, bytes ";", hgap, rfl, heq.trans (congrArg (gap ++ ·) hcursor), nofun⟩

/-- Only whitespace is left. -/
private theorem at_nil (hpeek : peek (sqlSkipSpaces cursor) = 0) (hzero : 0 ∉ cursor) :
    At [] cursor := by
  obtain ⟨gap, hgap, heq⟩ := skipSpaces_spec cursor
  refine ⟨gap, [], hgap, .nil, ?_⟩
  cases hcursor : sqlSkipSpaces cursor with
  | nil => exact heq.trans (congrArg (gap ++ ·) hcursor)
  | cons c after =>
    rw [hcursor] at hpeek
    obtain rfl : c = 0 := hpeek
    have hmem : (0 : UInt8) ∈ gap ++ sqlSkipSpaces cursor := by
      rw [hcursor]
      exact List.mem_append_right _ (List.mem_cons_self ..)
    exact absurd (heq ▸ hmem) hzero

/-- The end of a statement that was found. -/
theorem at_of_statementEnd (h : sqlMatchStatementEnd cursor = (some (), rest))
    (hzero : 0 ∉ cursor) : ∃ ending, SqlEnd ending ∧ At ending cursor := by
  unfold sqlMatchStatementEnd at h
  dsimp only at h
  by_cases hsemicolon : peek (sqlSkipSpaces cursor) = byte ';'
  · rw [if_pos hsemicolon] at h
    have hfound := found_semicolon hsemicolon
    have hpeek : peek (sqlSkipSpaces ((sqlSkipSpaces cursor).drop 1)) = 0 := by
      by_contra hne
      rw [if_neg hne] at h
      cases h
    exact ⟨_, .semicolon, hfound.at (at_nil hpeek (hfound.zero_notMem hzero))⟩
  · rw [if_neg hsemicolon, show sqlSkipSpaces (sqlSkipSpaces cursor) = sqlSkipSpaces cursor from
      skipSpaces_skipSpaces cursor] at h
    have hpeek : peek (sqlSkipSpaces cursor) = 0 := by
      by_contra hne
      rw [if_neg hne] at h
      cases h
    exact ⟨_, .plain, at_nil hpeek hzero⟩

/-- Where the cursor is when the statement does not end: at the next token, or at the one
behind a semicolon. -/
theorem cursor_of_not_statementEnd (h : sqlMatchStatementEnd cursor = (none, rest)) :
    rest = sqlSkipSpaces cursor ∨
      ∃ after, (SqlToken.symbol ";").FoundAt cursor after ∧ rest = sqlSkipSpaces after := by
  unfold sqlMatchStatementEnd at h
  dsimp only at h
  obtain ⟨-, rfl⟩ := Prod.mk.inj h
  by_cases hsemicolon : peek (sqlSkipSpaces cursor) = byte ';'
  · rw [if_pos hsemicolon]
    exact .inr ⟨_, found_semicolon hsemicolon, rfl⟩
  · rw [if_neg hsemicolon]
    exact .inl (skipSpaces_skipSpaces cursor)

/-! ## Reading statements backwards -/

/-- The scanners that read the values of an INSERT, one after the other. -/
private theorem sqlInsertValues_eq_ok {name : List UInt8} {age : Int}
    (h : sqlInsertValues cursor = .ok ((name, age), rest)) :
    ∃ c₁ c₂ c₃ c₄ c₅ c₆ c₇ c₈,
      expect (sqlMatchKeyword "INTO") (sqlSkipSpaces cursor) = .ok ((), c₁) ∧
      sqlExpectUsers c₁ = .ok ((), c₂) ∧
      expect (sqlMatchKeyword "VALUES") (sqlSkipSpaces c₂) = .ok ((), c₃) ∧
      expect (sqlMatchChar '(') c₃ = .ok ((), c₄) ∧
      expect (sqlParseString recordNameSize) c₄ = .ok (name, c₅) ∧
      expect (sqlMatchChar ',') c₅ = .ok ((), c₆) ∧
      expect sqlParseInt c₆ = .ok (age, c₇) ∧
      expect (sqlMatchChar ')') c₇ = .ok ((), c₈) ∧
      ∃ c₉, expect sqlMatchStatementEnd c₈ = .ok ((), c₉) := by
  -- one step of the parser after the other; `cᵢ` is the cursor behind the i-th
  unfold sqlInsertValues at h
  replace h := SqlParser.skip_bind_eq_ok h
  obtain ⟨⟨⟩, c₁, hinto, h⟩ := SqlParser.bind_eq_ok h
  obtain ⟨⟨⟩, c₂, husers, h⟩ := SqlParser.bind_eq_ok h
  replace h := SqlParser.skip_bind_eq_ok h
  obtain ⟨⟨⟩, c₃, hvalues, h⟩ := SqlParser.bind_eq_ok h
  obtain ⟨⟨⟩, c₄, hopen, h⟩ := SqlParser.bind_eq_ok h
  obtain ⟨name', c₅, hstring, h⟩ := SqlParser.bind_eq_ok h
  obtain ⟨⟨⟩, c₆, hcomma, h⟩ := SqlParser.bind_eq_ok h
  obtain ⟨age', c₇, hint, h⟩ := SqlParser.bind_eq_ok h
  obtain ⟨⟨⟩, c₈, hclose, h⟩ := SqlParser.bind_eq_ok h
  obtain ⟨⟨⟩, c₉, hdone, h⟩ := SqlParser.bind_eq_ok h
  obtain ⟨heq, -⟩ := SqlParser.pure_eq_ok h
  obtain ⟨rfl, rfl⟩ := Prod.mk.inj heq
  exact ⟨c₁, c₂, c₃, c₄, c₅, c₆, c₇, c₈, hinto, husers, hvalues, hopen, hstring, hcomma, hint,
    hclose, c₉, hdone⟩

/-- Whatever its text, the age of an INSERT was read by `sql_parse_int`. -/
theorem int_of_sqlInsertValues {name : List UInt8} {age : Int}
    (h : sqlInsertValues cursor = .ok ((name, age), rest)) : ∃ n, age = sqlIntValue n := by
  obtain ⟨c₁, c₂, c₃, c₄, c₅, c₆, c₇, c₈, -, -, -, -, -, -, hint, -⟩ := sqlInsertValues_eq_ok h
  obtain ⟨n, -, hage⟩ := found_int hint
  exact ⟨n, hage⟩

/-- What was read as the values of an INSERT is their text. -/
theorem at_of_sqlInsertValues {name : List UInt8} {age : Int}
    (h : sqlInsertValues cursor = .ok ((name, age), rest)) (hzero : 0 ∉ cursor) :
    ∃ n ending, SqlEnd ending ∧ IsName name ∧ age = sqlIntValue n ∧
      At ((SqlStatement.insert name n).tokens.tail ++ ending) cursor := by
  obtain ⟨c₁, c₂, c₃, c₄, c₅, c₆, c₇, c₈, hinto, husers, hvalues, hopen, hstring, hcomma, hint,
    hclose, c₉, hdone⟩ := sqlInsertValues_eq_ok h
  have hinto := found_keyword (by decide) hinto
  have husers := found_users husers
  have hvalues := found_keyword (by decide) hvalues
  have hopen : (SqlToken.symbol "(").FoundAt c₃ c₄ :=
    found_char (by decide) (by decide) (expect_eq_ok hopen)
  obtain ⟨hstring, hname⟩ := found_string hstring
  have hcomma : (SqlToken.symbol ",").FoundAt c₅ c₆ :=
    found_char (by decide) (by decide) (expect_eq_ok hcomma)
  obtain ⟨n, hint, hage⟩ := found_int hint
  have hclose : (SqlToken.symbol ")").FoundAt c₇ c₈ :=
    found_char (by decide) (by decide) (expect_eq_ok hclose)
  have hzero₈ : 0 ∉ c₈ := hclose.zero_notMem (hint.zero_notMem (hcomma.zero_notMem
    (hstring.zero_notMem (hopen.zero_notMem (hvalues.zero_notMem (husers.zero_notMem
      (hinto.zero_notMem hzero)))))))
  obtain ⟨ending, hend, hat⟩ := at_of_statementEnd (expect_eq_ok hdone) hzero₈
  exact ⟨n, ending, hend, hname, hage, hinto.at (husers.at (hvalues.at (hopen.at
    (hstring.at (hcomma.at (hint.at (hclose.at hat)))))))⟩

/-- What was read as a condition is the text of one. -/
theorem at_of_sqlWhere {rows : SqlSelect} (h : sqlWhere cursor = .ok (rows, rest))
    (hzero : 0 ∉ cursor) :
    ∃ written ending, SqlEnd ending ∧ written ≠ .all ∧ (SqlStatement.select written).Named ∧
      rows = written.read ∧ At (written.tokens.tail ++ ending) cursor := by
  unfold sqlWhere at h
  obtain ⟨column, c₁, hcolumn, h⟩ := SqlParser.bind_eq_ok h
  obtain ⟨comparisonCursor, c, hget, h⟩ := SqlParser.bind_eq_ok h
  obtain ⟨rfl, rfl⟩ : c₁ = comparisonCursor ∧ c₁ = c := Prod.mk.inj (Except.ok.inj hget)
  obtain ⟨comparison, c₂, hcomparison, h⟩ := SqlParser.bind_eq_ok h
  have hcomparison := found_comparison hcomparison
  split at h
  -- a number is read as `strtol` clamps it and the cast to `int` cuts it, hence `written.read`
  case isTrue hid =>
    have hcolumn := found_identifier (by decide) hcolumn hid
    obtain ⟨value, c₃, hint, h⟩ := SqlParser.bind_eq_ok h
    obtain ⟨⟨⟩, c₄, hdone, h⟩ := SqlParser.bind_eq_ok h
    obtain ⟨rfl, -⟩ := SqlParser.pure_eq_ok h
    obtain ⟨n, hvalue, rfl⟩ := found_int hint
    have hzero₃ := hvalue.zero_notMem (hcomparison.zero_notMem (hcolumn.zero_notMem hzero))
    obtain ⟨ending, hend, hat⟩ := at_of_statementEnd (expect_eq_ok hdone) hzero₃
    exact ⟨.byId comparison n, ending, hend, nofun, trivial, rfl,
      hcolumn.at (hcomparison.at (hvalue.at hat))⟩
  split at h
  case isTrue hname =>
    have hcolumn := found_identifier (by decide) hcolumn hname
    split at h
    -- names are only compared for equality
    case isFalse => cases h
    case isTrue heq =>
      subst heq
      obtain ⟨value, c₃, hstring, h⟩ := SqlParser.bind_eq_ok h
      obtain ⟨⟨⟩, c₄, hdone, h⟩ := SqlParser.bind_eq_ok h
      obtain ⟨rfl, -⟩ := SqlParser.pure_eq_ok h
      obtain ⟨hstring, hvalue⟩ := found_string hstring
      have hzero₃ := hstring.zero_notMem (hcomparison.zero_notMem (hcolumn.zero_notMem hzero))
      obtain ⟨ending, hend, hat⟩ := at_of_statementEnd (expect_eq_ok hdone) hzero₃
      exact ⟨.byName value, ending, hend, nofun, hvalue, rfl,
        hcolumn.at (hcomparison.at (hstring.at hat))⟩
  split at h
  case isTrue hage =>
    have hcolumn := found_identifier (by decide) hcolumn hage
    obtain ⟨value, c₃, hint, h⟩ := SqlParser.bind_eq_ok h
    obtain ⟨⟨⟩, c₄, hdone, h⟩ := SqlParser.bind_eq_ok h
    obtain ⟨rfl, -⟩ := SqlParser.pure_eq_ok h
    obtain ⟨n, hvalue, rfl⟩ := found_int hint
    have hzero₃ := hvalue.zero_notMem (hcomparison.zero_notMem (hcolumn.zero_notMem hzero))
    obtain ⟨ending, hend, hat⟩ := at_of_statementEnd (expect_eq_ok hdone) hzero₃
    exact ⟨.byAge comparison n, ending, hend, nofun, trivial, rfl,
      hcolumn.at (hcomparison.at (hvalue.at hat))⟩
  case isFalse => cases h

theorem found_star (h : sqlSelectList (sqlSkipSpaces cursor) = .ok ((), rest)) :
    (SqlToken.symbol "*").FoundAt cursor rest := by
  unfold sqlSelectList at h
  split at h
  next hstar =>
    obtain ⟨-, rfl⟩ := Prod.mk.inj (Except.ok.inj h)
    refine found_char (c := '*') (by decide) (by decide) ?_
    rw [← hstar, sqlMatchChar_skipSpaces]
  next =>
    split at h
    · cases h
    · split at h <;> cases h

/-- The tokens of a SELECT with a semicolon before its condition. -/
def SqlSelect.splitTokens (rows : SqlSelect) : List SqlToken :=
  (SqlStatement.select .all).tokens ++ .symbol ";" :: rows.tokens

/-- What was read behind SELECT is the rest of one, or of one with a semicolon before its
condition. -/
theorem at_of_sqlSelectRows {rows : SqlSelect} (h : sqlSelectRows cursor = .ok (rows, rest))
    (hzero : 0 ∉ cursor) :
    ∃ written ending, SqlEnd ending ∧ (SqlStatement.select written).Named ∧ rows = written.read ∧
      (At ((SqlStatement.select written).tokens.tail ++ ending) cursor ∨
        written ≠ .all ∧ At (written.splitTokens.tail ++ ending) cursor) := by
  unfold sqlSelectRows at h
  replace h := SqlParser.skip_bind_eq_ok h
  obtain ⟨⟨⟩, c₁, hstar, h⟩ := SqlParser.bind_eq_ok h
  replace h := SqlParser.skip_bind_eq_ok h
  obtain ⟨⟨⟩, c₂, hfrom, h⟩ := SqlParser.bind_eq_ok h
  obtain ⟨⟨⟩, c₃, husers, h⟩ := SqlParser.bind_eq_ok h
  replace h := SqlParser.skip_bind_eq_ok h
  obtain ⟨ended, c₄, hended, h⟩ := SqlParser.bind_eq_ok h
  have hstar := found_star hstar
  have hfrom := found_keyword (by decide) hfrom
  have husers := found_users husers
  have hzero₃ := husers.zero_notMem (hfrom.zero_notMem (hstar.zero_notMem hzero))
  -- whether or not the statement ends here, the cursor has moved
  have hended : sqlMatchStatementEnd c₃ = (ended, c₄) := by
    rw [← Except.ok.inj hended, sqlMatchStatementEnd_skipSpaces]
  cases ended with
  | some ended =>
    obtain ⟨rfl, -⟩ := SqlParser.pure_eq_ok h
    obtain ⟨ending, hend, hat⟩ := at_of_statementEnd hended hzero₃
    exact ⟨.all, ending, hend, trivial, rfl, .inl (hstar.at (hfrom.at (husers.at hat)))⟩
  | none =>
    obtain ⟨⟨⟩, c₅, hwhere, hrows⟩ := SqlParser.bind_eq_ok h
    -- a condition, in front of it a semicolon at most
    rcases cursor_of_not_statementEnd hended with rfl | ⟨after, hsemicolon, rfl⟩
    · have hwhere := found_keyword (by decide) hwhere
      obtain ⟨written, ending, hend, hne, hnamed, hread, hat⟩ :=
        at_of_sqlWhere hrows (hwhere.zero_notMem hzero₃)
      refine ⟨written, ending, hend, hnamed, hread, .inl ?_⟩
      have hcondition := hstar.at (hfrom.at (husers.at (hwhere.at hat)))
      cases written with
      | all => exact absurd rfl hne
      | _ => exact hcondition
    · have hwhere := found_keyword (by decide) hwhere
      obtain ⟨written, ending, hend, hne, hnamed, hread, hat⟩ :=
        at_of_sqlWhere hrows (hwhere.zero_notMem (hsemicolon.zero_notMem hzero₃))
      refine ⟨written, ending, hend, hnamed, hread, .inr ⟨hne, ?_⟩⟩
      have hcondition := hstar.at (hfrom.at (husers.at (hsemicolon.at (hwhere.at hat))))
      cases written with
      | all => exact absurd rfl hne
      | _ => exact hcondition

end Found

/-! ## Which texts are accepted -/

section Accepted

variable {text : List UInt8}

/-- The keyword of a statement and the tokens behind it. -/
theorem sqlText_of_keyword {keyword : String} {tokens : List SqlToken} {cursor : Cursor}
    (hkeyword : 0 ∉ bytes keyword) (hmatch : sqlMatchKeyword keyword text = (some (), cursor))
    (htokens : At tokens cursor) : SqlText (.word keyword :: tokens) text := by
  obtain ⟨spelling, hspells, hend, rfl⟩ := matchKeyword_eq_some hkeyword hmatch
  obtain ⟨gap, rest, hgap, hrest, rfl⟩ := htokens
  exact .cons hspells hgap hrest fun _ _ => hend

theorem zero_notMem_of_keyword {keyword : String} {cursor : Cursor}
    (hkeyword : 0 ∉ bytes keyword) (hmatch : sqlMatchKeyword keyword text = (some (), cursor))
    (hzero : 0 ∉ text) : 0 ∉ cursor := by
  obtain ⟨spelling, -, -, rfl⟩ := matchKeyword_eq_some hkeyword hmatch
  exact fun hmem => hzero (List.mem_append_right _ hmem)

/-- The age of an INSERT is a value of type `int`. -/
theorem isInt_of_sqlParse_insert {name : List UInt8} {age : Int}
    (h : sqlParse text = .ok (.insert name age)) : IsInt age := by
  obtain ⟨cursor, rest, -, hvalues⟩ := sqlParse_eq_insert h
  obtain ⟨n, rfl⟩ := int_of_sqlInsertValues hvalues
  exact isInt_wrapInt _

/-- The texts that are read as an INSERT. -/
theorem sqlParse_insert_iff (hzero : 0 ∉ text) {name : List UInt8} {age : Int} :
    sqlParse text = .ok (.insert name age) ↔
      IsName name ∧ ∃ n, age = sqlIntValue n ∧ (SqlStatement.insert name n).Renders text := by
  constructor
  · intro h
    obtain ⟨cursor, rest, hmatch, hvalues⟩ := sqlParse_eq_insert h
    obtain ⟨n, ending, hend, hname, hage, hat⟩ :=
      at_of_sqlInsertValues hvalues (zero_notMem_of_keyword (by decide) hmatch hzero)
    exact ⟨hname, n, hage, ending, hend, sqlText_of_keyword (by decide) hmatch hat⟩
  · rintro ⟨hname, n, rfl, htext⟩
    have hread := sqlParse_read (show (SqlStatement.insert name n).Named from hname) htext
    exact hread

/-- `text` is a SELECT. -/
def IsSelectText (text : List UInt8) : Prop :=
  ∃ rows : SqlSelect, (SqlStatement.select rows).Named ∧ (SqlStatement.select rows).Renders text

/-- `text` is a SELECT but for a semicolon between the table and WHERE. -/
def IsSplitSelectText (text : List UInt8) : Prop :=
  ∃ (rows : SqlSelect) (ending : List SqlToken), rows ≠ .all ∧ (SqlStatement.select rows).Named ∧
    SqlEnd ending ∧ SqlText (rows.splitTokens ++ ending) text

private theorem where_tokens {rows : SqlSelect} (hrows : rows ≠ .all) (ending : List SqlToken) :
    rows.tokens ++ ending = .word "WHERE" :: (rows.tokens.tail ++ ending) := by
  cases rows with
  | all => exact absurd rfl hrows
  | _ => rfl

/-- A SELECT with the semicolon in the wrong place, behind its first keyword. -/
private theorem splitTokens_cursor {rows : SqlSelect} {ending : List SqlToken}
    (hrows : rows ≠ .all) (htext : SqlText (rows.splitTokens ++ ending) text) :
    ∃ cursor c : Cursor, sqlMatchKeyword "SELECT" text = (some (), cursor) ∧
      sqlSelectTable cursor = .ok ((), c) ∧
      At (.symbol ";" :: .word "WHERE" :: (rows.tokens.tail ++ ending)) c := by
  have htokens : rows.splitTokens ++ ending = .word "SELECT" ::
      ([.symbol "*", .word "FROM", .word "users"] ++
        (.symbol ";" :: .word "WHERE" :: (rows.tokens.tail ++ ending))) := by
    rw [← where_tokens hrows]
    rfl
  rw [htokens] at htext
  cases htext with
  | @cons _ _ spelling gap rest hspells hgap hrest hwordEnd =>
    obtain ⟨c, htable, hc⟩ := At.sqlSelectTable ⟨gap, rest, hgap, hrest, rfl⟩
    exact ⟨gap ++ rest, c, matchKeyword_append hspells (hwordEnd "SELECT" rfl), htable, hc⟩

/-- It is read like one with the semicolon left out. -/
theorem sqlParse_of_splitTokens {rows : SqlSelect} {ending : List SqlToken} (hrows : rows ≠ .all)
    (hnamed : (SqlStatement.select rows).Named) (hend : SqlEnd ending)
    (htext : SqlText (rows.splitTokens ++ ending) text) :
    sqlParse text = .ok (.select rows.read) := by
  obtain ⟨cursor, c, hmatch, htable, hc⟩ := splitTokens_cursor hrows htext
  obtain ⟨-, after, hafter, hnotEnd⟩ := hc.not_statementEnd_semicolon (by decide)
  obtain ⟨c', hwhere, hcondition⟩ := hafter.keyword (by decide)
  obtain ⟨rest, hread⟩ := sqlWhere_of_at hend hrows hnamed hcondition
  have hselect : sqlSelectRows cursor = .ok (rows.read, rest) :=
    (sqlSelectRows_of_table htable).trans (sqlSelectCondition_of_where hnotEnd hwhere hread)
  have hstatement : sqlStatement "SELECT" sqlSelectRows text = .ok rows.read := by
    have hrun : sqlSelectRows.run cursor = .ok (rows.read, rest) := hselect
    unfold sqlStatement
    rw [hmatch]
    dsimp only
    rw [hrun]
    rfl
  exact sqlParse_of_select hstatement

theorem IsSplitSelectText.sqlParse (h : IsSplitSelectText text) :
    ∃ rows, Core.sqlParse text = .ok (.select rows) := by
  obtain ⟨rows, ending, hrows, hnamed, hend, htext⟩ := h
  exact ⟨rows.read, sqlParse_of_splitTokens hrows hnamed hend htext⟩

/-- It is no SELECT: where the table name ends, at most the end stands behind a semicolon. -/
theorem IsSplitSelectText.not_isSelectText (h : IsSplitSelectText text) : ¬ IsSelectText text := by
  rintro ⟨written, hnamed', ending', hend', htext⟩
  obtain ⟨rows, ending, hrows, -, -, hsplit⟩ := h
  obtain ⟨cursor, c, hmatch, htable, hc⟩ := splitTokens_cursor hrows hsplit
  obtain ⟨hsemicolon, after, -, hnotEnd⟩ := hc.not_statementEnd_semicolon (by decide)
  obtain ⟨c', htable', hc'⟩ : ∃ c', sqlSelectTable cursor = .ok ((), c') ∧
      At (written.tokens ++ ending') c' := by
    cases htext with
    | @cons _ _ spelling gap rest hspells hgap hrest hwordEnd =>
      have hmatch' : sqlMatchKeyword "SELECT" (spelling ++ (gap ++ rest)) = (some (), gap ++ rest) :=
        matchKeyword_append hspells (hwordEnd "SELECT" rfl)
      obtain rfl : gap ++ rest = cursor := (Prod.mk.inj (hmatch'.symm.trans hmatch)).2
      exact At.sqlSelectTable ⟨gap, rest, hgap, hrest, rfl⟩
  obtain rfl : c' = c := (Prod.mk.inj (Except.ok.inj (htable'.symm.trans htable))).2
  by_cases hall : written = .all
  · subst hall
    obtain ⟨rest, hdone⟩ := At.statementEnd hend' hc'
    rw [hdone] at hnotEnd
    cases hnotEnd
  · rw [where_tokens hall] at hc'
    have halpha := hc'.isAlpha_peek (by decide)
    rw [hsemicolon] at halpha
    exact absurd halpha (by decide)

/-- The texts that are read as a SELECT. -/
theorem sqlParse_select_iff (hzero : 0 ∉ text) :
    (∃ rows, sqlParse text = .ok (.select rows)) ↔ IsSelectText text ∨ IsSplitSelectText text := by
  constructor
  · rintro ⟨rows, h⟩
    obtain ⟨cursor, rest, hmatch, hrows⟩ := sqlParse_eq_select h
    obtain ⟨written, ending, hend, hnamed, -, hat | ⟨hne, hat⟩⟩ :=
      at_of_sqlSelectRows hrows (zero_notMem_of_keyword (by decide) hmatch hzero)
    · exact .inl ⟨written, hnamed, ending, hend, sqlText_of_keyword (by decide) hmatch hat⟩
    · exact .inr ⟨written, ending, hne, hnamed, hend, sqlText_of_keyword (by decide) hmatch hat⟩
  · rintro (⟨rows, hnamed, htext⟩ | hsplit)
    · have hread := sqlParse_read (show (SqlStatement.select rows).Named from hnamed) htext
      exact ⟨rows.read, hread⟩
    · exact hsplit.sqlParse

end Accepted

/-! ## Which texts are executed -/

/-- The result of a SELECT that was executed. -/
def SQLResult.IsSelected (result : SQLResult) : Prop :=
  (result.status = .ok ∨ result.status = .notFound) ∧ result.action = .selectRows

/-- The result of an INSERT that was executed. -/
def SQLResult.IsInserted (result : SQLResult) : Prop :=
  result.status = .ok ∧ result.action = .insert

section Executed

variable {m : Memory} {rows : Rows} {text : List UInt8}

private theorem not_executed_of_error {result : SQLResult} (h : sqlParse text = .error result) :
    ¬ result.IsSelected ∧ ¬ result.IsInserted := by
  obtain ⟨hnone, -, -⟩ := sqlParse_error_noRows h
  exact ⟨fun hselected => (nomatch hnone.symm.trans hselected.2),
    fun hinserted => (nomatch hnone.symm.trans hinserted.2)⟩

/-- `sql_execute` executes a SELECT that was parsed. -/
theorem TableInv.run_selected (hm : TableInv m rows) (hn : Numbered m rows) (hok : m.NoFailure)
    (text : List UInt8) :
    ∃ result m', (sqlExecute text).run m = some (result, m') ∧
      (result.IsSelected ↔ ∃ query, sqlParse text = .ok (.select query)) := by
  rw [sqlExecute_eq]
  cases hparse : sqlParse text with
  | error result =>
    obtain ⟨hselected, -⟩ := not_executed_of_error hparse
    refine ⟨result, m, rfl, fun h => absurd h hselected, ?_⟩
    rintro ⟨_, ⟨⟩⟩
  | ok statement =>
    cases statement with
    | select query =>
      obtain ⟨found, hrun, -, -⟩ := hm.run_select hok query
      have hselected : (sqlSelectResult query.emptyStatus (some (found.map Prod.fst))).IsSelected := by
        refine ⟨?_, rfl⟩
        cases found with
        | nil => cases query <;> simp [sqlSelectResult, SqlSelect.emptyStatus]
        | cons row found => exact .inl rfl
      exact ⟨_, m, hrun, fun _ => ⟨query, rfl⟩, fun _ => hselected⟩
    | insert name age =>
      -- an INSERT is no SELECT, whether or not the ids are used up
      rcases lt_or_eq_of_le hn.bound with hroom | hfull
      · obtain ⟨m', hrun, -, -⟩ := hm.run_sqlInsertRow hn hok hroom name age
        refine ⟨_, m', hrun, fun h => ?_, ?_⟩
        · cases h.2
        · rintro ⟨_, ⟨⟩⟩
      · obtain ⟨m', hrun, -, -⟩ := hm.run_sqlInsertRow_full hn hok hfull name age
        refine ⟨_, m', hrun, fun h => ?_, ?_⟩
        · cases h.2
        · rintro ⟨_, ⟨⟩⟩

/-- `sql_execute` executes an INSERT that was parsed: its row is appended. -/
theorem TableInv.run_inserted (hm : TableInv m rows) (hn : Numbered m rows) (hok : m.NoFailure)
    (hroom : rows.length < 2 ^ 32) (text : List UInt8) :
    ∃ result m', (sqlExecute text).run m = some (result, m') ∧
      (result.IsInserted ↔ ∃ name age, sqlParse text = .ok (.insert name age)) ∧
      ∀ name age, sqlParse text = .ok (.insert name age) → ∃ record id,
        result.record = some record ∧
          TableInv m' (rows ++ [(record, newRecord id name age)]) := by
  rw [sqlExecute_eq]
  cases hparse : sqlParse text with
  | error result =>
    obtain ⟨-, hinserted⟩ := not_executed_of_error hparse
    exact ⟨result, m, rfl, ⟨fun h => absurd h hinserted, nofun⟩, nofun⟩
  | ok statement =>
    cases statement with
    | select query =>
      obtain ⟨found, hrun, -, -⟩ := hm.run_select hok query
      exact ⟨_, m, hrun, ⟨fun h => (nomatch h.2), nofun⟩, nofun⟩
    | insert name age =>
      obtain ⟨m', hrun, hm', -⟩ := hm.run_sqlInsertRow hn hok hroom name age
      generalize wrapInt (rows.length + 1) = id at hrun hm'
      refine ⟨_, m', hrun, ⟨fun _ => ⟨name, age, rfl⟩, fun _ => ⟨rfl, rfl⟩⟩, ?_⟩
      rintro _ _ ⟨⟩
      exact ⟨_, id, rfl, hm'⟩

end Executed

/-- INSERT is recognised exactly and stored faithfully. -/
theorem sqlExecute_insert_iff {m : Memory} (hm : InsertedTable m) (hsize : m.table.size < 2 ^ 31)
    {text : List UInt8} (hzero : 0 ∉ text) :
    ∃ result m', (sqlExecute text).run m = some (result, m') ∧
      (result.IsInserted ↔ ∃ name n, IsName name ∧ (SqlStatement.insert name n).Renders text) ∧
      ∀ name n, IsName name → (SqlStatement.insert name n).Renders text →
        ∃ rows record r, m.rows? = some rows ∧ m'.rows? = some (rows ++ [r.row]) ∧
          result.record = some record ∧ m'.record? record = some r ∧ cstr r.name = name ∧
          (IsInt n → r.age = n) := by
  obtain ⟨hok, rows, hinv, hn⟩ := hm.numbered
  have hroom : rows.length < 2 ^ 32 := by
    rw [hinv.size] at hsize
    omega
  obtain ⟨result, m', hrun, hinserted, hstored⟩ := hinv.run_inserted hn hok hroom text
  refine ⟨result, m', hrun, hinserted.trans ?_, fun name n hname htext => ?_⟩
  · constructor
    · rintro ⟨name, age, hparse⟩
      obtain ⟨hname, n, -, htext⟩ := (sqlParse_insert_iff hzero).mp hparse
      exact ⟨name, n, hname, htext⟩
    · rintro ⟨name, n, hname, htext⟩
      exact ⟨name, sqlIntValue n, (sqlParse_insert_iff hzero).mpr ⟨hname, n, rfl, htext⟩⟩
  · -- the row is the last one, under a live record
    have hparse := (sqlParse_insert_iff hzero).mpr ⟨hname, n, rfl, htext⟩
    obtain ⟨record, id, hrecord, hm'⟩ := hstored name (sqlIntValue n) hparse
    have hrow := newRecord_row hname id (sqlIntValue n)
    have hlive := hm'.live _ (List.mem_append_right rows (List.mem_singleton_self _))
    refine ⟨rows.contents, record, _, hinv.rows?, ?_, hrecord, hlive,
      congrArg Row.name hrow, fun hint => ?_⟩
    · rw [hm'.rows?, Rows.contents, Rows.contents, List.map_append]
      rfl
    · exact sqlIntValue_eq_self hint

/-- An INSERT into a new table. -/
theorem sqlExecute_insert_iff_create :
    let text := bytes "INSERT INTO users VALUES ('Ann', 30);"
    ∃ result m', (sqlExecute text).run tableCreate = some (result, m') ∧
      (result.IsInserted ↔ ∃ name n, IsName name ∧ (SqlStatement.insert name n).Renders text) ∧
      ∀ name n, IsName name → (SqlStatement.insert name n).Renders text →
        ∃ rows record r, tableCreate.rows? = some rows ∧ m'.rows? = some (rows ++ [r.row]) ∧
          result.record = some record ∧ m'.record? record = some r ∧ cstr r.name = name ∧
          (IsInt n → r.age = n) :=
  sqlExecute_insert_iff insertedTable_create (by decide) (by decide)

/-- SELECT is recognised, but a semicolon may also stand before WHERE: on every table and every
text, `sql_execute` executes a SELECT if and only if the text is one, unless it is one but
for such a semicolon. -/
theorem sqlExecute_select_iff {m : Memory} (hm : InsertedTable m) {text : List UInt8}
    (hzero : 0 ∉ text) :
    ∃ result m', (sqlExecute text).run m = some (result, m') ∧
      ((result.IsSelected ↔ IsSelectText text) ↔ ¬ IsSplitSelectText text) := by
  obtain ⟨hok, rows, hinv, hn⟩ := hm.numbered
  obtain ⟨result, m', hrun, hselected⟩ := hinv.run_selected hn hok text
  refine ⟨result, m', hrun, ?_⟩
  rw [hselected, sqlParse_select_iff hzero]
  constructor
  · intro hiff hsplit
    exact hsplit.not_isSelectText (hiff.mp (.inr hsplit))
  · intro hsplit
    exact or_iff_left hsplit

/-- A SELECT from a new table. -/
theorem sqlExecute_select_iff_create :
    let text := bytes "SELECT * FROM users;"
    ∃ result m', (sqlExecute text).run tableCreate = some (result, m') ∧
      ((result.IsSelected ↔ IsSelectText text) ↔ ¬ IsSplitSelectText text) :=
  sqlExecute_select_iff insertedTable_create (by decide)

/-- A semicolon with more behind it than whitespace. -/
theorem sqlExecute_select_semicolon :
    let text := bytes "SELECT * FROM users ; WHERE id = 1 "
    ∃ result m', (sqlExecute text).run tableCreate = some (result, m') ∧ result.IsSelected ∧
      ¬ IsSelectText text := by
  intro text
  have hsplit : IsSplitSelectText text := by
    have htext : text = sqlText ((SqlSelect.byId .eq 1).splitTokens ++ []) := by decide
    refine ⟨.byId .eq 1, [], nofun, trivial, .plain, ?_⟩
    rw [htext]
    exact sqlText_spec _
  obtain ⟨result, m', hrun, hselected⟩ :=
    tableCreate_inv.run_selected tableCreate_numbered rfl text
  exact ⟨result, m', hrun, hselected.mpr hsplit.sqlParse, hsplit.not_isSelectText⟩

end SqlApi.Core

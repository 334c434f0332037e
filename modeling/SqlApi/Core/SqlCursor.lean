import SqlApi.Core.Sql

/-!
# Where a parser gives up

The scanners only move the cursor forward. So an error quotes the text itself, from some byte
on; or it is about a table or a column of a wrong name, and quotes that identifier.

Two kinds of facts, one for each scanner: where it leaves the cursor (`Advances`), and what an error
raised there quotes (`QuotedIn`). The parsers of whole statements are sequences of scanners, so
`SqlParser.Parses` goes through them by its rule for sequencing.
-/

namespace SqlApi.Core

open SqlApi.Lib

/-- The errors in a text. -/
inductive SqlErrorIn (text : Cursor) : SQLResult → Prop
  | cursor {cursor : Cursor} : cursor <:+ text →
      SqlErrorIn text (sqlSetSyntaxError sqlNoResult cursor)
  | tableName {tableName : List UInt8} : (∀ c ∈ tableName, isIdent c = true) →
      SqlErrorIn text (sqlSetSyntaxError sqlNoResult tableName)
  | column {column : List UInt8} {clauseName : String} : (∀ c ∈ column, isIdent c = true) →
      clauseName = "field list" ∨ clauseName = "where clause" →
      SqlErrorIn text (sqlSetUnknownColumnError sqlNoResult column (bytes clauseName))

/-- The text has this string in it, between quotes, and it fits into a record. -/
structure QuotedIn (text : Cursor) (name : List UInt8) : Prop where
  occurs : ∃ front behind, text = front ++ 39 :: (name ++ 39 :: behind)
  length : name.length < recordNameSize
  zero : 0 ∉ name
  quote : 39 ∉ name

/-- Somewhere in this text, the parser finds a value with a property and moves on in the text, or
gives up with an error in it. -/
def SqlParser.Parses {α : Type} (text : Cursor) (p : SqlParser α) (P : α → Prop) : Prop :=
  ∀ cursor, cursor <:+ text →
    match p cursor with
    | .ok (a, rest) => P a ∧ rest <:+ text
    | .error result => SqlErrorIn text result

/-! ## Scanners -/

section Scanners

/-- What is left of a text is a suffix of it. -/
theorem sqlSkipSpaces_suffix (cursor : Cursor) : sqlSkipSpaces cursor <:+ cursor :=
  skipSpaces_suffix cursor

/-- The scanners move the cursor forwards, or leave it, whether or not they find something. -/
theorem advances_sqlMatchKeyword (keyword : String) : Advances (sqlMatchKeyword keyword) :=
  advances_matchKeyword _

theorem advances_sqlMatchChar (expected : Char) : Advances (sqlMatchChar expected) :=
  advances_matchChar _

theorem advances_sqlParseIdentifier (bufferSize : Nat) :
    Advances (sqlParseIdentifier bufferSize) := advances_parseIdentifier _

/-- EXIT is tried first, QUIT from where that has left the cursor. -/
theorem advances_sqlMatchExit : Advances sqlMatchExit := by
  intro cursor
  have hexit := advances_sqlMatchKeyword "EXIT" cursor
  unfold sqlMatchExit
  split
  next hmatch =>
    rw [hmatch] at hexit
    exact hexit
  next hmatch =>
    rw [hmatch] at hexit
    exact (advances_sqlMatchKeyword "QUIT" _).trans hexit

/-- The loop may stop anywhere in the literal. -/
theorem advances_sqlStringLoop (bufferSize length : Nat) :
    Advances (sqlStringLoop bufferSize length) := by
  intro cursor
  induction cursor generalizing length with
  | nil => exact List.suffix_rfl
  | cons c cursor ih =>
    unfold sqlStringLoop
    split
    · exact List.suffix_rfl
    · split
      · exact List.suffix_cons c cursor
      · split
        · exact List.suffix_rfl
        · exact (ih (length + 1)).trans (List.suffix_cons c cursor)

/-- The string loop ends behind a closing quote. -/
theorem sqlStringLoop_eq_some {bufferSize length : Nat} {cursor rest : Cursor} {text : List UInt8}
    (h : sqlStringLoop bufferSize length cursor = (some text, rest)) (hlen : length < bufferSize) :
    cursor = text ++ 39 :: rest ∧ 0 ∉ text ∧ 39 ∉ text ∧ length + text.length < bufferSize := by
  induction cursor generalizing length text with
  | nil => cases h
  | cons c cursor ih =>
    unfold sqlStringLoop at h
    split at h
    case isTrue => cases h
    case isFalse hzero =>
      split at h
      -- the closing quote
      case isTrue hquote =>
        obtain ⟨htext, rfl⟩ := Prod.mk.inj h
        obtain rfl := Option.some.inj htext
        exact ⟨by rw [hquote]; rfl, List.not_mem_nil, List.not_mem_nil, hlen⟩
      case isFalse hquote =>
        split at h
        case isTrue => cases h
        case isFalse hroom =>
          -- one byte, and the rest of the string
          cases hloop : sqlStringLoop bufferSize (length + 1) cursor with
          | mk found after =>
            rw [hloop] at h
            obtain ⟨htext, rfl⟩ := Prod.mk.inj h
            obtain ⟨tail, rfl, rfl⟩ := Option.map_eq_some_iff.mp htext
            obtain ⟨rfl, hzero', hquote', hlen'⟩ := ih hloop (by omega)
            refine ⟨rfl, ?_, ?_, ?_⟩
            · simpa using ⟨fun h => hzero h.symm, hzero'⟩
            · simpa using ⟨fun h => hquote h.symm, hquote'⟩
            · rw [List.length_cons]
              omega

/-- A string that was found stands between quotes. -/
theorem sqlParseString_eq_some {bufferSize : Nat} {cursor rest : Cursor} {text : List UInt8}
    (hsize : 0 < bufferSize) (h : sqlParseString bufferSize cursor = (some text, rest)) :
    ∃ gap, Blank gap ∧ cursor = gap ++ 39 :: (text ++ 39 :: rest) ∧ 0 ∉ text ∧ 39 ∉ text ∧
      text.length < bufferSize := by
  obtain ⟨gap, hgap, heq⟩ := skipSpaces_spec cursor
  unfold sqlParseString at h
  dsimp only at h
  split at h
  case isFalse => cases h
  case isTrue hquote =>
    have hskip := eq_cons_of_peek hquote (by decide)
    obtain ⟨hafter, hzero, hquote', hlen⟩ := sqlStringLoop_eq_some h hsize
    refine ⟨gap, hgap, ?_, hzero, hquote', by omega⟩
    rw [heq]
    change gap ++ sqlSkipSpaces cursor = _
    rw [hskip, hafter]

/-- Whether the string is closed, cut off or too long. -/
theorem advances_sqlParseString (bufferSize : Nat) : Advances (sqlParseString bufferSize) := by
  intro cursor
  have hskip := sqlSkipSpaces_suffix cursor
  unfold sqlParseString
  dsimp only
  split
  · have hloop := advances_sqlStringLoop bufferSize 0 ((sqlSkipSpaces cursor).drop 1)
    exact hloop.trans ((List.drop_suffix 1 _).trans hskip)
  · exact hskip

/-- Digits and a sign, or nothing. -/
theorem advances_sqlParseInt : Advances sqlParseInt := by
  intro cursor
  have hskip := sqlSkipSpaces_suffix cursor
  unfold sqlParseInt
  dsimp only
  split
  · split
    · exact hskip
    · exact (strtol_suffix _).trans hskip
  · exact hskip

/-- One or two characters. -/
theorem advances_sqlParseComparison : Advances sqlParseComparison := by
  intro cursor
  have hskip := sqlSkipSpaces_suffix cursor
  have hdrop (n : Nat) : (sqlSkipSpaces cursor).drop n <:+ cursor :=
    (List.drop_suffix n _).trans hskip
  unfold sqlParseComparison
  dsimp only
  repeat' split
  all_goals first | exact hdrop _ | exact hskip

/-- The cursor stays behind a semicolon also when no end follows. -/
theorem advances_sqlMatchStatementEnd : Advances sqlMatchStatementEnd := by
  intro cursor
  have hskip := sqlSkipSpaces_suffix cursor
  unfold sqlMatchStatementEnd
  dsimp only
  refine (sqlSkipSpaces_suffix _).trans ?_
  split
  · exact (List.drop_suffix 1 _).trans hskip
  · exact hskip

end Scanners

/-! ## Parsers -/

section Parsers

variable {α β : Type} {text : Cursor} {P : α → Prop} {Q : β → Prop}

/-- A parser that returns at once. -/
theorem SqlParser.parses_pure {a : α} (ha : P a) : SqlParser.Parses text (pure a) P :=
  fun _ hcursor => ⟨ha, hcursor⟩

theorem SqlParser.parses_throw {result : SQLResult} (hresult : SqlErrorIn text result) :
    SqlParser.Parses text (throw result) P := fun _ _ => hresult

/-- One parser after the other: both start at a suffix of the text. -/
theorem SqlParser.Parses.bind {p : SqlParser α} {f : α → SqlParser β} (hp : p.Parses text P)
    (hf : ∀ a, P a → (f a).Parses text Q) : SqlParser.Parses text (p >>= f) Q := by
  intro cursor hcursor
  have hrun := hp cursor hcursor
  have hbind : (p >>= f) cursor = (p cursor).bind fun r => f r.1 r.2 := rfl
  rw [hbind]
  cases hresult : p cursor with
  | error result =>
    rw [hresult] at hrun
    exact hrun
  | ok r =>
    rw [hresult] at hrun
    exact hf r.1 hrun.1 r.2 hrun.2

/-- A parser whose value does not matter. -/
theorem SqlParser.Parses.then {p : SqlParser α} {f : α → SqlParser β}
    (hp : p.Parses text fun _ => True) (hf : ∀ a, (f a).Parses text Q) :
    SqlParser.Parses text (p >>= f) Q :=
  hp.bind fun a _ => hf a

/-- A scanner that has to find something: its error is where the cursor stops. -/
theorem parses_expect {scanner : Scanner α} (hscanner : Advances scanner)
    (hfound : ∀ cursor a rest, cursor <:+ text → scanner cursor = (some a, rest) → P a) :
    (expect scanner).Parses text P := by
  intro cursor hcursor
  have hmoved := (hscanner cursor).trans hcursor
  unfold expect
  cases hscan : scanner cursor with
  | mk found rest =>
    rw [hscan] at hmoved
    cases found with
    | some a => exact ⟨hfound cursor a rest hcursor hscan, hmoved⟩
    | none => exact .cursor hmoved

theorem parses_expect_any {scanner : Scanner α} (hscanner : Advances scanner) :
    (expect scanner).Parses text fun _ => True :=
  parses_expect hscanner fun _ _ _ _ _ => trivial

/-- A scanner that need not find anything. -/
theorem parses_attempt {scanner : Scanner α} (hscanner : Advances scanner) :
    (attempt scanner).Parses text fun _ => True :=
  fun cursor hcursor => ⟨trivial, (hscanner cursor).trans hcursor⟩

theorem parses_skip : skip.Parses text fun _ => True :=
  fun cursor hcursor => ⟨trivial, (sqlSkipSpaces_suffix cursor).trans hcursor⟩

theorem parses_keyword (keyword : String) :
    (expect (sqlMatchKeyword keyword)).Parses text fun _ => True :=
  parses_expect_any (advances_sqlMatchKeyword keyword)

/-- The cursor itself. -/
theorem parses_get : SqlParser.Parses text get fun cursor => cursor <:+ text :=
  fun _ hcursor => ⟨hcursor, hcursor⟩

/-- The bytes of an identifier are those of a word. -/
theorem parses_identifier :
    (expect (sqlParseIdentifier 32)).Parses text fun name => ∀ c ∈ name, isIdent c = true := by
  refine parses_expect (advances_sqlParseIdentifier 32) ?_
  intro cursor name rest _ h
  obtain ⟨-, -, hname, -, -⟩ := parseIdentifier_eq_some h
  exact hname

/-- The name of an INSERT or a condition stands in the text, in quotes. -/
theorem parses_name : (expect (sqlParseString recordNameSize)).Parses text (QuotedIn text) := by
  refine parses_expect (advances_sqlParseString recordNameSize) ?_
  rintro cursor name rest ⟨front, rfl⟩ h
  obtain ⟨gap, -, rfl, hzero, hquote, hlength⟩ := sqlParseString_eq_some (by decide) h
  exact ⟨⟨front ++ gap, rest, (List.append_assoc ..).symm⟩, hlength, hzero, hquote⟩

/-- The table is `users`, or the error names another one. -/
theorem parses_sqlExpectUsers : sqlExpectUsers.Parses text fun _ => True := by
  refine parses_identifier.bind fun tableName hname => ?_
  split
  · exact SqlParser.parses_pure trivial
  · exact SqlParser.parses_throw (.tableName hname)

/-- The name of an INSERT is a string of its text. -/
theorem parses_sqlInsertValues :
    sqlInsertValues.Parses text fun values => QuotedIn text values.1 := by
  unfold sqlInsertValues
  have hchar (c : Char) : (expect (sqlMatchChar c)).Parses text fun _ => True :=
    parses_expect_any (advances_sqlMatchChar c)
  refine parses_skip.then fun _ => (parses_keyword "INTO").then fun _ => ?_
  refine parses_sqlExpectUsers.then fun _ => parses_skip.then fun _ => ?_
  refine (parses_keyword "VALUES").then fun _ => (hchar '(').then fun _ => ?_
  refine parses_name.bind fun name hname => ?_
  refine (hchar ',').then fun _ => (parses_expect_any advances_sqlParseInt).then fun _ => ?_
  refine (hchar ')').then fun _ => ?_
  refine (parses_expect_any advances_sqlMatchStatementEnd).then fun _ => ?_
  exact SqlParser.parses_pure hname

/-- The star, or an error about what stands in its place. -/
theorem parses_sqlSelectList : sqlSelectList.Parses text fun _ => True := by
  intro cursor hcursor
  have hstar := (advances_sqlMatchChar '*' cursor).trans hcursor
  unfold sqlSelectList
  cases hmatch : sqlMatchChar '*' cursor with
  | mk found afterSpaces =>
    rw [hmatch] at hstar
    cases found with
    -- the star
    | some _ => exact ⟨trivial, hstar⟩
    | none =>
      have hmoved := (advances_sqlParseIdentifier 32 afterSpaces).trans hstar
      dsimp only
      cases hcolumn : sqlParseIdentifier 32 afterSpaces with
      | mk column rest =>
        rw [hcolumn] at hmoved
        cases column with
        | none => exact .cursor hmoved
        | some column =>
          obtain ⟨-, -, hident, -, -⟩ := parseIdentifier_eq_some hcolumn
          dsimp only
          cases sqlIsKnownColumn column with
          -- a known column is no star: the error is where the list starts
          | true => exact .cursor hcursor
          | false => exact .column hident (.inl rfl)

/-- A condition. -/
theorem parses_sqlWhere : sqlWhere.Parses text fun _ => True := by
  have hvalue {γ : Type} {scanner : Scanner γ} (hscanner : Advances scanner) (f : γ → SqlSelect) :
      SqlParser.Parses text (do
        let value ← expect scanner
        expect sqlMatchStatementEnd
        pure (f value)) fun _ => True :=
    (parses_expect_any hscanner).then fun _ =>
      (parses_expect_any advances_sqlMatchStatementEnd).then fun _ => SqlParser.parses_pure trivial
  unfold sqlWhere
  refine parses_identifier.bind fun column hcolumn => parses_get.bind fun cursor hcursor => ?_
  refine (parses_expect_any advances_sqlParseComparison).then fun comparison => ?_
  split
  · exact hvalue advances_sqlParseInt _
  · split
    · split
      · exact hvalue (advances_sqlParseString recordNameSize) _
      -- a name is only compared for equality
      · exact SqlParser.parses_throw (.cursor hcursor)
    · split
      · exact hvalue advances_sqlParseInt _
      · exact SqlParser.parses_throw (.column hcolumn (.inr rfl))

/-- A SELECT behind its keyword. -/
theorem parses_sqlSelectRows : sqlSelectRows.Parses text fun _ => True := by
  unfold sqlSelectRows
  refine parses_skip.then fun _ => parses_sqlSelectList.then fun _ => parses_skip.then fun _ => ?_
  refine (parses_keyword "FROM").then fun _ => parses_sqlExpectUsers.then fun _ => ?_
  refine parses_skip.then fun _ => ?_
  refine (parses_attempt advances_sqlMatchStatementEnd).then fun ended => ?_
  cases ended with
  | some _ => exact SqlParser.parses_pure trivial
  | none => exact (parses_keyword "WHERE").then fun _ => parses_sqlWhere

end Parsers

end SqlApi.Core

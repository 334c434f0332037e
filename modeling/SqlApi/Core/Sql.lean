import Mathlib.Data.List.DropRight
import SqlApi.Core.Table
import SqlApi.Lib.Scanner

/-!
# `sql.c`: parsing and executing one statement

The parsers share a cursor and give up with a finished result: `SqlParser` is a state
over the cursor with such a result as its error. Nothing touches the table before the
statement has been parsed to its end.
-/

namespace SqlApi.Core

open SqlApi.Lib

/-! ## Results -/

/-- `SQL_SQLSTATE_SIZE` -/
abbrev sqlSqlstateSize : Nat := 6

/-- `SQL_ERROR_MESSAGE_SIZE` -/
abbrev sqlErrorMessageSize : Nat := 256

/-- `enum SQLStatus` -/
inductive SQLStatus where
  | ok | notFound | syntaxError | queryError | exit | error
  deriving DecidableEq, Repr

/-- `enum SQLAction` -/
inductive SQLAction where
  | none | insert | selectRows
  deriving DecidableEq, Repr

/-- `struct SQLResult`; the two texts are without their terminators. -/
structure SQLResult where
  status : SQLStatus
  action : SQLAction
  record : Option RecPtr
  records : List RecPtr
  insertedId : Int
  rowCount : Nat
  errorCode : Int
  sqlState : List UInt8
  errorMessage : List UInt8
  deriving DecidableEq, Repr

/-- `sql_make_result` -/
def sqlMakeResult (status : SQLStatus) (action : SQLAction) : SQLResult where
  status
  action
  record := none
  records := []
  insertedId := 0
  rowCount := 0
  errorCode := 0
  sqlState := []
  errorMessage := []

/-- What `snprintf` leaves of a text in a buffer. -/
def snprintf (size : Nat) (text : List UInt8) : List UInt8 := text.take (size - 1)

/-- `sql_is_known_column` -/
def sqlIsKnownColumn (column : List UInt8) : Bool :=
  strcasecmpEq column (bytes "id") || strcasecmpEq column (bytes "name") ||
    strcasecmpEq column (bytes "age")

/-- `sql_build_near_excerpt` -/
def sqlBuildNearExcerpt (bufferSize : Nat) (cursor : Cursor) : List UInt8 :=
  let endOfInput := snprintf bufferSize (bytes "end of input")
  let cursor := skipSpaces cursor
  if peek cursor = 0 then endOfInput
  else
    -- the excerpt stops at a line end, at a semicolon, or when the buffer is full
    let excerpt := (cursor.takeWhile fun c =>
      c != 0 && c != byte '\n' && c != byte '\r' && c != byte ';').take (bufferSize - 1)
    let excerpt := excerpt.rdropWhile isSpace
    -- the cursor stands before a semicolon
    if excerpt = [] then endOfInput else excerpt

/-- `sql_set_syntax_error` -/
def sqlSetSyntaxError (result : SQLResult) (cursor : Cursor) : SQLResult :=
  { result with
    status := .syntaxError
    errorCode := 1064
    sqlState := snprintf sqlSqlstateSize (bytes "42000")
    errorMessage := snprintf sqlErrorMessageSize
      (bytes "ERROR 1064 (42000): You have an error in your SQL syntax; check the manual that corresponds to your sql processor2 version for the right syntax to use near '" ++
        sqlBuildNearExcerpt 64 cursor ++ bytes "' at line 1") }

/-- `sql_set_unknown_column_error` -/
def sqlSetUnknownColumnError (result : SQLResult) (column clauseName : List UInt8) : SQLResult :=
  { result with
    status := .queryError
    errorCode := 1054
    sqlState := snprintf sqlSqlstateSize (bytes "42S22")
    errorMessage := snprintf sqlErrorMessageSize
      (bytes "ERROR 1054 (42S22): Unknown column '" ++ column ++ bytes "' in '" ++ clauseName ++
        bytes "'") }

/-- The result both statement parsers start from. -/
def sqlNoResult : SQLResult := sqlMakeResult .syntaxError .none

/-! ## Scanners -/

/-- `sql_skip_spaces` -/
def sqlSkipSpaces (cursor : Cursor) : Cursor := skipSpaces cursor

/-- `sql_match_keyword` -/
def sqlMatchKeyword (keyword : String) : Scanner Unit := matchKeyword (bytes keyword)

/-- `sql_match_char` -/
def sqlMatchChar (expected : Char) : Scanner Unit := matchChar (byte expected)

/-- `sql_parse_identifier` -/
def sqlParseIdentifier (bufferSize : Nat) : Scanner (List UInt8) := parseIdentifier bufferSize

/-- The loop of `sql_parse_string`; `length` bytes are in the buffer. -/
def sqlStringLoop (bufferSize : Nat) : (length : Nat) → Scanner (List UInt8)
  | _, [] => (none, [])
  | length, c :: rest =>
    if c = 0 then (none, c :: rest)
    -- the closing quote; there is no escape
    else if c = 39 then (some [], rest)
    -- the buffer is full, and the cursor stays in front of the byte that does not fit
    else if bufferSize ≤ length + 1 then (none, c :: rest)
    else
      let (text, cursor) := sqlStringLoop bufferSize (length + 1) rest
      (text.map (c :: ·), cursor)

/-- `sql_parse_string`; 39 is the single quote. -/
def sqlParseString (bufferSize : Nat) : Scanner (List UInt8) := fun cursor =>
  let cursor := sqlSkipSpaces cursor
  if peek cursor = 39 then sqlStringLoop bufferSize 0 (cursor.drop 1) else (none, cursor)

/-- `sql_parse_int` -/
def sqlParseInt : Scanner Int := fun cursor =>
  let cursor := sqlSkipSpaces cursor
  if isDigit (peek cursor) || peek cursor == byte '-' then
    let (parsed, endPtr) := strtol cursor
    if endPtr = cursor then (none, cursor) else (some (wrapInt parsed), endPtr)
  else (none, cursor)

/-- `sql_parse_comparison` -/
def sqlParseComparison : Scanner TableComparison := fun cursor =>
  let cursor := sqlSkipSpaces cursor
  if peek cursor = byte '>' ∧ peek (cursor.drop 1) = byte '=' then (some .ge, cursor.drop 2)
  else if peek cursor = byte '<' ∧ peek (cursor.drop 1) = byte '=' then (some .le, cursor.drop 2)
  else if peek cursor = byte '>' then (some .gt, cursor.drop 1)
  else if peek cursor = byte '<' then (some .lt, cursor.drop 1)
  else if peek cursor = byte '=' then (some .eq, cursor.drop 1)
  else (none, cursor)

/-- `sql_match_statement_end`; a semicolon is passed even when more text follows. -/
def sqlMatchStatementEnd : Scanner Unit := fun cursor =>
  let cursor := sqlSkipSpaces cursor
  let cursor := if peek cursor = byte ';' then cursor.drop 1 else cursor
  let cursor := sqlSkipSpaces cursor
  (if peek cursor = 0 then some () else none, cursor)

/-! ## Statements -/

/-- A statement parser. -/
abbrev SqlParser (α : Type) := StateT Cursor (Except SQLResult) α

/-- `if (!scanner(&cursor, ..)) { sql_set_syntax_error(&result, cursor); return result; }` -/
def expect {α : Type} (scanner : Scanner α) : SqlParser α := fun cursor =>
  match scanner cursor with
  | (some a, cursor) => .ok (a, cursor)
  | (none, cursor) => .error (sqlSetSyntaxError sqlNoResult cursor)

/-- A scanner whose failure is no error; the cursor moves all the same. -/
def attempt {α : Type} (scanner : Scanner α) : SqlParser (Option α) := fun cursor =>
  .ok (scanner cursor)

/-- Move the cursor to the next token. -/
def skip : SqlParser Unit := fun cursor => .ok ((), sqlSkipSpaces cursor)

/-- The table name, which has to be `users`. -/
def sqlExpectUsers : SqlParser Unit := do
  let tableName ← expect (sqlParseIdentifier 32)
  if strcasecmpEq tableName (bytes "users") then pure ()
  else throw (sqlSetSyntaxError sqlNoResult tableName)

/-- `sql_execute_insert` after the first keyword: the name and the age. -/
def sqlInsertValues : SqlParser (List UInt8 × Int) := do
  skip
  expect (sqlMatchKeyword "INTO")
  sqlExpectUsers
  skip
  expect (sqlMatchKeyword "VALUES")
  expect (sqlMatchChar '(')
  let name ← expect (sqlParseString recordNameSize)
  expect (sqlMatchChar ',')
  let age ← expect sqlParseInt
  expect (sqlMatchChar ')')
  expect sqlMatchStatementEnd
  pure (name, age)

/-- The rows a SELECT asks for. -/
inductive SqlSelect where
  | all
  | byId (comparison : TableComparison) (id : Int)
  | byName (name : List UInt8)
  | byAge (comparison : TableComparison) (age : Int)
  deriving DecidableEq, Repr

/-- The select list: a star, or one of three errors. -/
def sqlSelectList : SqlParser Unit := fun cursor =>
  match sqlMatchChar '*' cursor with
  | (some (), cursor) => .ok ((), cursor)
  -- a column name where only a star is supported
  | (none, afterSpaces) =>
    match sqlParseIdentifier 32 afterSpaces with
    | (none, cursor) => .error (sqlSetSyntaxError sqlNoResult cursor)
    | (some column, _) =>
      -- a known column is a syntax error at the start of the list, an unknown one is named
      if sqlIsKnownColumn column then .error (sqlSetSyntaxError sqlNoResult cursor)
      else .error (sqlSetUnknownColumnError sqlNoResult column (bytes "field list"))

/-- The condition after WHERE. -/
def sqlWhere : SqlParser SqlSelect := do
  let column ← expect (sqlParseIdentifier 32)
  let comparisonCursor ← get
  let comparison ← expect sqlParseComparison
  if strcasecmpEq column (bytes "id") then
    let value ← expect sqlParseInt
    expect sqlMatchStatementEnd
    pure (.byId comparison value)
  else if strcasecmpEq column (bytes "name") then
    -- a name is compared for equality only; the error is reported in front of the operator
    if comparison = .eq then
      let value ← expect (sqlParseString recordNameSize)
      expect sqlMatchStatementEnd
      pure (.byName value)
    else throw (sqlSetSyntaxError sqlNoResult comparisonCursor)
  else if strcasecmpEq column (bytes "age") then
    let value ← expect sqlParseInt
    expect sqlMatchStatementEnd
    pure (.byAge comparison value)
  else throw (sqlSetUnknownColumnError sqlNoResult column (bytes "where clause"))

/-- `sql_execute_select` after the first keyword. -/
def sqlSelectRows : SqlParser SqlSelect := do
  skip
  sqlSelectList
  skip
  expect (sqlMatchKeyword "FROM")
  sqlExpectUsers
  skip
  match ← attempt sqlMatchStatementEnd with
  -- SELECT without WHERE
  | some () => pure .all
  | none =>
    expect (sqlMatchKeyword "WHERE")
    sqlWhere

/-- A statement parser behind its first keyword; without the keyword the result is the
one with an empty message. -/
def sqlStatement {α : Type} (keyword : String) (parser : SqlParser α) (input : Cursor) :
    Except SQLResult α :=
  match sqlMatchKeyword keyword input with
  | (none, _) => .error sqlNoResult
  | (some (), cursor) => Prod.fst <$> parser.run cursor

/-! ## Execution -/

/-- The end of `sql_execute_insert`: the insertion and its result. -/
def sqlInsertRow (name : List UInt8) (age : Int) : Prog SQLResult := do
  match ← tableInsert name age with
  -- the table refused, and the error has no message
  | none => pure { sqlNoResult with status := .error }
  | some record =>
    let stored ← getRecord record
    pure { sqlNoResult with
      status := .ok
      action := .insert
      record := some record
      insertedId := stored.id
      rowCount := 1 }

/-- `sql_execute_insert` -/
def sqlExecuteInsert (input : Cursor) : Prog SQLResult :=
  match sqlStatement "INSERT" sqlInsertValues input with
  | .error result => pure result
  | .ok (name, age) => sqlInsertRow name age

/-- The end of `sql_execute_select`: a failed query is an error, and no rows have the
status `empty`. -/
def sqlSelectResult (empty : SQLStatus) (found : Option (List RecPtr)) : SQLResult :=
  match found with
  | none => { sqlNoResult with status := .error }
  | some records =>
    { sqlNoResult with
      -- only the whole table is OK without rows
      status := if records.length = 0 then empty else .ok
      action := .selectRows
      record := records.head?
      records
      rowCount := records.length }

/-- The table query of a SELECT and its result. -/
def SqlSelect.exec : SqlSelect → Prog SQLResult
  | .all => sqlSelectResult .ok <$> tableCollectAll
  | .byId comparison id => sqlSelectResult .notFound <$> tableFindByIdCondition comparison id
  | .byName name => sqlSelectResult .notFound <$> tableFindByNameMatches name
  | .byAge comparison age => sqlSelectResult .notFound <$> tableFindByAgeCondition comparison age

/-- `sql_execute_select` -/
def sqlExecuteSelect (input : Cursor) : Prog SQLResult :=
  match sqlStatement "SELECT" sqlSelectRows input with
  | .error result => pure result
  | .ok select => select.exec

/-- `result.status == SQL_STATUS_SYNTAX_ERROR && result.error_message[0] == '\0'` -/
def SQLResult.isFallThrough (result : SQLResult) : Bool :=
  result.status == .syntaxError && result.errorMessage.isEmpty

/-- `sql_match_keyword(&cursor, "EXIT") || sql_match_keyword(&cursor, "QUIT")` -/
def sqlMatchExit : Scanner Unit := fun cursor =>
  match sqlMatchKeyword "EXIT" cursor with
  | (some (), cursor) => (some (), cursor)
  | (none, cursor) => sqlMatchKeyword "QUIT" cursor

/-- `sql_execute` -/
def sqlExecute (input : Cursor) : Prog SQLResult :=
  match sqlMatchExit (sqlSkipSpaces input) with
  | (some (), cursor) =>
    match sqlMatchStatementEnd cursor with
    | (some (), _) => pure (sqlMakeResult .exit .none)
    | (none, cursor) => pure (sqlSetSyntaxError sqlNoResult cursor)
  | (none, cursor) => do
    -- INSERT and SELECT start at the input itself, whitespace included
    let result ← sqlExecuteInsert input
    if !result.isFallThrough then pure result
    else
      let result ← sqlExecuteSelect input
      if result.isFallThrough then pure (sqlSetSyntaxError result cursor) else pure result

end SqlApi.Core

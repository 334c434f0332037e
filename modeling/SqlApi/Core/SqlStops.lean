import SqlApi.Core.SqlGrammar

/-!
# Where the parser gives up

The parser reads a text part by part: keywords, symbols, names and values. It gives up at
the first part that is not there. The place where it stops is said here of the text alone,
with no regard to how it is read:

- in front of a token, behind all the parts that were there;
- within a string, behind the 63 bytes of it that fit the buffer, when the string is
  longer.

The parsers stop exactly there. The errors that remain are about a table or a column of a
wrong name, and quote that name instead of the text.
-/

namespace SqlApi.Core

open SqlApi.Lib

/-! ## Parts of a statement -/

/-- How the parser stops: in front of a token, or within a string. -/
inductive SqlStop where
  | token
  | string
  deriving DecidableEq, Repr

/-- An identifier stands at the cursor, behind whitespace. -/
def IdentAt (name : List UInt8) (cursor rest : Cursor) : Prop :=
  ∃ gap, Blank gap ∧ (isAlpha (peek name) = true ∨ peek name = byte '_') ∧
    (∀ c ∈ name, isIdent c = true) ∧ EndsWord rest ∧ cursor = gap ++ (name ++ rest)

/-- There is no identifier at the cursor. -/
def NoIdentAt (cursor : Cursor) : Prop := ∀ name rest, ¬ IdentAt name cursor rest

/-- A comparison stands at the cursor; `<` and `>` are not the beginnings of longer ones. -/
def ComparisonAt (comparison : TableComparison) (cursor rest : Cursor) : Prop :=
  (SqlToken.symbol comparison.symbol).FoundAt cursor rest ∧
    (comparison = .lt ∨ comparison = .gt → peek rest ≠ byte '=')

/-- Behind whitespace and at most one semicolon. -/
def BehindEnd (cursor rest : Cursor) : Prop :=
  (peek (skipSpaces cursor) ≠ byte ';' ∧ rest = skipSpaces cursor) ∨
    ∃ after, (SqlToken.symbol ";").FoundAt cursor after ∧ rest = skipSpaces after

/-- What may come next in a statement. -/
inductive SqlPart where
  | keyword (word : String)
  | symbol (c : Char)
  /-- The select list. -/
  | star
  /-- The name of the table. -/
  | table
  | string
  | int
  /-- The end of the statement. -/
  | ending

/-- The part stands at the cursor, behind whitespace, and `rest` is behind it. -/
def SqlPart.Reads : SqlPart → Cursor → Cursor → Prop
  | .keyword word, cursor, rest => (SqlToken.word word).FoundAt cursor rest
  | .symbol c, cursor, rest => ∃ gap, Blank gap ∧ cursor = gap ++ byte c :: rest
  | .star, cursor, rest => ∃ gap, Blank gap ∧ cursor = gap ++ byte '*' :: rest
  | .table, cursor, rest => (SqlToken.word "users").FoundAt cursor rest
  | .string, cursor, rest => ∃ text, IsName text ∧ (SqlToken.string text).FoundAt cursor rest
  | .int, cursor, rest => ∃ n, (SqlToken.int n).FoundAt cursor rest ∧ isDigit (peek rest) = false
  | .ending, cursor, rest => BehindEnd cursor rest ∧ peek rest = 0

/-- The part is not there, and this is where the parser stops. -/
inductive SqlPart.StopsAt : SqlPart → Cursor → SqlStop → Cursor → Prop
  | keyword {word : String} {cursor : Cursor} :
      (∀ rest, ¬ (SqlToken.word word).FoundAt cursor rest) →
      StopsAt (.keyword word) cursor .token (skipSpaces cursor)
  | symbol {c : Char} {cursor : Cursor} :
      peek (skipSpaces cursor) ≠ byte c → StopsAt (.symbol c) cursor .token (skipSpaces cursor)
  /-- Neither a star nor a name. -/
  | star {cursor : Cursor} :
      peek (skipSpaces cursor) ≠ byte '*' → NoIdentAt cursor →
      StopsAt .star cursor .token (skipSpaces cursor)
  /-- A column in place of the star. -/
  | starColumn {cursor rest : Cursor} {column : List UInt8} :
      IdentAt column cursor rest → column.length < 32 → sqlIsKnownColumn column = true →
      StopsAt .star cursor .token (skipSpaces cursor)
  /-- A name that is too long is read to its end. -/
  | starLong {cursor rest : Cursor} {column : List UInt8} :
      IdentAt column cursor rest → 32 ≤ column.length → StopsAt .star cursor .token rest
  | table {cursor : Cursor} :
      NoIdentAt cursor → StopsAt .table cursor .token (skipSpaces cursor)
  | tableLong {cursor rest : Cursor} {name : List UInt8} :
      IdentAt name cursor rest → 32 ≤ name.length → StopsAt .table cursor .token rest
  /-- There is no quote. -/
  | string {cursor : Cursor} :
      peek (skipSpaces cursor) ≠ 39 → StopsAt .string cursor .token (skipSpaces cursor)
  /-- The text ends within the string. -/
  | stringOpen {gap text rest : List UInt8} :
      Blank gap → 0 ∉ text → 39 ∉ text → text.length < recordNameSize → peek rest = 0 →
      StopsAt .string (gap ++ 39 :: (text ++ rest)) .token rest
  /-- The buffer is full, and the string goes on. -/
  | stringLong {gap text rest : List UInt8} :
      Blank gap → 0 ∉ text → 39 ∉ text → text.length + 1 = recordNameSize →
      peek rest ≠ 0 → peek rest ≠ 39 →
      StopsAt .string (gap ++ 39 :: (text ++ rest)) .string rest
  | int {cursor : Cursor} :
      (∀ rest, ¬ SqlPart.int.Reads cursor rest) → StopsAt .int cursor .token (skipSpaces cursor)
  | ending {cursor rest : Cursor} :
      BehindEnd cursor rest → peek rest ≠ 0 → StopsAt .ending cursor .token rest

/-- Parts that stand one behind the other. -/
def SqlReadsIn : List SqlPart → Cursor → Cursor → Prop
  | [], cursor, rest => cursor = rest
  | part :: parts, cursor, rest => ∃ next, part.Reads cursor next ∧ SqlReadsIn parts next rest

/-- Some of the parts are there, and the next one is not. -/
def SqlStopsIn : List SqlPart → Cursor → SqlStop → Cursor → Prop
  | [], _, _, _ => False
  | part :: parts, cursor, kind, stop =>
    part.StopsAt cursor kind stop ∨ ∃ next, part.Reads cursor next ∧ SqlStopsIn parts next kind stop

/-! ## Statements -/

/-- An INSERT behind its first keyword. -/
def sqlInsertParts : List SqlPart :=
  [.keyword "INTO", .table, .keyword "VALUES", .symbol '(', .string, .symbol ',', .int,
    .symbol ')', .ending]

/-- A SELECT behind its first keyword, up to the name of the table. -/
def sqlTableParts : List SqlPart := [.star, .keyword "FROM", .table]

/-- Where the parser stops behind WHERE. -/
inductive SqlWhereStops : Cursor → SqlStop → Cursor → Prop
  | column {cursor : Cursor} :
      NoIdentAt cursor → SqlWhereStops cursor .token (skipSpaces cursor)
  | columnLong {cursor rest : Cursor} {column : List UInt8} :
      IdentAt column cursor rest → 32 ≤ column.length → SqlWhereStops cursor .token rest
  /-- The comparison is missing, whatever the column. -/
  | comparison {cursor rest : Cursor} {column : List UInt8} :
      IdentAt column cursor rest → column.length < 32 →
      (∀ comparison after, ¬ ComparisonAt comparison rest after) →
      SqlWhereStops cursor .token (skipSpaces rest)
  | number {cursor rest after stop : Cursor} {kind : SqlStop} {column : List UInt8}
      {comparison : TableComparison} :
      IdentAt column cursor rest → SameWord (bytes "id") column ∨ SameWord (bytes "age") column →
      ComparisonAt comparison rest after → SqlStopsIn [.int, .ending] after kind stop →
      SqlWhereStops cursor kind stop
  | name {cursor rest after stop : Cursor} {kind : SqlStop} {column : List UInt8} :
      IdentAt column cursor rest → SameWord (bytes "name") column → ComparisonAt .eq rest after →
      SqlStopsIn [.string, .ending] after kind stop → SqlWhereStops cursor kind stop
  /-- A name is only compared for equality. -/
  | nameComparison {cursor rest after : Cursor} {column : List UInt8}
      {comparison : TableComparison} :
      IdentAt column cursor rest → SameWord (bytes "name") column →
      ComparisonAt comparison rest after → comparison ≠ .eq → SqlWhereStops cursor .token rest

/-- Where the parser stops behind the table of a SELECT: the statement does not end, and there
is no WHERE, or no condition behind it. -/
inductive SqlConditionStops : Cursor → SqlStop → Cursor → Prop
  | noWhere {cursor behind : Cursor} :
      BehindEnd cursor behind → peek behind ≠ 0 →
      (∀ rest, ¬ (SqlToken.word "WHERE").FoundAt behind rest) →
      SqlConditionStops cursor .token behind
  | condition {cursor behind rest stop : Cursor} {kind : SqlStop} :
      BehindEnd cursor behind → (SqlToken.word "WHERE").FoundAt behind rest →
      SqlWhereStops rest kind stop → SqlConditionStops cursor kind stop

/-- A text starts with this word; there is no whitespace in front. -/
def StartsWith (word : String) (text rest : Cursor) : Prop :=
  ∃ spelling, SameWord (bytes word) spelling ∧ EndsWord rest ∧ text = spelling ++ rest

/-- Where the parser gives up in a text. -/
inductive SqlStopsAt (text : Cursor) : SqlStop → Cursor → Prop
  | exit {word : String} {rest stop : Cursor} {kind : SqlStop} :
      word = "EXIT" ∨ word = "QUIT" → (SqlToken.word word).FoundAt text rest →
      SqlPart.ending.StopsAt rest kind stop → SqlStopsAt text kind stop
  | insert {rest stop : Cursor} {kind : SqlStop} :
      StartsWith "INSERT" text rest → SqlStopsIn sqlInsertParts rest kind stop →
      SqlStopsAt text kind stop
  | selectTable {rest stop : Cursor} {kind : SqlStop} :
      StartsWith "SELECT" text rest → SqlStopsIn sqlTableParts rest kind stop →
      SqlStopsAt text kind stop
  | selectCondition {rest behind stop : Cursor} {kind : SqlStop} :
      StartsWith "SELECT" text rest → SqlReadsIn sqlTableParts rest behind →
      SqlConditionStops behind kind stop → SqlStopsAt text kind stop
  /-- None of the four words. -/
  | noStatement :
      (∀ word, word = "EXIT" ∨ word = "QUIT" → ∀ rest, ¬ (SqlToken.word word).FoundAt text rest) →
      (∀ word, word = "INSERT" ∨ word = "SELECT" → ∀ rest, ¬ StartsWith word text rest) →
      SqlStopsAt text .token (skipSpaces text)

/-! ## What the scanners find -/

section Scanners

variable {cursor rest stop : Cursor}

/-- A keyword that is not there leaves the cursor where it is. -/
theorem sqlMatchKeyword_stays {word : String} (h : sqlMatchKeyword word cursor = (none, rest)) :
    rest = cursor := by
  unfold sqlMatchKeyword matchKeyword at h
  split at h
  · exact (Prod.mk.inj h).2.symm
  · split at h
    · exact (Prod.mk.inj h).2.symm
    · cases h

theorem startsWith_iff {word : String} (hword : IsWord word) :
    StartsWith word cursor rest ↔ sqlMatchKeyword word cursor = (some (), rest) := by
  constructor
  · rintro ⟨spelling, hspells, hend, rfl⟩
    exact matchKeyword_append hspells hend
  · intro h
    have hzero : 0 ∉ bytes word := fun hmem => absurd (hword.2 0 hmem) (by decide)
    exact matchKeyword_eq_some hzero h

theorem keyword_found_iff {word : String} (hword : IsWord word) :
    (SqlToken.word word).FoundAt cursor rest ↔
      sqlMatchKeyword word (sqlSkipSpaces cursor) = (some (), rest) := by
  constructor
  · rintro ⟨gap, spelling, hgap, hspells, rfl, hend⟩
    rw [skipSpaces_word hword hgap hspells]
    exact matchKeyword_append hspells (hend word rfl)
  · intro h
    have hzero : 0 ∉ bytes word := fun hmem => absurd (hword.2 0 hmem) (by decide)
    exact found_keyword hzero (expect_of h)

theorem keyword_notFound_iff {word : String} (hword : IsWord word) :
    (∀ rest, ¬ (SqlToken.word word).FoundAt cursor rest) ↔
      sqlMatchKeyword word (sqlSkipSpaces cursor) = (none, sqlSkipSpaces cursor) := by
  constructor
  · intro h
    cases hmatch : sqlMatchKeyword word (sqlSkipSpaces cursor) with
    | mk found rest =>
      cases found with
      | some _ => exact absurd ((keyword_found_iff hword).mpr hmatch) (h rest)
      | none => rw [sqlMatchKeyword_stays hmatch]
  · intro h rest hfound
    rw [(keyword_found_iff hword).mp hfound] at h
    cases h

/-- A character, and what is left of it. -/
theorem char_reads_iff {c : Char} (hc : byte c ≠ 0) (hspace : isSpace (byte c) = false) :
    (∃ gap, Blank gap ∧ cursor = gap ++ byte c :: rest) ↔
      sqlMatchChar c cursor = (some (), rest) := by
  constructor
  · rintro ⟨gap, hgap, rfl⟩
    exact matchChar_append hgap hspace
  · exact matchChar_eq_some hc

theorem char_stops_iff {c : Char} :
    (peek (skipSpaces cursor) ≠ byte c ∧ stop = skipSpaces cursor) ↔
      sqlMatchChar c cursor = (none, stop) := by
  unfold sqlMatchChar matchChar
  dsimp only
  split
  case isTrue h => exact iff_of_false (fun hne => hne.1 h) nofun
  case isFalse h =>
    constructor
    · rintro ⟨-, rfl⟩
      rfl
    · intro heq
      exact ⟨h, (Prod.mk.inj heq).2.symm⟩

/-- An identifier starts with a letter or an underscore. -/
private theorem identStart_facts {c : UInt8} (hc : isAlpha c = true ∨ c = byte '_') :
    isSpace c = false ∧ isIdent c = true ∧ (isAlpha c || c == byte '_') = true := by
  rcases hc with halpha | rfl
  · exact ⟨isSpace_of_isAlpha halpha, isIdent_of_isAlpha halpha, by rw [halpha]; rfl⟩
  · decide

/-- Where an identifier ends. -/
theorem IdentAt.split {name : List UInt8} (h : IdentAt name cursor rest) :
    (isAlpha (peek (skipSpaces cursor)) || peek (skipSpaces cursor) == byte '_') = true ∧
      (skipSpaces cursor).takeWhile isIdent = name ∧ (skipSpaces cursor).dropWhile isIdent = rest := by
  obtain ⟨gap, hgap, hstart, hname, hend, rfl⟩ := h
  have hne : name ≠ [] := by
    rintro rfl
    rcases hstart with h | h <;> exact absurd h (by decide)
  obtain ⟨hspace, -, hfirst⟩ := identStart_facts hstart
  have hskip : skipSpaces (gap ++ (name ++ rest)) = name ++ rest :=
    skipSpaces_append hgap (by rwa [peek_append hne])
  have hstop : rest.takeWhile isIdent = [] ∧ rest.dropWhile isIdent = rest := by
    cases rest with
    | nil => exact ⟨rfl, rfl⟩
    | cons c rest =>
      have hc : isIdent c = false := hend
      simp [hc]
  rw [hskip, List.takeWhile_append_of_pos hname, List.dropWhile_append_of_pos hname, hstop.1,
    hstop.2, List.append_nil, peek_append hne]
  exact ⟨hfirst, rfl, rfl⟩

/-- What `sql_parse_identifier` makes of the text: the three cases. -/
theorem identAt_cases (cursor : Cursor) :
    NoIdentAt cursor ∧ sqlParseIdentifier 32 cursor = (none, skipSpaces cursor) ∨
      ∃ name rest, IdentAt name cursor rest ∧
        sqlParseIdentifier 32 cursor = (if 32 ≤ name.length then none else some name, rest) := by
  obtain ⟨gap, hgap, hcursor⟩ := skipSpaces_spec cursor
  by_cases hstart : (isAlpha (peek (skipSpaces cursor)) || peek (skipSpaces cursor) == byte '_') = true
  · refine .inr ⟨(skipSpaces cursor).takeWhile isIdent, (skipSpaces cursor).dropWhile isIdent,
      ⟨gap, hgap, ?_, fun c hc => List.mem_takeWhile_imp hc, endsWord_dropWhile _, ?_⟩, ?_⟩
    · have hfirst : isAlpha (peek (skipSpaces cursor)) = true ∨ peek (skipSpaces cursor) = byte '_' := by
        simpa using hstart
      have hident := (identStart_facts hfirst).2.1
      cases hskip : skipSpaces cursor with
      | nil =>
        rw [hskip] at hident
        exact absurd hident (by decide)
      | cons c t =>
        rw [hskip] at hfirst hident
        have hc : isIdent c = true := hident
        rw [List.takeWhile_cons_of_pos hc]
        exact hfirst
    · -- the name ends where no byte of a name follows
      rw [List.takeWhile_append_dropWhile]
      exact hcursor
    · unfold sqlParseIdentifier parseIdentifier
      dsimp only
      rw [if_pos hstart]
  · -- nothing here starts a name
    refine .inl ⟨fun name rest hname => hstart hname.split.1, ?_⟩
    unfold sqlParseIdentifier parseIdentifier
    dsimp only
    rw [if_neg hstart]

theorem sqlParseIdentifier_skipSpaces (bufferSize : Nat) (cursor : Cursor) :
    sqlParseIdentifier bufferSize (skipSpaces cursor) = sqlParseIdentifier bufferSize cursor := by
  unfold sqlParseIdentifier parseIdentifier
  rw [skipSpaces_skipSpaces]

/-- There is one identifier at most. -/
theorem IdentAt.unique {name name' : List UInt8} {rest' : Cursor} (h : IdentAt name cursor rest)
    (h' : IdentAt name' cursor rest') : name = name' ∧ rest = rest' := by
  obtain ⟨-, hname, hrest⟩ := h.split
  obtain ⟨-, hname', hrest'⟩ := h'.split
  exact ⟨hname.symm.trans hname', hrest.symm.trans hrest'⟩

theorem IdentAt.parse {name : List UInt8} (h : IdentAt name cursor rest) :
    sqlParseIdentifier 32 cursor = (if 32 ≤ name.length then none else some name, rest) := by
  rcases identAt_cases cursor with ⟨hnone, -⟩ | ⟨name', rest', hname', hparse⟩
  · exact absurd h (hnone name rest)
  · obtain ⟨rfl, rfl⟩ := h.unique hname'
    exact hparse

/-- The loop of `sql_parse_string` on a byte that belongs to the string and has room. -/
private theorem sqlStringLoop_cons_eq_none {bufferSize length : Nat} {c : UInt8}
    (hzero : c ≠ 0) (hquote : c ≠ 39) (hroom : ¬ bufferSize ≤ length + 1) :
    sqlStringLoop bufferSize length (c :: cursor) = (none, stop) ↔
      sqlStringLoop bufferSize (length + 1) cursor = (none, stop) := by
  rw [sqlStringLoop, if_neg hzero, if_neg hquote, if_neg hroom]
  cases sqlStringLoop bufferSize (length + 1) cursor with
  | mk found after => cases found <;> simp

/-- With room for so many bytes, the loop of `sql_parse_string` goes over `text` and gives up in
front of `stop`: the input ends there, or the buffer is full. -/
def StringGivesUp (room : Nat) (text stop : List UInt8) : Prop :=
  0 ∉ text ∧ 39 ∉ text ∧ ((peek stop = 0 ∧ text.length < room) ∨
    (peek stop ≠ 0 ∧ peek stop ≠ 39 ∧ text.length + 1 = room))

theorem stringGivesUp_nil {room : Nat} (hroom : 0 < room) :
    StringGivesUp room [] stop ↔ peek stop = 0 ∨ (peek stop ≠ 39 ∧ room = 1) := by
  unfold StringGivesUp
  rw [List.length_nil]
  constructor
  · rintro ⟨-, -, ⟨hpeek, -⟩ | ⟨-, hpeek, hfull⟩⟩
    · exact .inl hpeek
    · exact .inr ⟨hpeek, by omega⟩
  · intro h
    refine ⟨List.not_mem_nil, List.not_mem_nil, ?_⟩
    by_cases hzero : peek stop = 0
    · exact .inl ⟨hzero, hroom⟩
    · obtain ⟨hpeek, hfull⟩ := h.resolve_left hzero
      exact .inr ⟨hzero, hpeek, by omega⟩

theorem stringGivesUp_cons {room : Nat} {c : UInt8} {text : List UInt8} :
    StringGivesUp (room + 1) (c :: text) stop ↔
      c ≠ 0 ∧ c ≠ 39 ∧ StringGivesUp room text stop := by
  unfold StringGivesUp
  simp only [List.mem_cons, not_or, List.length_cons, Nat.add_lt_add_iff_right,
    Nat.add_right_cancel_iff]
  constructor
  · rintro ⟨⟨hzero, hzeros⟩, ⟨hquote, hquotes⟩, hstop⟩
    exact ⟨Ne.symm hzero, Ne.symm hquote, hzeros, hquotes, hstop⟩
  · rintro ⟨hzero, hquote, hzeros, hquotes, hstop⟩
    exact ⟨⟨Ne.symm hzero, hzeros⟩, ⟨Ne.symm hquote, hquotes⟩, hstop⟩

/-- It gives up at once, or behind the first byte. -/
theorem exists_stringGivesUp_cons {room : Nat} {c : UInt8} :
    (∃ text, c :: cursor = text ++ stop ∧ StringGivesUp (room + 1) text stop) ↔
      (c :: cursor = stop ∧ (c = 0 ∨ (c ≠ 39 ∧ room = 0))) ∨
        c ≠ 0 ∧ c ≠ 39 ∧ ∃ text, cursor = text ++ stop ∧ StringGivesUp room text stop := by
  constructor
  · rintro ⟨text, hsplit, hstop⟩
    cases text with
    | nil =>
      obtain rfl : c :: cursor = stop := hsplit
      refine .inl ⟨rfl, ?_⟩
      simpa using (stringGivesUp_nil (Nat.succ_pos _)).mp hstop
    | cons d text =>
      obtain ⟨rfl, hrest⟩ := List.cons.inj hsplit
      obtain ⟨hzero, hquote, hstop⟩ := stringGivesUp_cons.mp hstop
      exact .inr ⟨hzero, hquote, text, hrest, hstop⟩
  · rintro (⟨rfl, hstop⟩ | ⟨hzero, hquote, text, rfl, hstop⟩)
    · refine ⟨[], rfl, (stringGivesUp_nil (Nat.succ_pos _)).mpr ?_⟩
      simpa using hstop
    · exact ⟨c :: text, rfl, stringGivesUp_cons.mpr ⟨hzero, hquote, hstop⟩⟩

/-- How the loop of `sql_parse_string` fails: at the end of the text, or with a full buffer. -/
theorem sqlStringLoop_eq_none_iff {bufferSize length room : Nat}
    (hroom : bufferSize = length + (room + 1)) :
    sqlStringLoop bufferSize length cursor = (none, stop) ↔
      ∃ text, cursor = text ++ stop ∧ StringGivesUp (room + 1) text stop := by
  induction cursor generalizing length room with
  | nil =>
    constructor
    · intro h
      obtain rfl : [] = stop := (Prod.mk.inj h).2
      exact ⟨[], rfl, (stringGivesUp_nil (Nat.succ_pos _)).mpr (.inl rfl)⟩
    · rintro ⟨text, hsplit, -⟩
      obtain ⟨rfl, rfl⟩ := List.append_eq_nil_iff.mp hsplit.symm
      rfl
  | cons c cursor ih =>
    rw [exists_stringGivesUp_cons]
    by_cases hzero : c = 0
    · -- the text ends here
      rw [sqlStringLoop, if_pos hzero]
      simp [hzero]
    by_cases hquote : c = 39
    · -- the string is closed
      rw [sqlStringLoop, if_neg hzero, if_pos hquote]
      simp [hquote]
    by_cases hfull : bufferSize ≤ length + 1
    · -- the byte has no room in front of the NUL that closes the buffer
      obtain rfl : room = 0 := by omega
      have hnone : ¬ ∃ text, cursor = text ++ stop ∧ StringGivesUp 0 text stop := by
        rintro ⟨text, -, -, -, ⟨-, hlt⟩ | ⟨-, -, hlt⟩⟩
        · exact absurd hlt (Nat.not_lt_zero _)
        · exact absurd hlt (Nat.succ_ne_zero _)
      rw [sqlStringLoop, if_neg hzero, if_neg hquote, if_pos hfull]
      simp [hzero, hquote, hnone]
    · -- one byte more
      obtain ⟨room, rfl⟩ : ∃ k, room = k + 1 := ⟨room - 1, by omega⟩
      have hrest : bufferSize = length + 1 + (room + 1) := by omega
      rw [sqlStringLoop_cons_eq_none hzero hquote hfull, ih hrest]
      simp [hzero, hquote]

theorem string_reads_iff {text : List UInt8} :
    IsName text ∧ (SqlToken.string text).FoundAt cursor rest ↔
      sqlParseString recordNameSize cursor = (some text, rest) := by
  constructor
  · rintro ⟨hname, gap, spelling, hgap, hspells, rfl, -⟩
    obtain rfl : spelling = 39 :: (text ++ [39]) := hspells
    exact sqlParseString_append hgap hname
  · intro h
    exact (found_string (expect_of h)).symm

theorem string_stops_iff :
    (∃ kind, SqlPart.string.StopsAt cursor kind stop) ↔
      sqlParseString recordNameSize cursor = (none, stop) := by
  have hopen {gap text : List UInt8} (hgap : Blank gap) :
      sqlSkipSpaces (gap ++ 39 :: (text ++ stop)) = 39 :: (text ++ stop) := skipSpaces_append hgap rfl
  constructor
  · rintro ⟨kind, hstop⟩
    unfold sqlParseString
    dsimp only
    -- no opening quote, or the loop gives up behind it
    cases hstop with
    | string hquote => exact if_neg hquote
    | @stringOpen gap text _ hgap hzero hquote hlen hpeek =>
      rw [hopen hgap, peek_cons, if_pos rfl]
      exact (sqlStringLoop_eq_none_iff rfl).mpr ⟨text, rfl, hzero, hquote, .inl ⟨hpeek, hlen⟩⟩
    | @stringLong gap text _ hgap hzero hquote hlen hpeek hpeek' =>
      rw [hopen hgap, peek_cons, if_pos rfl]
      exact (sqlStringLoop_eq_none_iff rfl).mpr
        ⟨text, rfl, hzero, hquote, .inr ⟨hpeek, hpeek', hlen⟩⟩
  · intro h
    obtain ⟨gap, hgap, hcursor⟩ := skipSpaces_spec cursor
    unfold sqlParseString at h
    dsimp only at h
    split at h
    case isFalse hquote =>
      obtain rfl : sqlSkipSpaces cursor = stop := (Prod.mk.inj h).2
      exact ⟨.token, .string hquote⟩
    case isTrue hquote =>
      have hquoted := eq_cons_of_peek hquote (by decide)
      obtain ⟨text, hrest, hzero, hnoQuote, hcases⟩ :=
        (sqlStringLoop_eq_none_iff (show recordNameSize = 0 + (63 + 1) from rfl)).mp h
      rw [hrest] at hquoted
      rw [hcursor, show skipSpaces cursor = _ from hquoted]
      rcases hcases with ⟨hpeek, hlen⟩ | ⟨hpeek, hpeek', hlen⟩
      · exact ⟨.token, .stringOpen hgap hzero hnoQuote hlen hpeek⟩
      · exact ⟨.string, .stringLong hgap hzero hnoQuote hlen hpeek hpeek'⟩

theorem int_reads_iff :
    SqlPart.int.Reads cursor rest ↔ ∃ value, sqlParseInt cursor = (some value, rest) := by
  constructor
  · rintro ⟨n, ⟨gap, spelling, hgap, hspells, rfl, -⟩, hnext⟩
    exact ⟨_, sqlParseInt_append hgap hspells hnext⟩
  · rintro ⟨value, h⟩
    obtain ⟨n, hfound, -, hnext⟩ := found_digits h
    exact ⟨n, hfound, hnext⟩

/-- Without a number the cursor is only moved to the next token. -/
theorem sqlParseInt_stays (h : sqlParseInt cursor = (none, stop)) : stop = skipSpaces cursor := by
  unfold sqlParseInt at h
  dsimp only at h
  split at h
  · split at h
    · exact (Prod.mk.inj h).2.symm
    · cases h
  · exact (Prod.mk.inj h).2.symm

theorem int_stops_iff :
    (∃ kind, SqlPart.int.StopsAt cursor kind stop) ↔ sqlParseInt cursor = (none, stop) := by
  constructor
  · rintro ⟨kind, hnone⟩
    cases hnone with
    | int hnone =>
      cases hparse : sqlParseInt cursor with
      | mk found rest =>
        cases found with
        | some value => exact absurd (int_reads_iff.mpr ⟨value, hparse⟩) (hnone rest)
        | none => rw [sqlParseInt_stays hparse]
  · intro h
    obtain rfl := sqlParseInt_stays h
    refine ⟨.token, .int fun rest hreads => ?_⟩
    obtain ⟨value, hparse⟩ := int_reads_iff.mp hreads
    rw [hparse] at h
    cases h

theorem comparison_iff {comparison : TableComparison} :
    ComparisonAt comparison cursor rest ↔ sqlParseComparison cursor = (some comparison, rest) := by
  have hread {comparison : TableComparison} (h : ComparisonAt comparison cursor rest) :
      sqlParseComparison cursor = (some comparison, rest) := by
    obtain ⟨⟨gap, spelling, hgap, hspells, rfl, -⟩, hnext⟩ := h
    obtain rfl : spelling = bytes comparison.symbol := hspells
    exact sqlParseComparison_append hgap hnext
  refine ⟨hread, fun h => ⟨found_comparison (expect_of h), fun hshort hpeek => ?_⟩⟩
  -- with an equals sign behind it, the longer comparison would have been read
  obtain ⟨gap, spelling, hgap, hspells, rfl, -⟩ := found_comparison (expect_of h)
  obtain rfl : spelling = bytes comparison.symbol := hspells
  have hrest := eq_cons_of_peek hpeek (by decide)
  rcases hshort with rfl | rfl
  · have hlong : gap ++ (bytes TableComparison.lt.symbol ++ rest) =
        gap ++ (bytes TableComparison.le.symbol ++ rest.drop 1) := by
      rw [hrest]
      rfl
    rw [hlong, sqlParseComparison_append hgap (by rintro (hlt | hgt) <;> contradiction)] at h
    cases h
  · have hlong : gap ++ (bytes TableComparison.gt.symbol ++ rest) =
        gap ++ (bytes TableComparison.ge.symbol ++ rest.drop 1) := by
      rw [hrest]
      rfl
    rw [hlong, sqlParseComparison_append hgap (by rintro (hlt | hgt) <;> contradiction)] at h
    cases h

theorem sqlParseComparison_stays (h : sqlParseComparison cursor = (none, stop)) :
    stop = skipSpaces cursor := by
  unfold sqlParseComparison at h
  dsimp only at h
  repeat' split at h
  all_goals first | exact (Prod.mk.inj h).2.symm | cases h

theorem comparison_stops_iff :
    ((∀ comparison after, ¬ ComparisonAt comparison cursor after) ∧ stop = skipSpaces cursor) ↔
      sqlParseComparison cursor = (none, stop) := by
  constructor
  · rintro ⟨hnone, rfl⟩
    cases hparse : sqlParseComparison cursor with
    | mk found rest =>
      cases found with
      | some comparison => exact absurd (comparison_iff.mpr hparse) (hnone comparison rest)
      | none => rw [sqlParseComparison_stays hparse]
  · intro h
    refine ⟨fun comparison after hfound => ?_, sqlParseComparison_stays h⟩
    rw [comparison_iff.mp hfound] at h
    cases h

/-- The cursor behind the end that is looked for. -/
theorem BehindEnd.matchEnd (h : BehindEnd cursor rest) :
    sqlMatchStatementEnd cursor = (if peek rest = 0 then some () else none, rest) := by
  unfold sqlMatchStatementEnd
  dsimp only
  rcases h with ⟨hpeek, rfl⟩ | ⟨after, ⟨gap, spelling, hgap, hspells, rfl, -⟩, rfl⟩
  · have hpeek' : peek (sqlSkipSpaces cursor) ≠ byte ';' := hpeek
    rw [if_neg hpeek', show sqlSkipSpaces (sqlSkipSpaces cursor) = skipSpaces cursor from
      skipSpaces_skipSpaces cursor]
  · obtain rfl : spelling = bytes ";" := hspells
    have hskip : sqlSkipSpaces (gap ++ (bytes ";" ++ after)) = byte ';' :: after :=
      skipSpaces_append hgap rfl
    rw [hskip, peek_cons, if_pos rfl]
    rfl

theorem exists_behindEnd (cursor : Cursor) : ∃ rest, BehindEnd cursor rest := by
  by_cases hpeek : peek (skipSpaces cursor) = byte ';'
  · exact ⟨_, .inr ⟨_, found_semicolon hpeek, rfl⟩⟩
  · exact ⟨_, .inl ⟨hpeek, rfl⟩⟩

end Scanners

end SqlApi.Core

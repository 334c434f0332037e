import SqlApi.Core.SqlGiveUp
import SqlApi.Lib.Utf8

/-!
# UTF-8 in an error message

`sql_build_near_excerpt` counts bytes: at most 63 of them, from wherever the parser gave up. The
message is valid UTF-8 if and only if neither end of the excerpt is within a character. In a valid
text that can go wrong in two ways: the parser gave up behind 63 bytes of a string, or the line
goes on behind 63 bytes. In front of a token, where it gives up otherwise, a character starts.

## How the proof goes

A text that is cut in front of a first byte stays valid (`Utf8`). The front of the excerpt is where
the parser stopped, and behind the last part that was there a character starts, since every token
ends in ASCII (`Ahead`); only the 63 bytes of a string are counted. The back of the excerpt is the
end of the line, or the 63rd byte of it (`WholeExcerpt`).
-/

namespace SqlApi.Core

open SqlApi.Lib

/-! ## The excerpt -/

/-- What an excerpt is taken from: the line at the cursor, up to a semicolon. -/
def sqlNearLine (cursor : Cursor) : List UInt8 :=
  (skipSpaces cursor).takeWhile fun c =>
    c != 0 && c != byte '\n' && c != byte '\r' && c != byte ';'

/-- A character starts where the excerpt does, and none goes on behind its 63 bytes. -/
def WholeExcerpt (cursor : Cursor) : Prop :=
  StartsChar (skipSpaces cursor) ∧ StartsChar ((sqlNearLine cursor).drop 63)

instance (cursor : Cursor) : Decidable (WholeExcerpt cursor) := inferInstanceAs (Decidable (_ ∧ _))

section Excerpt

variable {text cursor : Cursor}

theorem sqlBuildNearExcerpt_eq (cursor : Cursor) :
    sqlBuildNearExcerpt 64 cursor =
      if ((sqlNearLine cursor).take 63).rdropWhile isSpace = [] then bytes "end of input"
      else ((sqlNearLine cursor).take 63).rdropWhile isSpace := by
  have hend : snprintf 64 (bytes "end of input") = bytes "end of input" := by decide
  unfold sqlBuildNearExcerpt sqlNearLine
  rw [hend]
  dsimp only
  split
  next hpeek =>
    -- nothing is left to quote
    have hline : (skipSpaces cursor).takeWhile (fun c =>
        c != 0 && c != byte '\n' && c != byte '\r' && c != byte ';') = [] := by
      cases hskip : skipSpaces cursor with
      | nil => rfl
      | cons c rest =>
        rw [hskip, peek_cons] at hpeek
        rw [hpeek]
        rfl
    rw [hline]
    rfl
  next => rfl

theorem sqlBuildNearExcerpt_subset (cursor : Cursor) :
    ∀ c ∈ sqlBuildNearExcerpt 64 cursor, c ∈ bytes "end of input" ∨ c ∈ sqlNearLine cursor := by
  intro c hc
  rw [sqlBuildNearExcerpt_eq] at hc
  split at hc
  · exact .inl hc
  · exact .inr (List.mem_of_mem_take ((List.rdropWhile_prefix _ _).subset hc))

theorem length_sqlBuildNearExcerpt (cursor : Cursor) :
    (sqlBuildNearExcerpt 64 cursor).length ≤ 63 := by
  rw [sqlBuildNearExcerpt_eq]
  split
  · decide
  · exact (List.rdropWhile_prefix _ _).length_le.trans (List.length_take_le _ _)

theorem zero_notMem_sqlBuildNearExcerpt (cursor : Cursor) :
    0 ∉ sqlBuildNearExcerpt 64 cursor := by
  intro hzero
  rcases sqlBuildNearExcerpt_subset cursor 0 hzero with hmem | hmem
  · exact absurd hmem (by decide)
  · have hstop := List.mem_takeWhile_imp hmem
    exact absurd hstop (by decide)

private theorem isSpace_ascii {c : UInt8} (hc : isSpace c = true) : c < 128 := by
  have hrange : c = 32 ∨ (9 ≤ c.toNat ∧ c.toNat ≤ 13) := by
    simpa [isSpace, UInt8.le_iff_toNat_le] using hc
  rw [UInt8.lt_iff_toNat_lt]
  rcases hrange with rfl | hrange
  · decide
  · exact lt_of_le_of_lt hrange.2 (by decide)

private theorem isIdent_ascii {c : UInt8} (hc : isIdent c = true) : c < 128 := by
  have hrange : c.toNat ≤ 122 := by
    have hcases : ((65 ≤ c.toNat ∧ c.toNat ≤ 90) ∨ (97 ≤ c.toNat ∧ c.toNat ≤ 122)) ∨
        (48 ≤ c.toNat ∧ c.toNat ≤ 57) ∨ c = 95 := by
      simpa [isIdent, isAlnum, isAlpha, isDigit, UInt8.le_iff_toNat_le, or_assoc] using hc
    rcases hcases with hcases | hcases | rfl
    · omega
    · omega
    · decide
  rw [UInt8.lt_iff_toNat_lt]
  exact lt_of_le_of_lt hrange (by decide)

private theorem isDecimal_ascii {n : Int} {spelling : List UInt8} (h : IsDecimal n spelling) :
    ∀ c ∈ spelling, c < 128 := by
  obtain ⟨digits, -, hdigits, hcases⟩ := h
  have hascii : ∀ c ∈ digits, c < 128 := fun c hc => by
    have hident : isIdent c = true := by simp [isIdent, isAlnum, hdigits c hc]
    exact isIdent_ascii hident
  rcases hcases with ⟨rfl, -⟩ | ⟨rfl, -⟩
  · exact hascii
  · exact List.forall_mem_cons.mpr ⟨by decide, hascii⟩

/-- The bytes that end a line are ASCII. -/
private theorem line_continues (c : UInt8) (hc : 128 ≤ c) :
    (c != 0 && c != byte '\n' && c != byte '\r' && c != byte ';') = true := by
  have hne {d : UInt8} (hd : d < 128) : c ≠ d := fun h => absurd hc (UInt8.not_le.mpr (h ▸ hd))
  simp [hne (d := 0) (by decide), hne (d := 10) (by decide), hne (d := 13) (by decide),
    hne (d := 59) (by decide)]

/-- An excerpt of a valid text is valid if and only if it is whole. -/
theorem isUtf8_sqlBuildNearExcerpt_iff (htext : IsUtf8 text) (hcursor : cursor <:+ text) :
    IsUtf8 (sqlBuildNearExcerpt 64 cursor) ↔ WholeExcerpt cursor := by
  have hskip : skipSpaces cursor <:+ text := (skipSpaces_suffix cursor).trans hcursor
  have hline (hstart : StartsChar (skipSpaces cursor)) : IsUtf8 (sqlNearLine cursor) :=
    (htext.suffix hskip hstart).takeWhile line_continues
  have htake : IsUtf8 (sqlBuildNearExcerpt 64 cursor) ↔ IsUtf8 ((sqlNearLine cursor).take 63) := by
    -- whitespace is trimmed at the end, which is ASCII
    have htrim : IsUtf8 (((sqlNearLine cursor).take 63).rdropWhile isSpace) ↔ _ :=
      isUtf8_rdropWhile_iff fun c hc => isSpace_ascii hc
    rw [sqlBuildNearExcerpt_eq, ← htrim]
    split
    next hempty =>
      have hend : IsUtf8 (bytes "end of input") := isUtf8_ascii (by decide)
      rw [hempty]
      exact iff_of_true hend isUtf8_nil
    next => rfl
  rw [htake]
  constructor
  · intro h
    have hstart : StartsChar (skipSpaces cursor) :=
      (h.startsChar.of_take (by decide)).of_takeWhile line_continues
    exact ⟨hstart, ((hline hstart).take_iff 63).mp h⟩
  · rintro ⟨hstart, hcut⟩
    exact ((hline hstart).take_iff 63).mpr hcut

/-- The 63rd byte is the first of two. -/
example : ¬ WholeExcerpt (List.replicate 62 (byte 'x') ++ String.utf8EncodeChar 'é') := by decide

end Excerpt

/-! ## Where the parser stops in a valid text -/

/-- The part is written in ASCII, except for what a string has between its quotes. -/
def SqlPart.Ascii : SqlPart → Prop
  | .keyword word => IsWord word
  | .symbol c => byte c < 128
  | _ => True

instance (part : SqlPart) : Decidable part.Ascii :=
  match part with
  | .keyword word => inferInstanceAs (Decidable (IsWord word))
  | .symbol c => inferInstanceAs (Decidable (byte c < 128))
  | .star | .table | .string | .int | .ending => isTrue trivial

/-- Further on in the text; the rest of a valid text is valid. -/
structure Ahead (cursor rest : Cursor) : Prop where
  suffix : rest <:+ cursor
  isUtf8 : IsUtf8 cursor → IsUtf8 rest

/-- Where the parser stops there may be no character boundary within a string. -/
structure StopsAhead (cursor : Cursor) (kind : SqlStop) (stop : Cursor) : Prop where
  suffix : stop <:+ cursor
  isUtf8 : kind = .token → IsUtf8 cursor → IsUtf8 stop

section Stops

variable {text cursor next rest stop : Cursor} {part : SqlPart} {parts : List SqlPart}
  {kind : SqlStop} {name : List UInt8}

theorem Ahead.refl (cursor : Cursor) : Ahead cursor cursor := ⟨List.suffix_rfl, id⟩

theorem Ahead.trans (h : Ahead cursor next) (h' : Ahead next rest) : Ahead cursor rest :=
  ⟨h'.suffix.trans h.suffix, fun hcursor => h'.isUtf8 (h.isUtf8 hcursor)⟩

theorem Ahead.stops (h : Ahead cursor next) (h' : StopsAhead next kind stop) :
    StopsAhead cursor kind stop :=
  ⟨h'.suffix.trans h.suffix, fun hkind hcursor => h'.isUtf8 hkind (h.isUtf8 hcursor)⟩

theorem Ahead.token (h : Ahead cursor stop) : StopsAhead cursor kind stop :=
  ⟨h.suffix, fun _ => h.isUtf8⟩

/-- There is a boundary behind ASCII text. -/
theorem ahead_ascii {front : List UInt8} (hfront : ∀ c ∈ front, c < 128) (rest : Cursor) :
    Ahead (front ++ rest) rest :=
  ⟨List.suffix_append _ _, fun h => h.behind_ascii hfront⟩

theorem ahead_blank {gap : List UInt8} (hgap : Blank gap) (rest : Cursor) : Ahead (gap ++ rest) rest :=
  ahead_ascii (fun c hc => isSpace_ascii (hgap c hc)) rest

theorem ahead_skipSpaces (cursor : Cursor) : Ahead cursor (skipSpaces cursor) := by
  obtain ⟨gap, hgap, hcursor⟩ := skipSpaces_spec cursor
  have hahead := ahead_blank hgap (skipSpaces cursor)
  rwa [← hcursor] at hahead

theorem IdentAt.ahead (h : IdentAt name cursor rest) : Ahead cursor rest := by
  obtain ⟨gap, hgap, -, hname, -, rfl⟩ := h
  exact (ahead_blank hgap _).trans (ahead_ascii (fun c hc => isIdent_ascii (hname c hc)) rest)

theorem ahead_found {token : SqlToken} (h : token.FoundAt cursor rest)
    (hascii : ∀ spelling, token.Spells spelling → ∀ c ∈ spelling, c < 128) : Ahead cursor rest := by
  obtain ⟨gap, spelling, hgap, hspells, rfl, -⟩ := h
  exact (ahead_blank hgap _).trans (ahead_ascii (hascii spelling hspells) rest)

theorem ahead_word {word : String} (hword : IsWord word) (h : (SqlToken.word word).FoundAt cursor rest) :
    Ahead cursor rest := by
  obtain ⟨name, hname, -⟩ := identAt_of_found hword h
  exact hname.ahead

theorem BehindEnd.ahead (h : BehindEnd cursor rest) : Ahead cursor rest := by
  rcases h with ⟨-, rfl⟩ | ⟨after, hafter, rfl⟩
  · exact ahead_skipSpaces cursor
  · refine (ahead_found hafter ?_).trans (ahead_skipSpaces after)
    rintro spelling rfl
    decide

theorem ComparisonAt.ahead {comparison : TableComparison} (h : ComparisonAt comparison cursor rest) :
    Ahead cursor rest := by
  refine ahead_found h.1 ?_
  rintro spelling rfl
  cases comparison <;> decide

/-- A quote is ASCII, so there is a boundary behind a whole string. -/
private theorem ahead_string {string : List UInt8}
    (h : (SqlToken.string string).FoundAt cursor rest) : Ahead cursor rest := by
  obtain ⟨gap, spelling, hgap, hspells, rfl, -⟩ := h
  obtain rfl : spelling = 39 :: (string ++ [39]) := hspells
  refine (ahead_blank hgap _).trans ⟨List.suffix_append _ _, fun h => ?_⟩
  have hquoted : IsUtf8 ((39 :: string) ++ 39 :: rest) := by simpa using h
  rw [isUtf8_append_iff (startsChar_ascii (by decide))] at hquoted
  exact (isUtf8_ascii_cons_iff (by decide)).mp hquoted.2

/-- A part that was read is left at a boundary. -/
theorem SqlPart.Reads.ahead (h : part.Reads cursor rest) (hpart : part.Ascii) : Ahead cursor rest := by
  cases part with
  | keyword word => exact ahead_word hpart h
  | symbol c =>
    obtain ⟨gap, hgap, rfl⟩ := h
    exact (ahead_blank hgap _).trans (ahead_ascii (List.forall_mem_singleton.mpr hpart) rest)
  | star =>
    obtain ⟨gap, hgap, rfl⟩ := h
    exact (ahead_blank hgap _).trans (ahead_ascii (List.forall_mem_singleton.mpr (by decide)) rest)
  | table => exact ahead_word (by decide) h
  | string =>
    obtain ⟨string, -, hstring⟩ := h
    exact ahead_string hstring
  | int =>
    obtain ⟨n, hn, -⟩ := h
    exact ahead_found hn fun spelling hspells => isDecimal_ascii hspells
  | ending => exact h.1.ahead

theorem SqlPart.StopsAt.ahead (h : part.StopsAt cursor kind stop) : StopsAhead cursor kind stop := by
  have hspaces : StopsAhead cursor kind (skipSpaces cursor) := (ahead_skipSpaces cursor).token
  cases h with
  | keyword _ => exact hspaces
  | symbol _ => exact hspaces
  | star _ _ => exact hspaces
  | starColumn _ _ _ => exact hspaces
  | starLong hname _ => exact hname.ahead.token
  | table _ => exact hspaces
  | tableLong hname _ => exact hname.ahead.token
  | string _ => exact hspaces
  | @stringOpen gap text _ hgap _ _ _ hpeek =>
    have hsuffix : stop <:+ gap ++ 39 :: (text ++ stop) := ⟨gap ++ 39 :: text, by simp⟩
    -- the text ends here, where no character goes on
    refine ⟨hsuffix, fun _ hcursor => hcursor.suffix hsuffix ?_⟩
    cases stop with
    | nil => trivial
    | cons c stop =>
      obtain rfl : c = 0 := hpeek
      exact startsChar_ascii (by decide)
  | @stringLong gap text _ hgap _ _ _ _ _ => exact ⟨⟨gap ++ 39 :: text, by simp⟩, nofun⟩
  | int _ => exact hspaces
  | ending hbehind _ => exact hbehind.ahead.token

theorem SqlReadsIn.ahead (h : SqlReadsIn parts cursor rest) (hparts : ∀ part ∈ parts, part.Ascii) :
    Ahead cursor rest := by
  induction parts generalizing cursor with
  | nil =>
    obtain rfl : cursor = rest := h
    exact .refl cursor
  | cons part parts ih =>
    obtain ⟨next, hfirst, hrest⟩ := h
    obtain ⟨hpart, hparts⟩ := List.forall_mem_cons.mp hparts
    exact (hfirst.ahead hpart).trans (ih hrest hparts)

theorem SqlStopsIn.ahead (h : SqlStopsIn parts cursor kind stop)
    (hparts : ∀ part ∈ parts, part.Ascii) : StopsAhead cursor kind stop := by
  induction parts generalizing cursor with
  | nil => cases h
  | cons part parts ih =>
    obtain ⟨hpart, hparts⟩ := List.forall_mem_cons.mp hparts
    rcases h with hstop | ⟨next, hfirst, hstop⟩
    · exact hstop.ahead
    · exact (hfirst.ahead hpart).stops (ih hstop hparts)

theorem SqlWhereStops.ahead (h : SqlWhereStops cursor kind stop) : StopsAhead cursor kind stop := by
  cases h with
  | column _ => exact (ahead_skipSpaces cursor).token
  | columnLong hcolumn _ => exact hcolumn.ahead.token
  | comparison hcolumn _ _ => exact (hcolumn.ahead.trans (ahead_skipSpaces _)).token
  | number hcolumn _ hcomparison hstop =>
    exact (hcolumn.ahead.trans hcomparison.ahead).stops (hstop.ahead (by simp [SqlPart.Ascii]))
  | name hcolumn _ hcomparison hstop =>
    exact (hcolumn.ahead.trans hcomparison.ahead).stops (hstop.ahead (by simp [SqlPart.Ascii]))
  | nameComparison hcolumn _ _ _ => exact hcolumn.ahead.token

theorem SqlConditionStops.ahead (h : SqlConditionStops cursor kind stop) :
    StopsAhead cursor kind stop := by
  cases h with
  | noWhere hbehind _ _ => exact hbehind.ahead.token
  | condition hbehind hwhere hstop =>
    exact (hbehind.ahead.trans (ahead_word (by decide) hwhere)).stops hstop.ahead

theorem SqlStopsAt.ahead (h : SqlStopsAt text kind stop) : StopsAhead text kind stop := by
  have hinsert : ∀ part ∈ sqlInsertParts, part.Ascii := by decide
  have htable : ∀ part ∈ sqlTableParts, part.Ascii := by decide
  cases h with
  | exit hword hfound hstop =>
    rcases hword with rfl | rfl
    · exact (ahead_word (by decide) hfound).stops hstop.ahead
    · exact (ahead_word (by decide) hfound).stops hstop.ahead
  | insert hstart hstop => exact (ahead_word (by decide) hstart.found).stops (hstop.ahead hinsert)
  | selectTable hstart hstop =>
    exact (ahead_word (by decide) hstart.found).stops (hstop.ahead htable)
  | selectCondition hstart hreads hstop =>
    exact ((ahead_word (by decide) hstart.found).trans (hreads.ahead htable)).stops hstop.ahead
  | noStatement _ _ => exact (ahead_skipSpaces text).token

/-- No character goes on where an excerpt would be cut: neither behind the 63 bytes of a string
that fit its buffer, when it is longer, nor behind the 63 bytes that are quoted of a line. -/
structure WholeChars (query : Cursor) : Prop where
  string : ∀ stop, SqlStopsAt query .string stop → StartsChar stop
  line : ∀ kind stop, SqlStopsAt query kind stop → StartsChar ((sqlNearLine stop).drop 63)

/-- Whitespace is skipped up to a character, if there was one to begin with. -/
theorem startsChar_skipSpaces_iff (h : StartsChar cursor → IsUtf8 cursor) :
    StartsChar (skipSpaces cursor) ↔ StartsChar cursor := by
  constructor
  · intro hskip
    cases cursor with
    | nil => trivial
    | cons c rest =>
      cases hspace : isSpace c with
      | true => exact startsChar_ascii (isSpace_ascii hspace)
      | false =>
        have hstays : skipSpaces (c :: rest) = c :: rest :=
          @skipSpaces_append [] (c :: rest) nofun hspace
        rwa [hstays] at hskip
  · intro hstart
    exact ((ahead_skipSpaces cursor).isUtf8 (h hstart)).startsChar

/-- In front of a token an excerpt starts with a character. -/
theorem wholeExcerpt_iff (htext : IsUtf8 text) (h : SqlStopsAt text kind stop) :
    WholeExcerpt stop ↔
      (kind = .string → StartsChar stop) ∧ StartsChar ((sqlNearLine stop).drop 63) := by
  have hstart := startsChar_skipSpaces_iff fun hstart => htext.suffix h.ahead.suffix hstart
  unfold WholeExcerpt
  rw [hstart]
  refine and_congr_left fun _ => ⟨fun hstart _ => hstart, fun hstring => ?_⟩
  cases kind with
  | token => exact (h.ahead.isUtf8 rfl htext).startsChar
  | string => exact hstring rfl

end Stops

/-! ## The message -/

section Message

variable {query cursor : Cursor} {result : SQLResult}

/-- The message of a syntax error is written to its end, with ASCII around the excerpt. -/
theorem errorMessage_spec (cursor : Cursor) :
    ∃ head tail, (∀ c ∈ head, c < 128) ∧ (∀ c ∈ tail, c < 128) ∧
      cstr (sqlSetSyntaxError sqlNoResult cursor).errorMessage =
        head ++ sqlBuildNearExcerpt 64 cursor ++ tail := by
  have hlength := length_sqlBuildNearExcerpt cursor
  have hzero := zero_notMem_sqlBuildNearExcerpt cursor
  unfold sqlSetSyntaxError
  dsimp only
  generalize sqlBuildNearExcerpt 64 cursor = excerpt at hlength hzero ⊢
  obtain ⟨head, hhead⟩ : ∃ head, head = bytes "ERROR 1064 (42000): You have an error in your SQL syntax; check the manual that corresponds to your sql processor2 version for the right syntax to use near '" :=
    ⟨_, rfl⟩
  obtain ⟨tail, htail⟩ : ∃ tail, tail = bytes "' at line 1" := ⟨_, rfl⟩
  rw [← hhead, ← htail]
  have hheadFacts : (∀ c ∈ head, c < 128) ∧ head.length ≤ 160 ∧ 0 ∉ head := by
    rw [hhead]
    decide +kernel
  have htailFacts : (∀ c ∈ tail, c < 128) ∧ tail.length ≤ 20 ∧ 0 ∉ tail := by
    rw [htail]
    decide
  -- 160 and 63 and 20 bytes fit into the 256 of the message, so nothing is cut
  have hwhole : snprintf sqlErrorMessageSize (head ++ excerpt ++ tail) = head ++ excerpt ++ tail := by
    refine List.take_of_length_le ?_
    show (head ++ excerpt ++ tail).length ≤ 255
    simp only [List.length_append]
    omega
  refine ⟨head, tail, hheadFacts.1, htailFacts.1, ?_⟩
  rw [hwhole, cstr_eq_self]
  simp only [List.mem_append, not_or]
  exact ⟨⟨hheadFacts.2.2, hzero⟩, htailFacts.2.2⟩

theorem isUtf8_errorMessage_excerpt (cursor : Cursor) :
    IsUtf8 (cstr (sqlSetSyntaxError sqlNoResult cursor).errorMessage) ↔
      IsUtf8 (sqlBuildNearExcerpt 64 cursor) := by
  obtain ⟨head, tail, hhead, htail, hmessage⟩ := errorMessage_spec cursor
  rw [hmessage, isUtf8_append_ascii_iff htail, (isUtf8_ascii hhead).append_iff]

/-- An unknown column is quoted whole. -/
theorem isUtf8_unknownColumn {column : List UInt8} {clauseName : String}
    (hcolumn : ∀ c ∈ column, isIdent c = true)
    (hclause : clauseName = "field list" ∨ clauseName = "where clause") :
    IsUtf8 (cstr (sqlSetUnknownColumnError sqlNoResult column (bytes clauseName)).errorMessage) := by
  have hfixed : (∀ c ∈ bytes "ERROR 1054 (42S22): Unknown column '", c < 128) ∧
      (∀ c ∈ bytes "' in '", c < 128) ∧ ∀ c ∈ bytes "'", c < 128 := by decide
  have hclauseName : ∀ c ∈ bytes clauseName, c < 128 := by
    rcases hclause with rfl | rfl <;> decide
  have htext : ∀ c ∈ bytes "ERROR 1054 (42S22): Unknown column '" ++ column ++ bytes "' in '" ++
      bytes clauseName ++ bytes "'", c < 128 := by
    simp only [List.forall_mem_append]
    exact ⟨⟨⟨⟨hfixed.1, fun c hc => isIdent_ascii (hcolumn c hc)⟩, hfixed.2.1⟩, hclauseName⟩,
      hfixed.2.2⟩
  refine isUtf8_ascii fun c hc => htext c ?_
  exact List.mem_of_mem_take ((List.takeWhile_prefix _).subset hc)

/-- The name of a wrong table or column is quoted instead of the text. -/
theorem SqlNameError.isUtf8 (h : SqlNameError result) : IsUtf8 (cstr result.errorMessage) := by
  cases h with
  | @table name hname =>
    have hend : ∀ c ∈ bytes "end of input", c < 128 := by decide
    have hascii : ∀ c ∈ sqlBuildNearExcerpt 64 name, c < 128 := by
      intro c hc
      rcases sqlBuildNearExcerpt_subset name c hc with hmem | hmem
      · exact hend c hmem
      · have hskipped := (List.takeWhile_prefix _).subset hmem
        exact isIdent_ascii (hname c ((skipSpaces_suffix name).subset hskipped))
    rw [isUtf8_errorMessage_excerpt]
    exact isUtf8_ascii hascii
  | column hcolumn hclause => exact isUtf8_unknownColumn hcolumn hclause

/-- The message of a text without a statement, for every valid text. -/
theorem isUtf8_errorMessage_iff (hquery : IsUtf8 query) (hparse : sqlParse query = .error result) :
    IsUtf8 (cstr result.errorMessage) ↔ WholeChars query := by
  have hexcerpt {kind : SqlStop} {stop : Cursor} (h : SqlStopsAt query kind stop) :
      IsUtf8 (cstr result.errorMessage) ↔ WholeExcerpt stop := by
    -- the message is that of this place
    obtain rfl := Except.error.inj (hparse.symm.trans (sqlParse_of_stopsAt h))
    rw [isUtf8_errorMessage_excerpt, isUtf8_sqlBuildNearExcerpt_iff hquery h.ahead.suffix]
  constructor
  · intro h
    have hwhole {kind : SqlStop} {stop : Cursor} (hstop : SqlStopsAt query kind stop) :=
      (wholeExcerpt_iff hquery hstop).mp ((hexcerpt hstop).mp h)
    exact ⟨fun stop hstop => (hwhole hstop).1 rfl, fun kind stop hstop => (hwhole hstop).2⟩
  · intro h
    rcases sqlParse_error_cases hparse with rfl | hname | ⟨kind, stop, hstop, rfl⟩
    · exact isUtf8_nil
    · exact hname.isUtf8
    · refine (hexcerpt hstop).mpr ((wholeExcerpt_iff hquery hstop).mpr ⟨?_, h.line kind stop hstop⟩)
      rintro rfl
      exact h.string stop hstop

/-- The parser gives up nowhere in a text with a statement. -/
theorem wholeChars_of_parse {statement : SqlStatement} (h : sqlParse query = .ok statement) :
    WholeChars query := by
  have hno {kind : SqlStop} {stop : Cursor} : ¬ SqlStopsAt query kind stop := fun hstop => by
    rw [sqlParse_of_stopsAt hstop] at h
    cases h
  exact ⟨fun stop hstop => absurd hstop hno, fun kind stop hstop => absurd hstop hno⟩

end Message

/-- The name of an INSERT in a valid text is valid: it stands there between quotes. -/
theorem QuotedIn.isUtf8 {text : Cursor} {name : List UInt8} (h : QuotedIn text name)
    (htext : IsUtf8 text) : IsUtf8 name := by
  obtain ⟨front, behind, rfl⟩ := h.occurs
  have hname : IsUtf8 (39 :: (name ++ 39 :: behind)) :=
    htext.suffix (List.suffix_append _ _) (startsChar_ascii (by decide))
  rw [isUtf8_ascii_cons_iff (by decide), isUtf8_append_iff (startsChar_ascii (by decide))] at hname
  exact hname.1

end SqlApi.Core

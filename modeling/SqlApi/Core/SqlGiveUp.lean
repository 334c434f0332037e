import SqlApi.Core.SqlAccepted
import SqlApi.Core.SqlSpec
import SqlApi.Core.SqlStops

/-!
# The parsers stop there

A statement parser is followed part by part: it succeeds where the text has the part and gives up
where the text has not, and both are preserved when one parser comes behind another. So the
parsers of whole statements give up exactly where the text says, or over the name of a table or
of a column.

`SqlParser.Follows` is the relation between a parser and a list of parts, and the proof is one lemma
for each scanner, one for two parsers in a row, and one for a choice. `SqlNameError` are the errors
that do not depend on where the parser stops.
-/

namespace SqlApi.Core

open SqlApi.Lib

/-! ## The parsers follow the parts -/

/-- The errors that quote the name of a table or of a column. -/
inductive SqlNameError : SQLResult → Prop
  | table {name : List UInt8} : (∀ c ∈ name, isIdent c = true) →
      SqlNameError (sqlSetSyntaxError sqlNoResult name)
  | column {name : List UInt8} {clauseName : String} : (∀ c ∈ name, isIdent c = true) →
      clauseName = "field list" ∨ clauseName = "where clause" →
      SqlNameError (sqlSetUnknownColumnError sqlNoResult name (bytes clauseName))

/-- The parser gives up where the text stops so, and otherwise only over a name. -/
structure SqlParser.GivesUp {α : Type} (p : SqlParser α)
    (stops : Cursor → SqlStop → Cursor → Prop) : Prop where
  error : ∀ {cursor result}, p cursor = .error result → SqlNameError result ∨
    ∃ kind stop, stops cursor kind stop ∧ result = sqlSetSyntaxError sqlNoResult stop
  giveUp : ∀ {cursor kind stop}, stops cursor kind stop →
    p cursor = .error (sqlSetSyntaxError sqlNoResult stop)

/-- It also succeeds where the text reads so. -/
structure SqlParser.Follows {α : Type} (p : SqlParser α) (reads : Cursor → Cursor → Prop)
    (stops : Cursor → SqlStop → Cursor → Prop) : Prop extends p.GivesUp stops where
  read : ∀ {cursor a rest}, p cursor = .ok (a, rest) → reads cursor rest
  succeed : ∀ {cursor rest}, reads cursor rest → ∃ a, p cursor = .ok (a, rest)

section Follows

variable {α β : Type} {reads reads' : Cursor → Cursor → Prop}
  {stops stops' : Cursor → SqlStop → Cursor → Prop} {part : SqlPart} {parts : List SqlPart}

/-- One parser after the other: the second stops behind what the first has read. -/
theorem SqlParser.Follows.bind_givesUp {p : SqlParser α} {f : α → SqlParser β}
    (hp : p.Follows reads stops) (hf : ∀ a, (f a).GivesUp stops') :
    SqlParser.GivesUp (p >>= f) (fun cursor kind stop => stops cursor kind stop ∨
      ∃ next, reads cursor next ∧ stops' next kind stop) := by
  have hbind : ∀ cursor, (p >>= f) cursor = (p cursor).bind fun r => f r.1 r.2 := fun _ => rfl
  refine ⟨?_, ?_⟩
  · intro cursor result h
    rw [hbind] at h
    cases hrun : p cursor with
    | error first =>
      rw [hrun] at h
      obtain rfl : first = result := Except.error.inj h
      exact (hp.error hrun).imp_right fun ⟨kind, stop, hstop, heq⟩ => ⟨kind, stop, .inl hstop, heq⟩
    | ok r =>
      rw [hrun] at h
      refine ((hf r.1).error h).imp_right fun ⟨kind, stop, hstop, heq⟩ => ?_
      exact ⟨kind, stop, .inr ⟨r.2, hp.read hrun, hstop⟩, heq⟩
  · rintro cursor kind stop (hstop | ⟨next, hfirst, hstop⟩)
    · rw [hbind, hp.giveUp hstop]
      rfl
    · obtain ⟨a, hrun⟩ := hp.succeed hfirst
      exact (SqlParser.bind_of hrun f).trans ((hf a).giveUp hstop)

theorem SqlParser.Follows.bind {p : SqlParser α} {f : α → SqlParser β} (hp : p.Follows reads stops)
    (hf : ∀ a, (f a).Follows reads' stops') :
    SqlParser.Follows (p >>= f) (fun cursor rest => ∃ next, reads cursor next ∧ reads' next rest)
      (fun cursor kind stop => stops cursor kind stop ∨
        ∃ next, reads cursor next ∧ stops' next kind stop) := by
  refine ⟨hp.bind_givesUp fun a => (hf a).toGivesUp, ?_, ?_⟩
  · intro cursor b rest h
    obtain ⟨a, next, hfirst, hsecond⟩ := SqlParser.bind_eq_ok h
    exact ⟨next, hp.read hfirst, (hf a).read hsecond⟩
  · rintro cursor rest ⟨next, hfirst, hsecond⟩
    obtain ⟨a, hrun⟩ := hp.succeed hfirst
    obtain ⟨b, hrun'⟩ := (hf a).succeed hsecond
    exact ⟨b, (SqlParser.bind_of hrun f).trans hrun'⟩

theorem SqlParser.follows_pure (a : α) :
    SqlParser.Follows (pure a) (SqlReadsIn []) (SqlStopsIn []) := by
  refine ⟨⟨?_, ?_⟩, ?_, ?_⟩
  · intro cursor result h
    cases h
  · intro cursor kind stop h
    cases h
  · intro cursor b rest h
    exact (SqlParser.pure_eq_ok h).2
  · rintro cursor rest rfl
    exact ⟨a, rfl⟩

/-- A part, and the parts behind it. -/
theorem SqlParser.Follows.cons {p : SqlParser α} {f : α → SqlParser β}
    (hp : p.Follows part.Reads part.StopsAt)
    (hf : ∀ a, (f a).Follows (SqlReadsIn parts) (SqlStopsIn parts)) :
    SqlParser.Follows (p >>= f) (SqlReadsIn (part :: parts)) (SqlStopsIn (part :: parts)) :=
  hp.bind hf

/-- A scanner that finds what the text has, and stops where the text does. -/
theorem follows_expect {scanner : Scanner α}
    (hreads : ∀ cursor rest, reads cursor rest ↔ ∃ a, scanner cursor = (some a, rest))
    (hstops : ∀ cursor stop, (∃ kind, stops cursor kind stop) ↔ scanner cursor = (none, stop)) :
    (expect scanner).Follows reads stops := by
  refine ⟨⟨?_, ?_⟩, ?_, ?_⟩
  · intro cursor result h
    unfold expect at h
    split at h
    next => cases h
    next stop hscan =>
      obtain ⟨kind, hstop⟩ := (hstops cursor stop).mpr hscan
      exact .inr ⟨kind, stop, hstop, (Except.error.inj h).symm⟩
  · intro cursor kind stop h
    rw [expect, (hstops cursor stop).mp ⟨kind, h⟩]
  · intro cursor a rest h
    exact (hreads cursor rest).mpr ⟨a, expect_eq_ok h⟩
  · intro cursor rest h
    obtain ⟨a, hscan⟩ := (hreads cursor rest).mp h
    exact ⟨a, expect_of hscan⟩

theorem follows_char {c : Char} (hc : byte c ≠ 0) (hspace : isSpace (byte c) = false) :
    (expect (sqlMatchChar c)).Follows (SqlPart.symbol c).Reads (SqlPart.symbol c).StopsAt := by
  refine follows_expect (fun cursor rest => ?_) fun cursor stop => ?_
  · rw [show (SqlPart.symbol c).Reads cursor rest ↔ _ from char_reads_iff hc hspace]
    exact ⟨fun h => ⟨(), h⟩, fun ⟨_, h⟩ => h⟩
  · rw [← char_stops_iff]
    constructor
    · rintro ⟨kind, hstop⟩
      cases hstop with
      | symbol hpeek => exact ⟨hpeek, rfl⟩
    · rintro ⟨hpeek, rfl⟩
      exact ⟨.token, .symbol hpeek⟩

/-- A keyword behind whitespace. -/
theorem follows_keyword {word : String} (hword : IsWord word) :
    SqlParser.Follows (do skip; expect (sqlMatchKeyword word)) (SqlPart.keyword word).Reads
      (SqlPart.keyword word).StopsAt := by
  have hscan : (do skip; expect (sqlMatchKeyword word)) =
      expect fun cursor => sqlMatchKeyword word (sqlSkipSpaces cursor) := rfl
  rw [hscan]
  refine follows_expect (fun cursor rest => ?_) fun cursor stop => ?_
  · rw [show (SqlPart.keyword word).Reads cursor rest ↔ _ from keyword_found_iff hword]
    exact ⟨fun h => ⟨(), h⟩, fun ⟨_, h⟩ => h⟩
  · constructor
    · rintro ⟨kind, hstop⟩
      cases hstop with
      | keyword hnone => exact (keyword_notFound_iff hword).mp hnone
    · intro h
      obtain rfl := sqlMatchKeyword_stays h
      exact ⟨.token, .keyword ((keyword_notFound_iff hword).mpr h)⟩

theorem SqlParser.Follows.skip_keyword {word : String} (hword : IsWord word)
    {f : Unit → SqlParser β} (hf : ∀ a, (f a).Follows (SqlReadsIn parts) (SqlStopsIn parts)) :
    SqlParser.Follows (do skip; let a ← expect (sqlMatchKeyword word); f a)
      (SqlReadsIn (.keyword word :: parts)) (SqlStopsIn (.keyword word :: parts)) := by
  have hassoc : (do skip; let a ← expect (sqlMatchKeyword word); f a) =
      (do skip; expect (sqlMatchKeyword word)) >>= f := by rw [bind_assoc]
  rw [hassoc]
  exact .cons (follows_keyword hword) hf

theorem follows_string :
    (expect (sqlParseString recordNameSize)).Follows SqlPart.string.Reads
      SqlPart.string.StopsAt := by
  refine follows_expect (fun cursor rest => ?_) fun cursor stop => string_stops_iff
  exact exists_congr fun text => string_reads_iff

theorem follows_int :
    (expect sqlParseInt).Follows SqlPart.int.Reads SqlPart.int.StopsAt :=
  follows_expect (fun _ _ => int_reads_iff) fun _ _ => int_stops_iff

theorem follows_ending :
    (expect sqlMatchStatementEnd).Follows SqlPart.ending.Reads SqlPart.ending.StopsAt := by
  refine follows_expect (fun cursor rest => ?_) fun cursor stop => ?_
  · constructor
    · rintro ⟨hbehind, hpeek⟩
      exact ⟨(), by rw [hbehind.matchEnd, if_pos hpeek]⟩
    · rintro ⟨_, h⟩
      obtain ⟨rest', hbehind⟩ := exists_behindEnd cursor
      rw [hbehind.matchEnd] at h
      obtain ⟨hfound, rfl⟩ := Prod.mk.inj h
      refine ⟨hbehind, ?_⟩
      by_contra hpeek
      rw [if_neg hpeek] at hfound
      cases hfound
  · constructor
    · rintro ⟨kind, hstop⟩
      cases hstop with
      | ending hbehind hpeek => rw [hbehind.matchEnd, if_neg hpeek]
    · intro h
      obtain ⟨rest', hbehind⟩ := exists_behindEnd cursor
      rw [hbehind.matchEnd] at h
      obtain ⟨hfound, rfl⟩ := Prod.mk.inj h
      refine ⟨.token, .ending hbehind fun hpeek => ?_⟩
      rw [if_pos hpeek] at hfound
      cases hfound

/-! ### Names -/

section Names

variable {cursor rest : Cursor} {name : List UInt8}

/-- An identifier that compares like a word is a spelling of it. -/
theorem sameWord_iff {word : String} (hword : 0 ∉ bytes word)
    (hname : ∀ c ∈ name, isIdent c = true) :
    strcasecmpEq name (bytes word) = true ↔ SameWord (bytes word) name := by
  have hzero : 0 ∉ name := fun hmem => absurd (hname 0 hmem) (by decide)
  unfold strcasecmpEq
  rw [cstr_eq_self hzero, cstr_eq_self hword]
  exact beq_iff_eq

theorem IdentAt.ident (h : IdentAt name cursor rest) : ∀ c ∈ name, isIdent c = true := by
  obtain ⟨gap, -, -, hname, -⟩ := h
  exact hname

/-- A word that stands in the text is an identifier. -/
theorem identAt_of_found {word : String} (hword : IsWord word)
    (h : (SqlToken.word word).FoundAt cursor rest) :
    ∃ name, IdentAt name cursor rest ∧ SameWord (bytes word) name := by
  obtain ⟨gap, name, hgap, hsame, rfl, hend⟩ := h
  have hspells : SameWord (bytes word) name := hsame
  have halpha := hspells.isAlpha hword.2
  obtain ⟨c, cs, rfl⟩ := List.exists_cons_of_ne_nil (hword.ne_nil hspells)
  refine ⟨c :: cs, ⟨gap, hgap, .inl (halpha c (List.mem_cons_self ..)), fun d hd => ?_,
    hend word rfl, rfl⟩, hspells⟩
  exact isIdent_of_isAlpha (halpha d hd)

/-- The text does not end in front of a word. -/
theorem peek_ne_zero_of_found {word : String} (hword : IsWord word)
    (h : (SqlToken.word word).FoundAt cursor rest) : peek (skipSpaces cursor) ≠ 0 := fun hpeek => by
  obtain ⟨name, hname, -⟩ := identAt_of_found hword h
  have hstart := hname.split.1
  rw [hpeek] at hstart
  exact absurd hstart (by decide)

end Names

/-- An error ends a parser. -/
theorem SqlParser.bind_error {p : SqlParser α} {cursor : Cursor} {result : SQLResult}
    (h : p cursor = .error result) (f : α → SqlParser β) : (p >>= f) cursor = .error result := by
  have hbind : (p >>= f) cursor = (p cursor).bind fun r => f r.1 r.2 := rfl
  rw [hbind, h]
  rfl

theorem NoIdentAt.bind {cursor : Cursor} (h : NoIdentAt cursor) (f : List UInt8 → SqlParser β) :
    (expect (sqlParseIdentifier 32) >>= f) cursor =
      .error (sqlSetSyntaxError sqlNoResult (skipSpaces cursor)) := by
  rcases identAt_cases cursor with ⟨-, hscan⟩ | ⟨name, rest, hname, -⟩
  · exact SqlParser.bind_error (by rw [expect, hscan]) f
  · exact absurd hname (h name rest)

/-- A name is read, or it is too long. -/
theorem IdentAt.bind {cursor rest : Cursor} {name : List UInt8} (h : IdentAt name cursor rest)
    (f : List UInt8 → SqlParser β) :
    (expect (sqlParseIdentifier 32) >>= f) cursor =
      if 32 ≤ name.length then .error (sqlSetSyntaxError sqlNoResult rest) else f name rest := by
  have hscan := h.parse
  split
  case isTrue hlong =>
    rw [if_pos hlong] at hscan
    exact SqlParser.bind_error (by rw [expect, hscan]) f
  case isFalse hshort =>
    rw [if_neg hshort] at hscan
    exact SqlParser.bind_of (expect_of hscan) f

theorem noIdentAt_or (cursor : Cursor) :
    NoIdentAt cursor ∨ ∃ name rest, IdentAt name cursor rest := by
  rcases identAt_cases cursor with ⟨hno, -⟩ | ⟨name, rest, hname, -⟩
  · exact .inl hno
  · exact .inr ⟨name, rest, hname⟩

/-- `users` is read, another name is an error about it. -/
theorem follows_table : sqlExpectUsers.Follows SqlPart.table.Reads SqlPart.table.StopsAt := by
  unfold sqlExpectUsers
  refine ⟨⟨?_, ?_⟩, fun h => found_users h, ?_⟩
  · intro cursor result h
    rcases noIdentAt_or cursor with hno | ⟨name, rest, hname⟩
    · rw [hno.bind] at h
      exact .inr ⟨.token, _, .table hno, (Except.error.inj h).symm⟩
    · rw [hname.bind] at h
      split at h
      case isTrue hlong =>
        exact .inr ⟨.token, rest, .tableLong hname hlong, (Except.error.inj h).symm⟩
      case isFalse =>
        split at h
        · cases h
        · obtain rfl := Except.error.inj h
          exact .inl (.table hname.ident)
  · intro cursor kind stop h
    cases h with
    | table hno => exact hno.bind _
    | tableLong hname hlong => rw [hname.bind, if_pos hlong]
  · intro cursor rest h
    obtain ⟨name, hname, hsame⟩ := identAt_of_found (by decide) h
    have hlength : name.length = 5 := hsame.length_eq
    refine ⟨(), ?_⟩
    rw [hname.bind, if_neg (by omega), if_pos ((sameWord_iff (by decide) hname.ident).mpr hsame)]
    rfl

section Star

variable {cursor rest : Cursor} {name : List UInt8}

private theorem star_reads_iff :
    SqlPart.star.Reads cursor rest ↔ sqlMatchChar '*' cursor = (some (), rest) :=
  char_reads_iff (by decide) (by decide)

private theorem sqlMatchChar_noStar (h : peek (skipSpaces cursor) ≠ byte '*') :
    sqlMatchChar '*' (sqlSkipSpaces cursor) = (none, skipSpaces cursor) := by
  rw [sqlMatchChar_skipSpaces]
  exact char_stops_iff.mp ⟨h, rfl⟩

/-- A name is no star. -/
private theorem IdentAt.peek_ne_star (h : IdentAt name cursor rest) :
    peek (skipSpaces cursor) ≠ byte '*' := fun hstar => by
  have hfirst := h.split.1
  rw [hstar] at hfirst
  exact absurd hfirst (by decide)

/-- A column in the place of the star is an error in any case. -/
private theorem IdentAt.sqlSelectList_eq (h : IdentAt name cursor rest) :
    sqlSelectList (sqlSkipSpaces cursor) =
      if 32 ≤ name.length then .error (sqlSetSyntaxError sqlNoResult rest)
      else if sqlIsKnownColumn name then
        .error (sqlSetSyntaxError sqlNoResult (skipSpaces cursor))
      else .error (sqlSetUnknownColumnError sqlNoResult name (bytes "field list")) := by
  rw [sqlSelectList, sqlMatchChar_noStar h.peek_ne_star]
  dsimp only
  rw [sqlParseIdentifier_skipSpaces, h.parse]
  by_cases hlong : 32 ≤ name.length
  · rw [if_pos hlong, if_pos hlong]
  · rw [if_neg hlong, if_neg hlong]
    rfl

private theorem NoIdentAt.sqlSelectList_eq (h : NoIdentAt cursor)
    (hstar : peek (skipSpaces cursor) ≠ byte '*') :
    sqlSelectList (sqlSkipSpaces cursor) =
      .error (sqlSetSyntaxError sqlNoResult (skipSpaces cursor)) := by
  rcases identAt_cases cursor with ⟨-, hscan⟩ | ⟨name, rest, hname, -⟩
  · rw [sqlSelectList, sqlMatchChar_noStar hstar]
    dsimp only
    rw [sqlParseIdentifier_skipSpaces, hscan]
  · exact absurd hname (h name rest)

/-- What an error of `sqlSelectList` is about. -/
private theorem sqlSelectList_error {result : SQLResult}
    (h : sqlSelectList (sqlSkipSpaces cursor) = .error result) :
    SqlNameError result ∨ ∃ kind stop, SqlPart.star.StopsAt cursor kind stop ∧
      result = sqlSetSyntaxError sqlNoResult stop := by
  by_cases hstar : peek (skipSpaces cursor) = byte '*'
  · -- there is a star, so there is no error
    obtain ⟨gap, hgap, hcursor⟩ := skipSpaces_spec cursor
    have hreads : SqlPart.star.Reads cursor ((skipSpaces cursor).drop 1) :=
      ⟨gap, hgap, hcursor.trans (congrArg (gap ++ ·) (eq_cons_of_peek hstar (by decide)))⟩
    rw [sqlSelectList, sqlMatchChar_skipSpaces, star_reads_iff.mp hreads] at h
    cases h
  rcases noIdentAt_or cursor with hno | ⟨name, rest, hfound⟩
  · rw [hno.sqlSelectList_eq hstar] at h
    exact .inr ⟨.token, _, .star hstar hno, (Except.error.inj h).symm⟩
  rw [hfound.sqlSelectList_eq] at h
  split at h
  case isTrue hlong =>
    exact .inr ⟨.token, rest, .starLong hfound hlong, (Except.error.inj h).symm⟩
  case isFalse hshort =>
    split at h
    case isTrue hknown =>
      exact .inr ⟨.token, _, .starColumn hfound (not_le.mp hshort) hknown,
        (Except.error.inj h).symm⟩
    case isFalse =>
      obtain rfl := Except.error.inj h
      exact .inl (.column hfound.ident (.inl rfl))

/-- The star; a column in its place is an error at it, or over its name. -/
theorem follows_star :
    SqlParser.Follows (do skip; sqlSelectList) SqlPart.star.Reads SqlPart.star.StopsAt := by
  have hrun (cursor : Cursor) :
      (do skip; sqlSelectList) cursor = sqlSelectList (sqlSkipSpaces cursor) := rfl
  refine ⟨⟨fun h => sqlSelectList_error ((hrun _).symm.trans h), ?_⟩, ?_, ?_⟩
  · intro cursor kind stop h
    rw [hrun]
    cases h with
    | star hpeek hno => exact hno.sqlSelectList_eq hpeek
    | starColumn hfound hshort hknown =>
      rw [hfound.sqlSelectList_eq, if_neg (not_le.mpr hshort), if_pos hknown]
    | starLong hfound hlong => rw [hfound.sqlSelectList_eq, if_pos hlong]
  · intro cursor a rest h
    rw [hrun] at h
    unfold sqlSelectList at h
    split at h
    next hmatch =>
      obtain ⟨-, rfl⟩ := Prod.mk.inj (Except.ok.inj h)
      rw [sqlMatchChar_skipSpaces] at hmatch
      exact star_reads_iff.mpr hmatch
    next =>
      -- without a star there is an error
      split at h
      · cases h
      · split at h <;> cases h
  · intro cursor rest h
    refine ⟨(), ?_⟩
    rw [hrun, sqlSelectList, sqlMatchChar_skipSpaces, star_reads_iff.mp h]

end Star

/-- An INSERT is read along its parts. -/
theorem follows_insert :
    sqlInsertValues.Follows (SqlReadsIn sqlInsertParts) (SqlStopsIn sqlInsertParts) := by
  unfold sqlInsertValues sqlInsertParts
  refine .skip_keyword (by decide) fun _ => .cons follows_table fun _ => ?_
  refine .skip_keyword (by decide) fun _ => .cons (follows_char (by decide) (by decide)) fun _ => ?_
  refine .cons follows_string fun name => .cons (follows_char (by decide) (by decide)) fun _ => ?_
  refine .cons follows_int fun age => .cons (follows_char (by decide) (by decide)) fun _ => ?_
  exact .cons follows_ending fun _ => SqlParser.follows_pure _

/-- So is a SELECT up to its table. -/
theorem follows_selectTable :
    sqlSelectTable.Follows (SqlReadsIn sqlTableParts) (SqlStopsIn sqlTableParts) := by
  have hassoc : sqlSelectTable = (do
      (do skip; sqlSelectList)
      skip
      expect (sqlMatchKeyword "FROM")
      sqlExpectUsers >>= pure) := by
    unfold sqlSelectTable
    rw [bind_pure, bind_assoc]
  unfold sqlTableParts
  rw [hassoc]
  refine .cons follows_star fun _ => .skip_keyword (by decide) fun _ => ?_
  exact .cons follows_table fun _ => SqlParser.follows_pure _

/-- A value and the end of the statement. -/
theorem follows_value {γ : Type} {scanner : Scanner γ}
    (hscanner : (expect scanner).Follows part.Reads part.StopsAt) (f : γ → SqlSelect) :
    SqlParser.Follows (do
      let value ← expect scanner
      expect sqlMatchStatementEnd
      pure (f value)) (SqlReadsIn [part, .ending]) (SqlStopsIn [part, .ending]) :=
  .cons hscanner fun _ => .cons follows_ending fun _ => SqlParser.follows_pure _

/-! ### Conditions -/

/-- What `sqlWhere` does behind the column and the comparison. -/
def sqlWhereValue (column : List UInt8) (comparison : TableComparison) (comparisonCursor : Cursor) :
    SqlParser SqlSelect :=
  if strcasecmpEq column (bytes "id") then do
    let value ← expect sqlParseInt
    expect sqlMatchStatementEnd
    pure (.byId comparison value)
  else if strcasecmpEq column (bytes "name") then
    if comparison = .eq then do
      let value ← expect (sqlParseString recordNameSize)
      expect sqlMatchStatementEnd
      pure (.byName value)
    else throw (sqlSetSyntaxError sqlNoResult comparisonCursor)
  else if strcasecmpEq column (bytes "age") then do
    let value ← expect sqlParseInt
    expect sqlMatchStatementEnd
    pure (.byAge comparison value)
  else throw (sqlSetUnknownColumnError sqlNoResult column (bytes "where clause"))

section Conditions

variable {cursor rest after stop : Cursor} {kind : SqlStop} {column : List UInt8}
  {comparison : TableComparison} {result : SQLResult}

/-- Behind a column a comparison is expected, whatever the column. -/
theorem sqlWhere_of_column (hcolumn : IdentAt column cursor rest) :
    sqlWhere cursor =
      if 32 ≤ column.length then .error (sqlSetSyntaxError sqlNoResult rest)
      else (expect sqlParseComparison >>= fun comparison => sqlWhereValue column comparison rest)
        rest := by
  unfold sqlWhere
  rw [hcolumn.bind]
  rfl

theorem sqlWhere_of_comparison (hcolumn : IdentAt column cursor rest) (hshort : column.length < 32)
    (hcomparison : ComparisonAt comparison rest after) :
    sqlWhere cursor = sqlWhereValue column comparison rest after := by
  rw [sqlWhere_of_column hcolumn, if_neg (not_le.mpr hshort)]
  exact SqlParser.bind_of (expect_of (comparison_iff.mp hcomparison)) _

/-- The word that was compared with is not another one. -/
private theorem not_sameWord (word : String) (hcolumn : IdentAt column cursor rest)
    (hword : 0 ∉ bytes word) (hlength : column.length ≠ (bytes word).length) :
    ¬ strcasecmpEq column (bytes word) = true := fun h =>
  hlength ((sameWord_iff hword hcolumn.ident).mp h).length_eq

private theorem short_of_sameWord {word : String} (hword : (bytes word).length < 32)
    (h : SameWord (bytes word) column) : column.length < 32 := h.length_eq.symm ▸ hword

/-- The columns `id` and `age` are compared with a number. -/
theorem givesUp_number (hcolumn : IdentAt column cursor rest)
    (hnumber : SameWord (bytes "id") column ∨ SameWord (bytes "age") column) :
    (sqlWhereValue column comparison rest).GivesUp (SqlStopsIn [.int, .ending]) := by
  rcases hnumber with hid | hage
  · have hcompare := (sameWord_iff (by decide) hcolumn.ident).mpr hid
    unfold sqlWhereValue
    rw [if_pos hcompare]
    exact (follows_value follows_int (.byId comparison)).toGivesUp
  · have hlength : column.length = 3 := hage.length_eq
    have hid := not_sameWord "id" hcolumn (by decide) (by rw [hlength]; decide)
    have hname := not_sameWord "name" hcolumn (by decide) (by rw [hlength]; decide)
    have hcompare := (sameWord_iff (by decide) hcolumn.ident).mpr hage
    unfold sqlWhereValue
    rw [if_neg hid, if_neg hname, if_pos hcompare]
    exact (follows_value follows_int (.byAge comparison)).toGivesUp

theorem sqlWhereValue_name (hcolumn : IdentAt column cursor rest)
    (hname : SameWord (bytes "name") column) :
    sqlWhereValue column comparison rest =
      if comparison = .eq then do
        let value ← expect (sqlParseString recordNameSize)
        expect sqlMatchStatementEnd
        pure (.byName value)
      else throw (sqlSetSyntaxError sqlNoResult rest) := by
  have hlength : column.length = 4 := hname.length_eq
  have hid := not_sameWord "id" hcolumn (by decide) (by rw [hlength]; decide)
  have hcompare := (sameWord_iff (by decide) hcolumn.ident).mpr hname
  unfold sqlWhereValue
  rw [if_neg hid, if_pos hcompare]

/-- A name is compared with a string, for equality only. -/
theorem givesUp_name (hcolumn : IdentAt column cursor rest)
    (hname : SameWord (bytes "name") column) :
    (sqlWhereValue column .eq rest).GivesUp (SqlStopsIn [.string, .ending]) := by
  rw [sqlWhereValue_name hcolumn hname, if_pos rfl]
  exact (follows_value follows_string .byName).toGivesUp

/-- The rest of the condition is missing, or the column is none. -/
private theorem sqlWhereValue_eq_error (hcolumn : IdentAt column cursor rest)
    (hcomparison : ComparisonAt comparison rest after)
    (h : sqlWhereValue column comparison rest after = .error result) :
    SqlNameError result ∨
      ∃ kind stop, SqlWhereStops cursor kind stop ∧ result = sqlSetSyntaxError sqlNoResult stop := by
  have hsame (word : String) (hword : 0 ∉ bytes word) := sameWord_iff hword hcolumn.ident
  by_cases hnumber : SameWord (bytes "id") column ∨ SameWord (bytes "age") column
  · refine ((givesUp_number hcolumn hnumber).error h).imp_right fun ⟨kind, stop, hstop, heq⟩ => ?_
    exact ⟨kind, stop, .number hcolumn hnumber hcomparison hstop, heq⟩
  by_cases hname : SameWord (bytes "name") column
  · by_cases heq : comparison = .eq
    · subst heq
      refine ((givesUp_name hcolumn hname).error h).imp_right fun ⟨kind, stop, hstop, heq⟩ => ?_
      exact ⟨kind, stop, .name hcolumn hname hcomparison hstop, heq⟩
    · rw [sqlWhereValue_name hcolumn hname, if_neg heq] at h
      exact .inr ⟨.token, rest, .nameComparison hcolumn hname hcomparison heq,
        (Except.error.inj h).symm⟩
  · -- another column is an error over its name
    have hid := mt (hsame "id" (by decide)).mp fun h => hnumber (.inl h)
    have hage := mt (hsame "age" (by decide)).mp fun h => hnumber (.inr h)
    have hname := mt (hsame "name" (by decide)).mp hname
    unfold sqlWhereValue at h
    rw [if_neg hid, if_neg hname, if_neg hage] at h
    obtain rfl := Except.error.inj h
    exact .inl (.column hcolumn.ident (.inr rfl))

theorem givesUp_where : sqlWhere.GivesUp SqlWhereStops := by
  refine ⟨?_, ?_⟩
  · intro cursor result h
    rcases noIdentAt_or cursor with hno | ⟨column, rest, hcolumn⟩
    · -- no column
      unfold sqlWhere at h
      rw [hno.bind] at h
      exact .inr ⟨.token, _, .column hno, (Except.error.inj h).symm⟩
    · rw [sqlWhere_of_column hcolumn] at h
      split at h
      case isTrue hlong =>
        exact .inr ⟨.token, rest, .columnLong hcolumn hlong, (Except.error.inj h).symm⟩
      case isFalse hshort =>
        cases hscan : sqlParseComparison rest with
        | mk found after =>
          cases found with
          | none =>
            rw [SqlParser.bind_error (by rw [expect, hscan])] at h
            obtain ⟨hnone, rfl⟩ := comparison_stops_iff.mpr hscan
            exact .inr ⟨.token, _, .comparison hcolumn (not_le.mp hshort) hnone,
              (Except.error.inj h).symm⟩
          | some comparison =>
            rw [SqlParser.bind_of (expect_of hscan)] at h
            exact sqlWhereValue_eq_error hcolumn (comparison_iff.mpr hscan) h
  · -- the other way round, one case for each place
    intro cursor kind stop h
    cases h with
    | column hno =>
      unfold sqlWhere
      exact hno.bind _
    | columnLong hcolumn hlong => rw [sqlWhere_of_column hcolumn, if_pos hlong]
    | comparison hcolumn hshort hnone =>
      have hscan := comparison_stops_iff.mp ⟨hnone, rfl⟩
      rw [sqlWhere_of_column hcolumn, if_neg (not_le.mpr hshort)]
      exact SqlParser.bind_error (by rw [expect, hscan]) _
    | number hcolumn hnumber hcomparison hstop =>
      have hshort := hnumber.elim (short_of_sameWord (by decide)) (short_of_sameWord (by decide))
      rw [sqlWhere_of_comparison hcolumn hshort hcomparison]
      exact (givesUp_number hcolumn hnumber).giveUp hstop
    | name hcolumn hname hcomparison hstop =>
      have hshort := short_of_sameWord (by decide) hname
      rw [sqlWhere_of_comparison hcolumn hshort hcomparison]
      exact (givesUp_name hcolumn hname).giveUp hstop
    | nameComparison hcolumn hname hcomparison hne =>
      have hshort := short_of_sameWord (by decide) hname
      rw [sqlWhere_of_comparison hcolumn hshort hcomparison, sqlWhereValue_name hcolumn hname,
        if_neg hne]
      rfl

end Conditions

theorem BehindEnd.skipSpaces {cursor behind : Cursor} (h : BehindEnd cursor behind) :
    sqlSkipSpaces behind = behind := by
  rcases h with ⟨-, rfl⟩ | ⟨after, -, rfl⟩ <;> exact skipSpaces_skipSpaces _

/-- The end is looked for, and the search moves the cursor. -/
theorem BehindEnd.condition {cursor behind : Cursor} (h : BehindEnd cursor behind) :
    sqlSelectCondition cursor =
      if peek behind = 0 then .ok (.all, behind)
      else ((do skip; expect (sqlMatchKeyword "WHERE")) >>= fun _ => sqlWhere) behind := by
  have hskip (cursor : Cursor) : skip cursor = .ok ((), sqlSkipSpaces cursor) := rfl
  have hattempt : attempt sqlMatchStatementEnd (sqlSkipSpaces cursor) =
      .ok (if peek behind = 0 then some () else none, behind) := by
    rw [attempt, sqlMatchStatementEnd_skipSpaces, h.matchEnd]
  unfold sqlSelectCondition
  rw [SqlParser.bind_of (hskip cursor), SqlParser.bind_of hattempt]
  split
  · rfl
  · -- there is no whitespace left to skip
    rw [bind_assoc, SqlParser.bind_of (hskip behind), h.skipSpaces]

/-- A SELECT ends behind its table, or has a condition. -/
theorem givesUp_condition : sqlSelectCondition.GivesUp SqlConditionStops := by
  have hkeyword := follows_keyword (show IsWord "WHERE" by decide)
  have hwhere := hkeyword.bind_givesUp fun _ => givesUp_where
  refine ⟨?_, ?_⟩
  · intro cursor result h
    obtain ⟨behind, hbehind⟩ := exists_behindEnd cursor
    rw [hbehind.condition] at h
    split at h
    case isTrue => cases h
    case isFalse hpeek =>
      refine (hwhere.error h).imp_right ?_
      rintro ⟨kind, stop, hstop | ⟨next, hfound, hstop⟩, heq⟩
      · -- no WHERE: the error is where the search for the end has left the cursor
        cases hstop with
        | keyword hnone =>
          rw [show SqlApi.Lib.skipSpaces behind = behind from hbehind.skipSpaces] at heq
          exact ⟨.token, behind, .noWhere hbehind hpeek hnone, heq⟩
      · exact ⟨kind, stop, .condition hbehind hfound hstop, heq⟩
  · intro cursor kind stop h
    cases h with
    | noWhere hbehind hpeek hnone =>
      have hstop := SqlPart.StopsAt.keyword hnone
      rw [show SqlApi.Lib.skipSpaces stop = stop from hbehind.skipSpaces] at hstop
      rw [hbehind.condition, if_neg hpeek]
      exact hwhere.giveUp (.inl hstop)
    | condition hbehind hfound hstop =>
      have hpeek := peek_ne_zero_of_found (by decide) hfound
      rw [show SqlApi.Lib.skipSpaces _ = _ from hbehind.skipSpaces] at hpeek
      rw [hbehind.condition, if_neg hpeek]
      exact hwhere.giveUp (.inr ⟨_, hfound, hstop⟩)

theorem givesUp_select : sqlSelectRows.GivesUp fun cursor kind stop =>
    SqlStopsIn sqlTableParts cursor kind stop ∨
      ∃ behind, SqlReadsIn sqlTableParts cursor behind ∧ SqlConditionStops behind kind stop := by
  rw [sqlSelectRows_eq]
  exact follows_selectTable.bind_givesUp fun _ => givesUp_condition

/-! ### Statements -/

section Statements

variable {text cursor rest rest' stop : Cursor} {kind : SqlStop} {result : SQLResult}

/-- One word stands in one place. -/
theorem found_word_unique {word word' : String} (hword : IsWord word) (hword' : IsWord word')
    (h : (SqlToken.word word).FoundAt cursor rest)
    (h' : (SqlToken.word word').FoundAt cursor rest') :
    SameWord (bytes word') (bytes word) ∧ rest = rest' := by
  obtain ⟨name, hname, hsame⟩ := identAt_of_found hword h
  obtain ⟨name', hname', hsame'⟩ := identAt_of_found hword' h'
  obtain ⟨rfl, rfl⟩ := hname.unique hname'
  exact ⟨hsame.symm.trans hsame', rfl⟩

theorem StartsWith.found {word : String} (h : StartsWith word text rest) :
    (SqlToken.word word).FoundAt text rest := by
  obtain ⟨spelling, hspells, hend, rfl⟩ := h
  exact ⟨[], spelling, nofun, hspells, rfl, fun _ _ => hend⟩

/-- EXIT and QUIT are looked for behind whitespace. -/
theorem exit_found_iff :
    (∃ word, (word = "EXIT" ∨ word = "QUIT") ∧ (SqlToken.word word).FoundAt text rest) ↔
      sqlMatchExit (sqlSkipSpaces text) = (some (), rest) := by
  refine ⟨?_, found_exit⟩
  unfold sqlMatchExit
  rintro ⟨word, rfl | rfl, hfound⟩
  · rw [(keyword_found_iff (by decide)).mp hfound]
  · -- a QUIT is no EXIT
    have hexit : ∀ rest, ¬ (SqlToken.word "EXIT").FoundAt text rest := fun rest hexit =>
      absurd (found_word_unique (by decide) (by decide) hexit hfound).1 (by decide)
    rw [(keyword_notFound_iff (by decide)).mp hexit]
    exact (keyword_found_iff (by decide)).mp hfound

/-- Without them the cursor is in front of the first token. -/
theorem sqlMatchExit_stays (h : sqlMatchExit (sqlSkipSpaces text) = (none, rest)) :
    rest = skipSpaces text := by
  unfold sqlMatchExit at h
  split at h
  next => cases h
  next hexit =>
    obtain rfl := sqlMatchKeyword_stays hexit
    exact sqlMatchKeyword_stays h

private theorem except_map_eq_error {ε α β : Type} {f : α → β} {e : Except ε α} {err : ε}
    (h : e.map f = .error err) : e = .error err := by
  cases e with
  | error err' => exact congrArg Except.error (Except.error.inj h)
  | ok a => cases h

/-- No error of a statement parser is taken for a missing keyword. -/
theorem SqlParser.GivesUp.not_fallThrough {α : Type} {p : SqlParser α}
    {stops : Cursor → SqlStop → Cursor → Prop} (hp : p.GivesUp stops)
    (h : p cursor = .error result) : result.isFallThrough = false := by
  rcases hp.error h with hname | ⟨kind, stop, -, rfl⟩
  · cases hname with
    | table => exact (SqlError.syntaxError _).isFallThrough
    | column => exact (SqlError.unknownColumn _ _).isFallThrough
  · exact (SqlError.syntaxError stop).isFallThrough

/-- A keyword and the statement behind it. -/
theorem StartsWith.statement {α : Type} {keyword : String} {parser : SqlParser α}
    (hkeyword : IsWord keyword) (h : StartsWith keyword text rest) :
    sqlStatement keyword parser text = Prod.fst <$> parser rest := by
  rw [sqlStatement, (startsWith_iff hkeyword).mp h]
  rfl

theorem sqlStatement_of_not_startsWith {α : Type} {keyword : String} {parser : SqlParser α}
    (hkeyword : IsWord keyword) (h : ∀ rest, ¬ StartsWith keyword text rest) :
    sqlStatement keyword parser text = .error sqlNoResult := by
  cases hmatch : sqlMatchKeyword keyword text with
  | mk found rest =>
    cases found with
    | none => rw [sqlStatement, hmatch]
    | some _ => exact absurd ((startsWith_iff hkeyword).mpr hmatch) (h rest)

/-- Where none of EXIT and QUIT stands. -/
theorem sqlMatchExit_of_not_exit
    (hexit : ∀ word, word = "EXIT" ∨ word = "QUIT" →
      ∀ rest, ¬ (SqlToken.word word).FoundAt text rest) :
    sqlMatchExit (sqlSkipSpaces text) = (none, skipSpaces text) := by
  cases hmatch : sqlMatchExit (sqlSkipSpaces text) with
  | mk found cursor =>
    cases found with
    | some _ =>
      obtain ⟨word, hword, hfound⟩ := exit_found_iff.mpr hmatch
      exact absurd hfound (hexit word hword cursor)
    | none => rw [sqlMatchExit_stays hmatch]

/-- Where a statement starts there is no EXIT and no QUIT. -/
theorem StartsWith.not_exit {keyword : String} (h : StartsWith keyword text rest)
    (hkeyword : keyword = "INSERT" ∨ keyword = "SELECT") {word : String}
    (hword : word = "EXIT" ∨ word = "QUIT") (rest : Cursor) :
    ¬ (SqlToken.word word).FoundAt text rest := by
  intro hfound
  -- the two words have the same letters, which no two of them have
  rcases hkeyword with rfl | rfl <;> rcases hword with rfl | rfl
  all_goals exact absurd (found_word_unique (by decide) (by decide) hfound h.found).1 (by decide)

/-- Where a statement starts with INSERT, its parser decides. -/
theorem StartsWith.parse_insert (h : StartsWith "INSERT" text rest) :
    sqlParse text = (sqlInsertValues rest).map fun values => .insert values.1.1 values.1.2 := by
  unfold sqlParse
  rw [sqlMatchExit_of_not_exit fun _ => h.not_exit (.inl rfl), h.statement (by decide)]
  cases hrun : sqlInsertValues rest with
  | ok values => rfl
  | error result =>
    have hresult := follows_insert.not_fallThrough hrun
    show (if (!result.isFallThrough) = true then _ else _) = _
    rw [hresult]
    rfl

/-- Where it starts with SELECT, the INSERT parser falls through. -/
theorem StartsWith.parse_select (h : StartsWith "SELECT" text rest) :
    sqlParse text = (sqlSelectRows rest).map fun rows => .select rows.1 := by
  have hinsert : ∀ rest, ¬ StartsWith "INSERT" text rest := fun rest hinsert =>
    absurd (found_word_unique (by decide) (by decide) hinsert.found h.found).1 (by decide)
  unfold sqlParse
  rw [sqlMatchExit_of_not_exit fun _ => h.not_exit (.inr rfl),
    sqlStatement_of_not_startsWith (by decide) hinsert, h.statement (by decide)]
  cases hrun : sqlSelectRows rest with
  | ok rows => rfl
  | error result =>
    have hresult := givesUp_select.not_fallThrough hrun
    show Except.error (if result.isFallThrough = true then _ else _) = _
    rw [hresult]
    rfl

/-- Behind EXIT or QUIT the statement has to end. -/
theorem sqlParse_of_exit_found {word : String} {behind : Cursor}
    (hword : word = "EXIT" ∨ word = "QUIT") (h : (SqlToken.word word).FoundAt text rest)
    (hbehind : BehindEnd rest behind) :
    sqlParse text = .error (if peek behind = 0 then sqlMakeResult .exit .none
      else sqlSetSyntaxError sqlNoResult behind) := by
  rw [sqlParse, exit_found_iff.mp ⟨word, hword, h⟩]
  dsimp only
  rw [hbehind.matchEnd]
  by_cases hpeek : peek behind = 0
  · rw [if_pos hpeek, if_pos hpeek]
  · rw [if_neg hpeek, if_neg hpeek]

/-- The parser gives up where the text says. -/
theorem sqlParse_of_stopsAt (h : SqlStopsAt text kind stop) :
    sqlParse text = .error (sqlSetSyntaxError sqlNoResult stop) := by
  cases h with
  | exit hword hfound hstop =>
    cases hstop with
    | ending hbehind hpeek => rw [sqlParse_of_exit_found hword hfound hbehind, if_neg hpeek]
  | insert hstart hstop =>
    rw [hstart.parse_insert, follows_insert.giveUp hstop]
    rfl
  | selectTable hstart hstop =>
    rw [hstart.parse_select, givesUp_select.giveUp (.inl hstop)]
    rfl
  | selectCondition hstart hreads hstop =>
    rw [hstart.parse_select, givesUp_select.giveUp (.inr ⟨_, hreads, hstop⟩)]
    rfl
  | noStatement hexit hstart =>
    unfold sqlParse
    rewrite [sqlMatchExit_of_not_exit hexit,
      sqlStatement_of_not_startsWith (by decide) (hstart "INSERT" (.inl rfl)),
      sqlStatement_of_not_startsWith (by decide) (hstart "SELECT" (.inr rfl))]
    rfl

/-- A name that does not fit its buffer is cut there. -/
theorem sqlStopsAt_longName {name : List UInt8} (hzero : 0 ∉ name) (hquote : 39 ∉ name)
    (hlength : name.length + 1 = recordNameSize) (hmore : peek rest ≠ 0) (hopen : peek rest ≠ 39) :
    SqlStopsAt (bytes "INSERT INTO users VALUES ('" ++ (name ++ rest)) .string rest := by
  have hspace : Blank [byte ' '] := List.forall_mem_singleton.mpr rfl
  have hword {word : String} {text : Cursor} (hend : EndsWord text) :
      (SqlToken.word word).FoundAt ([byte ' '] ++ (bytes word ++ text)) text :=
    ⟨[byte ' '], bytes word, hspace, rfl, rfl, fun _ _ => hend⟩
  have hend (text : Cursor) : EndsWord (byte ' ' :: text) := rfl
  have htext : bytes "INSERT INTO users VALUES ('" ++ (name ++ rest) =
      bytes "INSERT" ++ byte ' ' :: (bytes "INTO" ++ byte ' ' :: (bytes "users" ++ byte ' ' ::
        (bytes "VALUES" ++ byte ' ' :: byte '(' :: 39 :: (name ++ rest)))) := rfl
  rw [htext]
  refine .insert ⟨bytes "INSERT", rfl, hend _, rfl⟩ ?_
  -- INTO, users, VALUES and the bracket are there
  refine .inr ⟨_, hword (hend _), .inr ⟨_, hword (hend _), .inr ⟨_, hword (hend _), ?_⟩⟩⟩
  refine .inr ⟨_, ⟨[byte ' '], hspace, rfl⟩, .inl ?_⟩
  exact @SqlPart.StopsAt.stringLong [] name rest nofun hzero hquote hlength hmore hopen

/-- A text without a statement is an EXIT, or names a wrong table or column, or the parser has
given up in it. -/
theorem sqlParse_error_cases (h : sqlParse text = .error result) :
    result = sqlMakeResult .exit .none ∨ SqlNameError result ∨
      ∃ kind stop, SqlStopsAt text kind stop ∧ result = sqlSetSyntaxError sqlNoResult stop := by
  by_cases hexit : ∃ word rest, (word = "EXIT" ∨ word = "QUIT") ∧
      (SqlToken.word word).FoundAt text rest
  · -- EXIT, or what stands behind it
    obtain ⟨word, rest, hword, hfound⟩ := hexit
    obtain ⟨behind, hbehind⟩ := exists_behindEnd rest
    rw [sqlParse_of_exit_found hword hfound hbehind] at h
    obtain rfl := Except.error.inj h
    split
    case isTrue => exact .inl rfl
    case isFalse hpeek =>
      exact .inr (.inr ⟨.token, behind, .exit hword hfound (.ending hbehind hpeek), rfl⟩)
  by_cases hinsert : ∃ rest, StartsWith "INSERT" text rest
  · obtain ⟨rest, hstart⟩ := hinsert
    rw [hstart.parse_insert] at h
    refine .inr ((follows_insert.error (except_map_eq_error h)).imp_right ?_)
    rintro ⟨kind, stop, hstop, heq⟩
    exact ⟨kind, stop, .insert hstart hstop, heq⟩
  by_cases hselect : ∃ rest, StartsWith "SELECT" text rest
  · obtain ⟨rest, hstart⟩ := hselect
    rw [hstart.parse_select] at h
    refine .inr ((givesUp_select.error (except_map_eq_error h)).imp_right ?_)
    rintro ⟨kind, stop, hstop | ⟨behind, hreads, hstop⟩, heq⟩
    · exact ⟨kind, stop, .selectTable hstart hstop, heq⟩
    · exact ⟨kind, stop, .selectCondition hstart hreads hstop, heq⟩
  · -- no word that a statement starts with
    have hnoExit : ∀ word, word = "EXIT" ∨ word = "QUIT" →
        ∀ rest, ¬ (SqlToken.word word).FoundAt text rest := fun word hword rest hfound =>
      hexit ⟨word, rest, hword, hfound⟩
    have hnoStart : ∀ word, word = "INSERT" ∨ word = "SELECT" →
        ∀ rest, ¬ StartsWith word text rest := by
      rintro word (rfl | rfl) rest hstart
      · exact hinsert ⟨rest, hstart⟩
      · exact hselect ⟨rest, hstart⟩
    have hstop : SqlStopsAt text .token (skipSpaces text) := .noStatement hnoExit hnoStart
    rw [sqlParse_of_stopsAt hstop] at h
    exact .inr (.inr ⟨.token, _, hstop, (Except.error.inj h).symm⟩)

end Statements

end Follows

end SqlApi.Core

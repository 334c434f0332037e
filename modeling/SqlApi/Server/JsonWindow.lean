import SqlApi.Server.JsonMemory

/-!
# Where the scanner looks behind its window

One of the loads of `api_extract_query_string` is not guarded: after the colon of a member
that is not the query, it looks whether a string starts there. So a body that ends behind
such a colon makes it look at the byte behind the window; no other body does, and what is
found there makes no difference to the result.

## How the proof goes

The loop is taken apart into rounds (`apiExtractRound`): a round returns, goes on behind one member,
or finds the window at its end where a value should stand. In memory each round does the same
(`RoundsTo`), and only the third kind makes the unguarded load.
-/

namespace SqlApi.Server

open SqlApi.Lib SqlApi.Core

/-! ## Bodies that end behind a colon -/

/-- The cursor is before members the last of which has no value, and is not the query. -/
def EndsIn (cursor : Cursor) : Prop :=
  ∃ members key name, ScannedMembers members ∧ ScannedName key name ∧
    cstr key ≠ bytes "query" ∧ cursor = members ++ name

/-- The body ends behind the colon of a member that is not the query, or in the whitespace
behind it. -/
def EndsBehindColon (body : List UInt8) : Prop :=
  ∃ w rest, Blank w ∧ EndsIn rest ∧ body = w ++ byte '{' :: rest

/-- How a round of the loop ends. -/
inductive ExtractRound where
  /-- The function returns, with a query or without one. -/
  | returns (query : Option (List UInt8))
  /-- There is nothing behind the colon. -/
  | atEnd
  | goesOn (cursor : Cursor)

/-- A round of the loop, on the bytes of the window. -/
def apiExtractRound (querySize : Nat) (cursor : Cursor) : ExtractRound :=
  if cursor = [] then .returns none
  else
    let cursor := apiSkipSpaces cursor
    if cursor.head? = some (byte '}') then .returns none
    else
      match apiParseJsonString 64 cursor with
      | none => .returns none
      | some (key, cursor) =>
        let cursor := apiSkipSpaces cursor
        if cursor.head? ≠ some (byte ':') then .returns none
        else
          let cursor := apiSkipSpaces (cursor.drop 1)
          if cstr key = bytes "query" then
            .returns ((apiParseJsonString querySize cursor).map Prod.fst)
          -- the window ends behind the colon: here the code reads one byte too far
          else if cursor = [] then .atEnd
          else
            match apiSkipValue cursor with
            | none => .returns none
            | some cursor => .goesOn (apiPastComma cursor)

section Rounds

variable {size fuel : Nat} {key key' name name' cursor rest rest' : List UInt8}

/-- The loop, a round at a time. At the end the next round has nothing to read. -/
theorem apiExtractLoop_succ (size fuel : Nat) (cursor : Cursor) :
    apiExtractLoop size (fuel + 1) cursor =
      match apiExtractRound size cursor with
      | .returns query => query
      | .atEnd => none
      | .goesOn cursor => apiExtractLoop size fuel cursor := by
  rw [apiExtractLoop, apiExtractRound]
  by_cases hempty : cursor = []
  · rw [if_pos hempty, if_pos hempty]
  rw [if_neg hempty, if_neg hempty]
  dsimp only
  by_cases hclosed : (apiSkipSpaces cursor).head? = some (byte '}')
  · rw [if_pos hclosed, if_pos hclosed]
  rw [if_neg hclosed, if_neg hclosed]
  cases apiParseJsonString 64 (apiSkipSpaces cursor) with
  | none => rfl
  | some r =>
    obtain ⟨key, afterKey⟩ := r
    dsimp only
    by_cases hcolon : (apiSkipSpaces afterKey).head? ≠ some (byte ':')
    · rw [if_pos hcolon, if_pos hcolon]
    rw [if_neg hcolon, if_neg hcolon]
    by_cases hkey : cstr key = bytes "query"
    · rw [if_pos hkey, if_pos hkey]
    rw [if_neg hkey, if_neg hkey]
    by_cases hend : apiSkipSpaces ((apiSkipSpaces afterKey).drop 1) = []
    · -- nothing is passed over, and the loop finds its cursor at the end
      have hskip : apiSkipValue [] = some [] := rfl
      rw [if_pos hend, hend, hskip]
      cases fuel <;> rfl
    · rw [if_neg hend]
      cases apiSkipValue (apiSkipSpaces ((apiSkipSpaces afterKey).drop 1)) <;> rfl

/-- A round that reads a name. -/
theorem apiExtractRound_name (hname : ScannedName key name) (hrest : isSpace (peek rest) = false) :
    apiExtractRound size (name ++ rest) =
      if cstr key = bytes "query" then .returns ((apiParseJsonString size rest).map Prod.fst)
      else if rest = [] then .atEnd
      else match apiSkipValue rest with
        | none => .returns none
        | some cursor => .goesOn (apiPastComma cursor) := by
  obtain ⟨hne, hopen, afterKey, hkey, hcolon, hvalue⟩ := hname.read hrest
  rw [apiExtractRound, if_neg hne]
  dsimp only
  rw [if_neg hopen, hkey]
  dsimp only
  rw [if_neg (not_not.mpr hcolon), hvalue]

/-- The cursor is before a name. -/
def AtName (cursor : Cursor) : Prop :=
  ∃ key name rest, ScannedName key name ∧ isSpace (peek rest) = false ∧ cursor = name ++ rest

/-- Any other round returns without a query. -/
theorem apiExtractRound_of_not_atName (size : Nat) (hcursor : ¬ AtName cursor) :
    apiExtractRound size cursor = .returns none := by
  rw [apiExtractRound]
  split
  case isTrue => rfl
  case isFalse =>
  dsimp only
  split
  case isTrue => rfl
  case isFalse =>
  split
  · rfl
  next key afterKey hkey =>
  split
  case isTrue => rfl
  case isFalse hcolon =>
    obtain ⟨hspace, name, hname, hsplit⟩ := scannedName_of_parse hkey (not_not.mp hcolon) rfl
    exact absurd ⟨key, name, _, hname, hspace, hsplit⟩ hcursor

/-- A name is read in one way. -/
theorem ScannedName.unique (hname : ScannedName key name) (hrest : isSpace (peek rest) = false)
    (hname' : ScannedName key' name') (hrest' : isSpace (peek rest') = false)
    (heq : name ++ rest = name' ++ rest') : key = key' ∧ name = name' ∧ rest = rest' := by
  obtain ⟨-, -, afterKey, hkey, -, hvalue⟩ := hname.read hrest
  obtain ⟨-, -, afterKey', hkey', -, hvalue'⟩ := hname'.read hrest'
  rw [heq, hkey'] at hkey
  cases hkey
  obtain rfl : rest = rest' := hvalue.symm.trans hvalue'
  exact ⟨rfl, List.append_cancel_right heq, rfl⟩

theorem EndsIn.atName (h : EndsIn cursor) : AtName cursor := by
  obtain ⟨members, key, name, hmembers, hname, -, rfl⟩ := h
  cases hmembers with
  | nil => exact ⟨key, name, [], hname, rfl, (List.append_nil _).symm⟩
  | @cons key' name' value members hname' _ hvalue hmembers =>
    have hstart := hmembers.start hname []
    rw [List.append_nil] at hstart
    exact ⟨key', name', value ++ (members ++ name), hname', (hvalue.skip hstart).1, by simp⟩

/-- Behind whitespace such a cursor is at a quote. -/
theorem EndsIn.start (h : EndsIn cursor) : ∃ t, apiSkipSpaces cursor = 34 :: t := by
  obtain ⟨members, key, name, hmembers, hname, -, rfl⟩ := h
  have hstart := hmembers.start hname []
  rwa [List.append_nil] at hstart

/-- A name may have more whitespace in front. -/
theorem ScannedName.blank_append {w : List UInt8} (hw : Blank w) (hname : ScannedName key name) :
    ScannedName key (w ++ name) := by
  obtain ⟨w₁, chars, w₂, w₃, hw₁, hchars, hlength, hw₂, hw₃, rfl⟩ := hname
  refine ⟨w ++ w₁, chars, w₂, w₃, fun c hc => ?_, hchars, hlength, hw₂, hw₃, ?_⟩
  · exact (List.mem_append.mp hc).elim (hw c) (hw₁ c)
  · rw [List.append_assoc]

/-- Or less. -/
theorem ScannedName.skipSpaces (hname : ScannedName key name) (rest : List UInt8) :
    ∃ name', ScannedName key name' ∧ apiSkipSpaces (name ++ rest) = name' ++ rest := by
  obtain ⟨w₁, chars, w₂, w₃, hw₁, hchars, hlength, hw₂, hw₃, rfl⟩ := hname
  refine ⟨[] ++ 34 :: (chars ++ 34 :: (w₂ ++ byte ':' :: w₃)),
    ⟨[], chars, w₂, w₃, nofun, hchars, hlength, hw₂, hw₃, rfl⟩, ?_⟩
  rw [List.append_assoc, List.cons_append]
  exact apiSkipSpaces_append hw₁ (by rfl)

/-- Whitespace in front does not matter. -/
theorem endsIn_skipSpaces : EndsIn (apiSkipSpaces cursor) ↔ EndsIn cursor := by
  constructor
  · -- white space before the first name belongs to that name
    rintro ⟨members, key, name, hmembers, hname, hkey, heq⟩
    obtain ⟨w, hw, hcursor⟩ := skipSpaces_spec cursor
    have hcursor : cursor = w ++ (members ++ name) := hcursor.trans (congrArg (w ++ ·) heq)
    rw [hcursor]
    cases hmembers with
    | nil => exact ⟨[], key, w ++ name, .nil, hname.blank_append hw, hkey, rfl⟩
    | @cons key' name' value members hname' hkey' hvalue hmembers =>
      refine ⟨w ++ name' ++ (value ++ members), key, name,
        .cons (hname'.blank_append hw) hkey' hvalue hmembers, hname, hkey, ?_⟩
      simp
  · rintro ⟨members, key, name, hmembers, hname, hkey, rfl⟩
    cases hmembers with
    | nil =>
      obtain ⟨name', hname', heq⟩ := hname.skipSpaces []
      rw [List.append_nil] at heq
      exact ⟨[], key, name', .nil, hname', hkey, by rw [List.nil_append, heq, List.append_nil]; rfl⟩
    | @cons key' name' value members hname' hkey' hvalue hmembers =>
      obtain ⟨name'', hname'', heq⟩ := hname'.skipSpaces (value ++ members ++ name)
      refine ⟨name'' ++ (value ++ members), key, name, .cons hname'' hkey' hvalue hmembers,
        hname, hkey, ?_⟩
      rw [List.append_assoc, heq]
      simp

/-- A cursor before a name. -/
theorem endsIn_name (hname : ScannedName key name) (hrest : isSpace (peek rest) = false) :
    EndsIn (name ++ rest) ↔ cstr key ≠ bytes "query" ∧
      (rest = [] ∨ ∃ after, apiSkipValue rest = some after ∧ EndsIn (apiPastComma after)) := by
  constructor
  · rintro ⟨members, key', name', hmembers, hname', hkey', heq⟩
    cases hmembers with
    | nil =>
      have heq : name ++ rest = name' ++ [] := by rw [heq, List.nil_append, List.append_nil]
      -- the last member is the one at the cursor
      obtain ⟨rfl, -, rfl⟩ := hname.unique hrest hname' (by rfl) heq
      exact ⟨hkey', .inl rfl⟩
    | @cons key'' name'' value members hname'' hkey'' hvalue hmembers =>
      obtain ⟨t, hstart⟩ := hmembers.start hname' []
      rw [List.append_nil] at hstart
      obtain ⟨hspace, after, hskip, hpast⟩ := hvalue.skip ⟨t, hstart⟩
      have heq : name ++ rest = name'' ++ (value ++ (members ++ name')) := by
        rw [heq, List.append_assoc, List.append_assoc]
      obtain ⟨rfl, -, rfl⟩ := hname.unique hrest hname'' hspace heq
      refine ⟨hkey'', .inr ⟨after, hskip, ?_⟩⟩
      rw [← endsIn_skipSpaces, hpast, endsIn_skipSpaces]
      exact ⟨members, key', name', hmembers, hname', hkey', rfl⟩
  · rintro ⟨hkey, rfl | ⟨after, hskip, hends⟩⟩
    · exact ⟨[], key, name, .nil, hname, hkey, List.append_nil _⟩
    · obtain ⟨value, hvalue, hsplit⟩ := scannedValue_of_skip hrest hskip hends.start
      obtain ⟨members, key', name', hmembers, hname', hkey', heq⟩ := hends
      refine ⟨name ++ (value ++ members), key', name', .cons hname hkey hvalue hmembers, hname',
        hkey', ?_⟩
      rw [hsplit, heq]
      simp

/-- What a round makes of a body that ends behind a colon. -/
theorem endsIn_iff (size : Nat) (cursor : Cursor) :
    EndsIn cursor ↔
      match apiExtractRound size cursor with
      | .returns _ => False
      | .atEnd => True
      | .goesOn cursor => EndsIn cursor := by
  by_cases hcursor : AtName cursor
  · obtain ⟨key, name, rest, hname, hrest, rfl⟩ := hcursor
    rw [endsIn_name hname hrest, apiExtractRound_name hname hrest]
    by_cases hkey : cstr key = bytes "query"
    · rw [if_pos hkey]
      exact iff_of_false (fun h => h.1 hkey) id
    · rw [if_neg hkey]
      by_cases hend : rest = []
      · rw [if_pos hend]
        exact iff_of_true ⟨hkey, .inl hend⟩ trivial
      · rw [if_neg hend]
        cases hskip : apiSkipValue rest with
        | none => simp [hend]
        | some after => simp [hkey, hend]
  · rw [apiExtractRound_of_not_atName size hcursor]
    exact iff_of_false (fun h => hcursor h.atName) id

/-- A value is passed over within the window. -/
theorem apiSkipValue_suffix {after : Cursor} (h : apiSkipValue cursor = some after) :
    after <:+ cursor := by
  unfold apiSkipValue at h
  split at h
  · obtain ⟨⟨v, after'⟩, hread, rfl⟩ := Option.map_eq_some_iff.mp h
    obtain ⟨chars, -, -, rfl⟩ := (apiParseJsonString_iff (by decide)).mp hread
    exact ⟨34 :: (chars ++ [34]), by simp⟩
  · obtain rfl := Option.some.inj h
    exact List.dropWhile_suffix _

theorem apiPastComma_suffix (cursor : Cursor) : apiPastComma cursor <:+ cursor := by
  have hskip : apiSkipSpaces cursor <:+ cursor := List.dropWhile_suffix _
  unfold apiPastComma
  dsimp only
  split
  · exact (List.drop_suffix ..).trans hskip
  · exact hskip

/-- A round advances. -/
theorem length_lt_of_goesOn {after : Cursor} (h : apiExtractRound size cursor = .goesOn after) :
    after.length < cursor.length := by
  -- a round that goes on has read a name, which is not empty
  by_cases hcursor : AtName cursor
  · obtain ⟨key, name, rest, hname, hrest, rfl⟩ := hcursor
    have hpos : 0 < name.length := by
      obtain ⟨w₁, chars, w₂, w₃, -, -, -, -, -, rfl⟩ := hname
      simp
    rw [apiExtractRound_name hname hrest] at h
    split at h
    case isTrue => cases h
    case isFalse =>
    split at h
    case isTrue => cases h
    case isFalse =>
    split at h
    · cases h
    next after' hskip =>
      cases h
      have hlength :=
        ((apiPastComma_suffix after').trans (apiSkipValue_suffix hskip)).length_le
      rw [List.length_append]
      omega
  · rw [apiExtractRound_of_not_atName size hcursor] at h
    cases h

end Rounds

/-! ## The rounds in memory -/

section Runs

variable {size endPtr fuel i : Nat} {m : ScanMemory} {cursor : Cursor}

/-- What a text written with a terminator is when it is read again. -/
theorem run_loadKey {key : List UInt8} (h : key ++ [0] <+: m.buffer .key) :
    loadKey.run m = some (cstr key, m) := by
  obtain ⟨behind, hbehind⟩ := h
  have hzero : 0 ∈ m.buffer .key := by
    rw [← hbehind]
    simp
  have htext : cstr (m.buffer .key) = cstr key := by
    rw [← hbehind, List.append_assoc, List.singleton_append]
    exact cstr_append_zero_any key behind
  rw [loadKey, ScanProg.run, Program.run_perform, ← htext]
  exact if_pos hzero

/-- What the loop comes to from here on: it returns, and if it has a query that is in its
buffer. -/
def Returns (p : ScanProg Bool) (m : ScanMemory) (query : Option (List UInt8)) : Prop :=
  ∃ m', p.run m = some (query.isSome, m') ∧ ∀ q ∈ query, q ++ [0] <+: m'.buffer .query

/-- What a round of the loop comes to in memory, when it comes to `round` on the bytes of the
window. Only the byte behind the window may be missing. -/
def RoundsTo (endPtr size fuel : Nat) (p : ScanProg Bool) (m : ScanMemory) : ExtractRound → Prop
  | .returns query => Returns p m query
  | .atEnd => if endPtr < m.body.length then Returns p m none else p.run m = none
  | .goesOn cursor => ∃ j m', m.SameShape m' ∧ Points m' endPtr cursor j ∧
      p.run m = (apiExtractLoopAt endPtr size fuel j).run m'

theorem RoundsTo.bind {α : Type} {q : ScanProg α} {f : α → ScanProg Bool} {a : α}
    {m' : ScanMemory} {round : ExtractRound} (hrun : q.run m = some (a, m'))
    (hshape : m.SameShape m') (hf : RoundsTo endPtr size fuel (f a) m' round) :
    RoundsTo endPtr size fuel (q >>= f) m round := by
  have hbind : (q >>= f).run m = (f a).run m' := Program.run_bind_of_eq hrun f
  cases round with
  | returns query =>
    obtain ⟨m'', hf, hquery⟩ := hf
    exact ⟨m'', hbind.trans hf, hquery⟩
  | atEnd =>
    simp only [RoundsTo, Returns, hbind, hshape.body] at hf ⊢
    exact hf
  | goesOn cursor =>
    obtain ⟨j, m'', hshape', hpoints, hf⟩ := hf
    exact ⟨j, m'', hshape.trans hshape', hpoints, hbind.trans hf⟩

/-- Return without a query. -/
theorem roundsTo_none (m : ScanMemory) :
    RoundsTo endPtr size fuel (pure false) m (.returns none) :=
  ⟨m, rfl, nofun⟩

/-- Behind the colon of a member that is not the query. -/
theorem Points.roundsTo_value (h : Points m endPtr cursor i) (hm : m.Sized size) :
    RoundsTo endPtr size fuel (do
      match ← apiSkipValueAt i endPtr with
      | none => return false
      | some cursor =>
        let cursor ← apiSkipSpacesAt cursor endPtr
        if ← isByteAt cursor endPtr (byte ',') then
          apiExtractLoopAt endPtr size fuel (cursor + 1)
        else apiExtractLoopAt endPtr size fuel cursor) m
      (if cursor = [] then .atEnd
      else match apiSkipValue cursor with
        | none => .returns none
        | some cursor => .goesOn (apiPastComma cursor)) := by
  by_cases hend : cursor = []
  · subst hend
    rw [if_pos rfl]
    have hvalue := h.run_skipValue_end
    -- the unguarded load is of the byte behind the window
    cases hbyte : m.body[endPtr]? with
    | none =>
      rw [hbyte] at hvalue
      have hout : ¬ endPtr < m.body.length := not_lt.mpr (List.getElem?_eq_none_iff.mp hbyte)
      rw [RoundsTo, if_neg hout, ScanProg.run, Program.run_bind]
      rw [show Program.run ScanMemory.access (apiSkipValueAt i endPtr) m = none from hvalue]
      rfl
    | some c =>
      rw [hbyte] at hvalue
      obtain ⟨j, hrun, hj⟩ := hvalue
      have hin : endPtr < m.body.length := (List.getElem?_eq_some_iff.mp hbyte).1
      refine .bind hrun (.refl m) ?_
      rw [RoundsTo, if_pos hin]
      rcases hj with rfl | rfl
      · -- a quote is found there, and then no string within the window
        refine ⟨m, rfl, ?_⟩
        rintro q ⟨⟩
      · -- the cursor is still at the end, where no loop goes on
        obtain ⟨i', hrun', h'⟩ := h.run_skipSpaces
        have hlast : (apiExtractLoopAt endPtr size fuel i').run m = some (false, m) := by
          cases fuel with
          | zero => rfl
          | succ fuel => simp [apiExtractLoopAt, h'.lt_iff, apiSkipSpaces]
        refine ⟨m, ?_, fun q hq => by cases hq⟩
        refine (Program.run_bind_of_eq hrun' _).trans ?_
        refine (Program.run_bind_of_eq (h'.run_isByte _) _).trans ?_
        exact hlast
  · rw [if_neg hend]
    obtain ⟨j, m', hrun, hshape, hvalue⟩ := h.run_skipValue hm hend
    refine .bind hrun hshape ?_
    cases hskip : apiSkipValue cursor with
    | none =>
      rw [hskip] at hvalue
      rw [hvalue]
      exact roundsTo_none m'
    | some after =>
      rw [hskip] at hvalue
      obtain ⟨i', rfl, h'⟩ := hvalue
      obtain ⟨i'', hrun', h''⟩ := h'.run_skipSpaces
      refine .bind hrun' (.refl m') (.bind (h''.run_isByte _) (.refl m') ?_)
      dsimp only
      rw [apiPastComma]
      by_cases hcomma : (apiSkipSpaces after).head? = some (byte ',')
      · rw [if_pos hcomma, if_pos (decide_eq_true hcomma)]
        rw [eq_cons_of_head? hcomma] at h''
        exact ⟨i'' + 1, m', .refl m', h''.tail.2, rfl⟩
      · rw [if_neg hcomma, if_neg (by simpa using hcomma)]
        exact ⟨i'', m', .refl m', h'', rfl⟩

/-- One round in memory does what it does on the bytes of the window. -/
theorem Points.roundsTo (h : Points m endPtr cursor i) (hm : m.Sized size) (hsize : 0 < size) :
    RoundsTo endPtr size fuel (apiExtractLoopAt endPtr size (fuel + 1) i) m
      (apiExtractRound size cursor) := by
  -- the two programs are followed side by side, test by test, and the pointer stays at the cursor
  rw [apiExtractRound, apiExtractLoopAt]
  by_cases hempty : cursor = []
  · rw [if_pos hempty, if_neg (by simp [h.lt_iff, hempty])]
    exact roundsTo_none m
  rw [if_neg hempty, if_pos (h.lt_iff.mpr hempty)]
  dsimp only
  obtain ⟨i₁, hrun₁, h₁⟩ := h.run_skipSpaces
  refine .bind hrun₁ (.refl m) (.bind (h₁.run_isByte _) (.refl m) ?_)
  by_cases hclosed : (apiSkipSpaces cursor).head? = some (byte '}')
  · rw [if_pos hclosed, if_pos (decide_eq_true hclosed)]
    exact roundsTo_none m
  rw [if_neg hclosed, if_neg (by simpa using hclosed)]
  obtain ⟨j, m₂, hrun₂, hshape₂, hread⟩ := h₁.readsString hm.key (by decide)
  refine .bind hrun₂ hshape₂ ?_
  cases hkey : apiParseJsonString 64 (apiSkipSpaces cursor) with
  | none =>
    rw [hkey] at hread
    rw [hread]
    exact roundsTo_none m₂
  | some r =>
    obtain ⟨key, afterKey⟩ := r
    rw [hkey] at hread
    obtain ⟨i₂, rfl, h₂, hstored⟩ := hread
    dsimp only
    obtain ⟨i₃, hrun₃, h₃⟩ := h₂.run_skipSpaces
    refine .bind hrun₃ (.refl m₂) (.bind (h₃.run_isByte _) (.refl m₂) ?_)
    by_cases hcolon : (apiSkipSpaces afterKey).head? = some (byte ':')
    · rw [if_neg (not_not.mpr hcolon), if_neg (by simpa using hcolon)]
      rw [eq_cons_of_head? hcolon] at h₃
      obtain ⟨i₄, hrun₄, h₄⟩ := h₃.tail.2.run_skipSpaces
      refine .bind hrun₄ (.refl m₂) (.bind (run_loadKey hstored) (.refl m₂) ?_)
      by_cases hquery : cstr key = bytes "query"
      · -- the value of the query goes to the caller's buffer
        rw [if_pos hquery, if_pos hquery]
        obtain ⟨j', m₅, hrun₅, hshape₅, hread'⟩ :=
          h₄.readsString (hm.congr hshape₂).query hsize
        refine .bind hrun₅ hshape₅ ?_
        cases hvalue : apiParseJsonString size
            (apiSkipSpaces ((apiSkipSpaces afterKey).drop 1)) with
        | none =>
          rw [hvalue] at hread'
          rw [hread']
          exact roundsTo_none m₅
        | some r =>
          rw [hvalue] at hread'
          obtain ⟨i₅, rfl, -, hstored'⟩ := hread'
          exact ⟨m₅, rfl, fun q hq => by cases hq; exact hstored'⟩
      · rw [if_neg hquery, if_neg hquery]
        exact h₄.roundsTo_value (hm.congr hshape₂)
    · rw [if_pos hcolon, if_pos (by simpa using hcolon)]
      exact roundsTo_none m₂

/-- A run of the loop returns what the bytes of the window say, unless it looks at a byte that
is not there. -/
theorem Points.returns_loop (h : Points m endPtr cursor i) (hm : m.Sized size) (hsize : 0 < size)
    (hdefined : EndsIn cursor → endPtr < m.body.length) :
    Returns (apiExtractLoopAt endPtr size fuel i) m (apiExtractLoop size fuel cursor) := by
  -- the induction is on the fuel: the round keeps the shape of the memory for the next one
  induction fuel generalizing cursor i m with
  | zero => exact ⟨m, rfl, nofun⟩
  | succ fuel ih =>
    have hround : RoundsTo endPtr size fuel (apiExtractLoopAt endPtr size (fuel + 1) i) m
        (apiExtractRound size cursor) := h.roundsTo hm hsize
    rw [endsIn_iff size] at hdefined
    rw [apiExtractLoop_succ]
    cases hkind : apiExtractRound size cursor with
    | returns query =>
      rw [hkind] at hround
      exact hround
    -- this is the round that reads behind the window, where a byte is defined by assumption
    | atEnd =>
      rw [hkind] at hround hdefined
      rw [RoundsTo, if_pos (hdefined trivial)] at hround
      exact hround
    | goesOn after =>
      rw [hkind] at hround hdefined
      obtain ⟨j, m', hshape, hpoints, hrun⟩ := hround
      obtain ⟨m'', hreturn, hquery⟩ :=
        ih hpoints (hm.congr hshape) fun hends => hshape.body ▸ hdefined hends
      exact ⟨m'', hrun.trans hreturn, hquery⟩

/-- When the body ends behind a colon and the memory with it, the loop looks behind it. -/
theorem Points.run_loop_eq_none (h : Points m endPtr cursor i) (hm : m.Sized size)
    (hsize : 0 < size) (hbody : m.body.length ≤ endPtr) (hends : EndsIn cursor)
    (hfuel : cursor.length ≤ fuel) : (apiExtractLoopAt endPtr size fuel i).run m = none := by
  induction fuel generalizing cursor i m with
  | zero =>
    -- such a cursor is not at the end, so there is fuel
    obtain ⟨t, hstart⟩ := hends.start
    obtain rfl : cursor = [] := List.length_eq_zero_iff.mp (by omega)
    cases hstart
  | succ fuel ih =>
    have hround : RoundsTo endPtr size fuel (apiExtractLoopAt endPtr size (fuel + 1) i) m
        (apiExtractRound size cursor) := h.roundsTo hm hsize
    rw [endsIn_iff size] at hends
    cases hkind : apiExtractRound size cursor with
    | returns query =>
      rw [hkind] at hends
      exact hends.elim
    | atEnd =>
      rw [hkind, RoundsTo, if_neg (not_lt.mpr hbody)] at hround
      exact hround
    | goesOn after =>
      rw [hkind] at hround hends
      obtain ⟨j, m', hshape, hpoints, hrun⟩ := hround
      have hlt := length_lt_of_goesOn hkind
      rw [hrun]
      exact ih hpoints (hm.congr hshape) (hshape.body ▸ hbody) hends (by omega)

end Runs

/-! ## The window -/

section Window

variable {size : Nat} {body : List UInt8} {m : ScanMemory}

/-- The memory starts with these bytes. -/
theorem Points.start (hbody : body <+: m.body) : Points m body.length body 0 where
  window := Nat.zero_add _
  text := hbody

/-- The run up to the opening brace. -/
theorem run_apiExtractQueryStringAt (size : Nat) (hbody : body <+: m.body) :
    ((apiSkipSpaces body).head? ≠ some (byte '{') ∧
      Returns (apiExtractQueryStringAt body.length size) m none) ∨
    ∃ i rest, apiSkipSpaces body = byte '{' :: rest ∧ Points m body.length rest i ∧
      (apiExtractQueryStringAt body.length size).run m =
        (apiExtractLoopAt body.length size body.length i).run m := by
  obtain ⟨i, hrun, hpoints⟩ := (Points.start hbody).run_skipSpaces
  have hbyte := hpoints.run_isByte (byte '{')
  by_cases hopen : (apiSkipSpaces body).head? = some (byte '{')
  · rw [decide_eq_true hopen] at hbyte
    rw [eq_cons_of_head? hopen] at hpoints
    refine .inr ⟨i + 1, _, eq_cons_of_head? hopen, hpoints.tail.2, ?_⟩
    exact (Program.run_bind_of_eq hrun _).trans (Program.run_bind_of_eq hbyte _)
  · rw [decide_eq_false hopen] at hbyte
    refine .inl ⟨hopen, m, ?_, nofun⟩
    exact (Program.run_bind_of_eq hrun _).trans (Program.run_bind_of_eq hbyte _)

theorem endsBehindColon_iff {rest : List UInt8} (hopen : apiSkipSpaces body = byte '{' :: rest) :
    EndsBehindColon body ↔ EndsIn rest := by
  constructor
  · rintro ⟨w, rest', hw, hends, rfl⟩
    rw [apiSkipSpaces_append hw (by rfl)] at hopen
    cases hopen
    exact hends
  · intro hends
    obtain ⟨w, hw, hbody⟩ := skipSpaces_spec body
    exact ⟨w, rest, hw, hends, hbody.trans (congrArg (w ++ ·) hopen)⟩

/-- The function computes in memory what it computes on the bytes of the window, unless it looks
at a byte that is not there. -/
theorem returns_apiExtractQueryStringAt (hbody : body <+: m.body) (hm : m.Sized size)
    (hsize : 0 < size) (hdefined : EndsBehindColon body → body.length < m.body.length) :
    Returns (apiExtractQueryStringAt body.length size) m (apiExtractQueryString size body) := by
  unfold apiExtractQueryString
  rcases run_apiExtractQueryStringAt size hbody with
    ⟨hopen, hreturn⟩ | ⟨i, rest, hopen, hpoints, hrun⟩
  · dsimp only
    rw [if_pos hopen]
    exact hreturn
  · rw [endsBehindColon_iff hopen] at hdefined
    obtain ⟨m', hloop, hquery⟩ : Returns (apiExtractLoopAt body.length size body.length i) m
        (apiExtractLoop size body.length rest) := hpoints.returns_loop hm hsize hdefined
    rw [hopen]
    exact ⟨m', hrun.trans hloop, hquery⟩

/-- Such a body with nothing readable behind it. -/
theorem run_eq_none_of_endsBehindColon (hbody : m.body = body) (hm : m.Sized size)
    (hsize : 0 < size) (hends : EndsBehindColon body) :
    (apiExtractQueryStringAt body.length size).run m = none := by
  subst hbody
  rcases run_apiExtractQueryStringAt size (List.prefix_refl m.body) with
    ⟨hopen, -⟩ | ⟨i, rest, hopen, hpoints, hrun⟩
  · obtain ⟨w, rest, hw, -, hbody⟩ := hends
    have hskip : apiSkipSpaces (w ++ byte '{' :: rest) = byte '{' :: rest :=
      apiSkipSpaces_append hw (by rfl)
    rw [hbody, hskip] at hopen
    exact absurd rfl hopen
  · have hlength := hpoints.window
    rw [hrun]
    exact hpoints.run_loop_eq_none hm hsize le_rfl ((endsBehindColon_iff hopen).mp hends)
      (by omega)

/-- The function stays within its memory: whatever is behind the window, also nothing, and
whatever is in the buffers, the run is defined, and it returns the same. -/
def StaysInWindow (querySize : Nat) (body : List UInt8) : Prop :=
  ∃ query : Option (List UInt8), ∀ m : ScanMemory, m.Sized querySize → body <+: m.body →
    Returns (apiExtractQueryStringAt body.length querySize) m query

/-- Nothing readable but the body, and empty buffers. -/
def ScanMemory.only (querySize : Nat) (body : List UInt8) : ScanMemory where
  body := body
  buffer
    | .key => List.replicate 64 0
    | .ignored => List.replicate 16 0
    | .query => List.replicate querySize 0

theorem ScanMemory.Sized.only (querySize : Nat) (body : List UInt8) :
    (ScanMemory.only querySize body).Sized querySize :=
  ⟨List.length_replicate, List.length_replicate, List.length_replicate⟩

theorem not_staysInWindow (hsize : 0 < size) (hends : EndsBehindColon body) :
    ¬ StaysInWindow size body := by
  rintro ⟨query, h⟩
  -- the memory may end with the window
  obtain ⟨m', hrun, -⟩ := h _ (.only size body) (List.prefix_refl body)
  have hnone : (apiExtractQueryStringAt body.length size).run (.only size body) = none :=
    run_eq_none_of_endsBehindColon rfl (.only size body) hsize hends
  rw [hnone] at hrun
  cases hrun

/-- The function reads nothing behind the window and writes nothing behind its buffers if and
only if the body does not end behind the colon of a member that is not the query. -/
theorem staysInWindow_iff (hsize : 0 < size) (body : List UInt8) :
    StaysInWindow size body ↔ ¬ EndsBehindColon body :=
  ⟨fun h hends => not_staysInWindow hsize hends h, fun hends =>
    ⟨apiExtractQueryString size body, fun _ hm hbody =>
      returns_apiExtractQueryStringAt hbody hm hsize fun h => absurd h hends⟩⟩

/-- The buffer of a request. -/
theorem staysInWindow_iff_1024 :
    StaysInWindow 1024 (bytes "\x7b\"a\":1,\"query\":\"SELECT\"\x7d") ↔
      ¬ EndsBehindColon (bytes "\x7b\"a\":1,\"query\":\"SELECT\"\x7d") :=
  staysInWindow_iff (by decide) _

/-- Behind the colon the loop looks at the byte behind the window. -/
theorem apiExtractQueryStringAt_endsBehindColon :
    ¬ StaysInWindow 1024 (bytes "\x7b\"a\":") ∧
      (apiExtractQueryStringAt 5 1024).run (.only 1024 (bytes "\x7b\"a\":")) = none := by
  have hends : EndsBehindColon (bytes "\x7b\"a\":") := by
    refine ⟨[], bytes "\"a\":", nofun, ⟨[], bytes "a", bytes "\"a\":", .nil, ?_, ?_, rfl⟩, rfl⟩
    · exact ⟨[], bytes "a", [], [], nofun, .plain (by decide) (by decide) .nil, by decide, nofun,
        nofun, rfl⟩
    · decide
  exact ⟨not_staysInWindow (by decide) hends,
    run_eq_none_of_endsBehindColon rfl (.only 1024 _) (by decide) hends⟩

end Window

end SqlApi.Server

import SqlApi.Server.HttpRoundTrip

/-!
# Which bodies have a query

`api_extract_query_string` looks for the query member and leaves as soon as it has it. What
it passes over on the way there is not checked but skipped: a string into a buffer of 16
bytes, anything else up to the next comma, commas where there are any. The texts it finds
a query in have a grammar of their own; the objects of the JSON grammar are compared
with it.
-/

namespace SqlApi.Server

open SqlApi.Lib SqlApi.Core

/-! ## What the scanner passes over -/

/-- A name and its colon, as the scanner reads them. -/
def ScannedName (key text : List UInt8) : Prop :=
  ∃ w₁ chars w₂ w₃, Blank w₁ ∧ ScannedAs key chars ∧ key.length < 64 ∧ Blank w₂ ∧ Blank w₃ ∧
    text = w₁ ++ 34 :: (chars ++ 34 :: (w₂ ++ byte ':' :: w₃))

/-- The value of another member, with what separates it from the next one. -/
inductive ScannedValue : List UInt8 → Prop
  /-- Behind a string the comma may be missing. -/
  | string {v chars w : List UInt8} :
      ScannedAs v chars → v.length < 16 → Blank w → ScannedValue (34 :: (chars ++ 34 :: w))
  | stringComma {v chars w : List UInt8} :
      ScannedAs v chars → v.length < 16 → Blank w →
      ScannedValue (34 :: (chars ++ 34 :: (w ++ [byte ','])))
  /-- Anything else goes up to the comma. -/
  | raw {r : List UInt8} :
      isSpace (peek r) = false → r.head? ≠ some 34 →
      (∀ c ∈ r, c ≠ byte ',' ∧ c ≠ byte '}') → ScannedValue (r ++ [byte ','])

/-- The members before the query. -/
inductive ScannedMembers : List UInt8 → Prop
  | nil : ScannedMembers []
  | cons {key name value members : List UInt8} :
      ScannedName key name → cstr key ≠ bytes "query" → ScannedValue value →
      ScannedMembers members → ScannedMembers (name ++ (value ++ members))

/-- The cursor for the next round of the loop. -/
def apiPastComma (cursor : Cursor) : Cursor :=
  let cursor := apiSkipSpaces cursor
  if cursor.head? = some (byte ',') then cursor.drop 1 else cursor

/-- Where a value that is no string goes on. -/
theorem inValue_iff {c : UInt8} :
    (c != byte ',' && c != byte '}') = true ↔ c ≠ byte ',' ∧ c ≠ byte '}' := by
  rw [Bool.and_eq_true, bne_iff_ne, bne_iff_ne]

section Scan

variable {size fuel : Nat} {key name value members cursor rest q : List UInt8}

theorem apiSkipSpaces_append {w : List UInt8} (hw : Blank w)
    (hrest : isSpace (peek rest) = false) : apiSkipSpaces (w ++ rest) = rest :=
  skipSpaces_append hw hrest

/-- How a name is read, up to the value behind it. -/
theorem ScannedName.read (hname : ScannedName key name) (hcursor : isSpace (peek cursor) = false) :
    name ++ cursor ≠ [] ∧ (apiSkipSpaces (name ++ cursor)).head? ≠ some (byte '}') ∧
      ∃ afterKey, apiParseJsonString 64 (apiSkipSpaces (name ++ cursor)) = some (key, afterKey) ∧
        (apiSkipSpaces afterKey).head? = some (byte ':') ∧
        apiSkipSpaces ((apiSkipSpaces afterKey).drop 1) = cursor := by
  obtain ⟨w₁, chars, w₂, w₃, hw₁, hchars, hlength, hw₂, hw₃, rfl⟩ := hname
  have htext : w₁ ++ 34 :: (chars ++ 34 :: (w₂ ++ byte ':' :: w₃)) ++ cursor =
      w₁ ++ 34 :: (chars ++ 34 :: (w₂ ++ byte ':' :: (w₃ ++ cursor))) := by simp
  have hkey : apiParseJsonString 64 (34 :: (chars ++ 34 :: (w₂ ++ byte ':' :: (w₃ ++ cursor)))) =
      some (key, w₂ ++ byte ':' :: (w₃ ++ cursor)) :=
    (apiParseJsonString_iff (by decide)).mpr ⟨chars, hchars, hlength, rfl⟩
  have hopen : apiSkipSpaces (w₁ ++ 34 :: (chars ++ 34 :: (w₂ ++ byte ':' :: (w₃ ++ cursor)))) =
      34 :: (chars ++ 34 :: (w₂ ++ byte ':' :: (w₃ ++ cursor))) :=
    apiSkipSpaces_append hw₁ (by rfl)
  have hcolon : apiSkipSpaces (w₂ ++ byte ':' :: (w₃ ++ cursor)) = byte ':' :: (w₃ ++ cursor) :=
    apiSkipSpaces_append hw₂ (by rfl)
  rw [htext, hopen]
  refine ⟨by simp, by simp, _, hkey, by rw [hcolon]; rfl, ?_⟩
  rw [hcolon, List.drop_one, List.tail_cons]
  exact apiSkipSpaces_append hw₃ hcursor

/-- One round: behind the name of a member, the query is read or another value is skipped. -/
theorem apiExtractLoop_name (hname : ScannedName key name)
    (hcursor : isSpace (peek cursor) = false) :
    apiExtractLoop size (fuel + 1) (name ++ cursor) =
      if cstr key = bytes "query" then (apiParseJsonString size cursor).map Prod.fst
      else (apiSkipValue cursor).bind fun c => apiExtractLoop size fuel (apiPastComma c) := by
  obtain ⟨hne, hopen, afterKey, hkey, hcolon, hvalue⟩ := hname.read hcursor
  rw [apiExtractLoop, if_neg hne]
  dsimp only
  rw [if_neg hopen, hkey]
  dsimp only
  rw [if_neg (not_not.mpr hcolon), hvalue]
  congr 1
  cases apiSkipValue cursor <;> rfl

/-- Behind its whitespace a name starts with a quote. -/
theorem ScannedName.start (h : ScannedName key name) (rest : List UInt8) :
    ∃ t, apiSkipSpaces (name ++ rest) = 34 :: t := by
  obtain ⟨w₁, chars, w₂, w₃, hw₁, -, -, -, -, rfl⟩ := h
  refine ⟨chars ++ 34 :: (w₂ ++ byte ':' :: w₃) ++ rest, ?_⟩
  rw [List.append_assoc, List.cons_append]
  exact apiSkipSpaces_append hw₁ (by rfl)

/-- So do members before one. -/
theorem ScannedMembers.start (h : ScannedMembers members) (hname : ScannedName key name)
    (rest : List UInt8) : ∃ t, apiSkipSpaces (members ++ (name ++ rest)) = 34 :: t := by
  cases h with
  | nil => exact hname.start rest
  | @cons key' name' value' members hname' _ _ _ =>
    have hassoc : name' ++ (value' ++ members) ++ (name ++ rest) =
        name' ++ (value' ++ (members ++ (name ++ rest))) := by simp
    rw [hassoc]
    exact hname'.start _

/-- A value is skipped together with its separator, before something that starts with a quote. -/
theorem ScannedValue.skip (h : ScannedValue value) (hrest : ∃ t, apiSkipSpaces rest = 34 :: t) :
    isSpace (peek (value ++ rest)) = false ∧ ∃ c, apiSkipValue (value ++ rest) = some c ∧
      apiSkipSpaces (apiPastComma c) = apiSkipSpaces rest := by
  obtain ⟨t, hrest⟩ := hrest
  -- a short string is read into the buffer of 16 bytes that the code throws away
  have hstring {v chars behind : List UInt8} (hchars : ScannedAs v chars) (hlength : v.length < 16) :
      apiSkipValue (34 :: (chars ++ 34 :: behind)) = some behind := by
    have hread : apiParseJsonString 16 (34 :: (chars ++ 34 :: behind)) = some (v, behind) :=
      (apiParseJsonString_iff (by decide)).mpr ⟨chars, hchars, hlength, rfl⟩
    rw [apiSkipValue, if_pos (by rfl), hread]
    rfl
  cases h with
  | @string v chars w hchars hlength hw =>
    refine ⟨rfl, w ++ rest, ?_, ?_⟩
    · rw [List.cons_append, List.append_assoc, List.cons_append]
      exact hstring hchars hlength
    · -- no comma: the cursor stays before the next name
      have hskip : apiSkipSpaces (w ++ rest) = apiSkipSpaces rest :=
        List.dropWhile_append_of_pos hw
      rw [apiPastComma, hskip, hrest]
      rfl
  | @stringComma v chars w hchars hlength hw =>
    refine ⟨rfl, w ++ byte ',' :: rest, ?_, ?_⟩
    · rw [List.cons_append, List.append_assoc, List.cons_append, List.append_assoc,
        List.singleton_append]
      exact hstring hchars hlength
    · rw [apiPastComma, apiSkipSpaces_append hw (by rfl)]
      rfl
  -- anything else is passed over up to a comma or a brace, which the value does not hold
  | @raw r hspace hquote hr =>
    have hassoc : r ++ [byte ','] ++ rest = r ++ byte ',' :: rest := by simp
    have hstop : (r ++ byte ',' :: rest).dropWhile (fun c => c != byte ',' && c != byte '}') =
        byte ',' :: rest := by
      rw [List.dropWhile_append_of_pos fun c hc => inValue_iff.mpr (hr c hc),
        List.dropWhile_cons_of_neg (by simp)]
    rw [hassoc]
    refine ⟨?_, byte ',' :: rest, ?_, rfl⟩
    · cases r with
      | nil => rfl
      | cons c r => exact hspace
    · rw [apiSkipValue, if_neg, hstop]
      cases r with
      | nil => exact nofun
      | cons c r => exact hquote

/-- What a successful round has read. -/
theorem scannedName_of_parse {afterKey afterColon : Cursor}
    (hkey : apiParseJsonString 64 (apiSkipSpaces cursor) = some (key, afterKey))
    (hcolon : (apiSkipSpaces afterKey).head? = some (byte ':'))
    (hvalue : afterColon = apiSkipSpaces ((apiSkipSpaces afterKey).drop 1)) :
    isSpace (peek afterColon) = false ∧ ∃ name, ScannedName key name ∧
      cursor = name ++ afterColon := by
  -- the white space before the name, before the colon and behind it
  obtain ⟨w₁, hw₁, hcursor⟩ := skipSpaces_spec cursor
  obtain ⟨w₂, hw₂, hafterKey⟩ := skipSpaces_spec afterKey
  obtain ⟨w₃, hw₃, hafterColon⟩ := skipSpaces_spec ((apiSkipSpaces afterKey).drop 1)
  obtain ⟨chars, hchars, hlength, hquoted⟩ := (apiParseJsonString_iff (by decide)).mp hkey
  have hskipped := eq_cons_of_head? hcolon
  subst hvalue
  refine ⟨isSpace_peek_skipSpaces _, _, ⟨w₁, chars, w₂, w₃, hw₁, hchars, hlength, hw₂, hw₃, rfl⟩, ?_⟩
  calc
    cursor = w₁ ++ apiSkipSpaces cursor := hcursor
    _ = w₁ ++ 34 :: (chars ++ 34 :: (w₂ ++ apiSkipSpaces afterKey)) := by
      rw [hquoted]
      congr 4
    _ = w₁ ++ 34 :: (chars ++ 34 :: (w₂ ++ byte ':' :: (apiSkipSpaces afterKey).drop 1)) := by
      rw [← hskipped]
    _ = w₁ ++ 34 :: (chars ++ 34 :: (w₂ ++ byte ':' :: (w₃ ++
          apiSkipSpaces ((apiSkipSpaces afterKey).drop 1)))) := by
      rw [← show _ = w₃ ++ apiSkipSpaces _ from hafterColon]
    _ = _ := by simp

/-- Anything but a string is skipped up to a comma or a brace; when a name follows, it was a
comma. -/
private theorem scannedValue_of_raw (hspace : isSpace (peek cursor) = false)
    (hquote : ¬ cursor.head? = some (byte '"'))
    (hnext : ∃ t, apiSkipSpaces
      (apiPastComma (cursor.dropWhile fun c => c != byte ',' && c != byte '}')) = 34 :: t) :
    ∃ value, ScannedValue value ∧
      cursor = value ++ apiPastComma (cursor.dropWhile fun c => c != byte ',' && c != byte '}') := by
  have hsplit := List.takeWhile_append_dropWhile
    (p := fun c => c != byte ',' && c != byte '}') (l := cursor)
  generalize hraw : cursor.takeWhile (fun c => c != byte ',' && c != byte '}') = r at hsplit
  have hr : ∀ c ∈ r, c ≠ byte ',' ∧ c ≠ byte '}' := by
    intro c hc
    rw [← hraw] at hc
    have hkept := List.mem_takeWhile_imp hc
    exact inValue_iff.mp hkept
  obtain ⟨t, hnext⟩ := hnext
  cases hstop : cursor.dropWhile (fun c => c != byte ',' && c != byte '}') with
  | nil =>
    -- nothing behind the value
    rw [hstop] at hnext
    cases hnext
  | cons c rest =>
    rw [hstop] at hsplit hnext
    have hc : c = byte ',' ∨ c = byte '}' := by
      have hhead : ¬ (c != byte ',' && c != byte '}') = true := by
        have hne : cursor.dropWhile (fun c => c != byte ',' && c != byte '}') ≠ [] := by
          rw [hstop]
          exact List.cons_ne_nil _ _
        have hnot := List.head_dropWhile_not (fun c => c != byte ',' && c != byte '}') hne
        simp only [hstop, List.head_cons] at hnot
        rw [hnot]
        exact Bool.false_ne_true
      by_contra hne
      exact hhead (inValue_iff.mpr (not_or.mp hne))
    rcases hc with rfl | rfl
    · refine ⟨r ++ [byte ','], .raw ?_ ?_ hr, ?_⟩
      · cases r with
        | nil => rfl
        | cons d r =>
          rw [← hsplit] at hspace
          exact hspace
      · cases r with
        | nil => exact nofun
        | cons d r =>
          rw [← hsplit] at hquote
          exact hquote
      · rw [List.append_assoc, List.singleton_append, ← hsplit]
        rfl
    · -- the object ends
      cases hnext

/-- A value that was skipped, when a name follows. -/
theorem scannedValue_of_skip {after : Cursor} (hspace : isSpace (peek cursor) = false)
    (hskip : apiSkipValue cursor = some after)
    (hnext : ∃ t, apiSkipSpaces (apiPastComma after) = 34 :: t) :
    ∃ value, ScannedValue value ∧ cursor = value ++ apiPastComma after := by
  unfold apiSkipValue at hskip
  split at hskip
  case isTrue hquote =>
    -- a string: a comma behind it may be there
    obtain ⟨⟨v, after'⟩, hread, heq⟩ := Option.map_eq_some_iff.mp hskip
    obtain rfl : after' = after := heq
    obtain ⟨chars, hchars, hlength, rfl⟩ := (apiParseJsonString_iff (by decide)).mp hread
    obtain ⟨w, hw, hafter⟩ := skipSpaces_spec after'
    have hafter' : after' = w ++ apiSkipSpaces after' := hafter
    unfold apiPastComma
    dsimp only
    split
    case isTrue hcomma =>
      have hskipped := eq_cons_of_head? hcomma
      refine ⟨_, .stringComma hchars hlength hw, ?_⟩
      rw [List.cons_append, List.append_assoc, List.cons_append, List.append_assoc,
        List.singleton_append, ← hskipped, ← hafter']
    case isFalse =>
      refine ⟨_, .string hchars hlength hw, ?_⟩
      rw [List.cons_append, List.append_assoc, List.cons_append, ← hafter']
  case isFalse hquote =>
    obtain rfl := Option.some.inj hskip
    exact scannedValue_of_raw hspace hquote hnext

end Scan

end SqlApi.Server

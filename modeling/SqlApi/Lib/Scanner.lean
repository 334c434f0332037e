import SqlApi.Lib.CString

/-!
# Scanners

Hand-written C parsers work on a `const char **cursor`: each function reads from the
cursor, moves it, and returns whether it found what it looked for. Here the cursor is
the list of bytes from it on, and a scanner returns what it read, `none` for the
return value 0, together with the cursor it leaves behind, on failure too.
-/

namespace SqlApi.Lib

/-- The bytes from the cursor on. -/
abbrev Cursor := List UInt8

/-- A parsing function. -/
abbrev Scanner (α : Type) := Cursor → Option α × Cursor

/-- A character constant. -/
abbrev byte (c : Char) : UInt8 := c.toNat.toUInt8

/-- The characters of identifiers. -/
def isIdent (c : UInt8) : Bool := isAlnum c || c == byte '_'

/-- `while (**cursor != '\0' && isspace(**cursor)) (*cursor)++;` -/
def skipSpaces (cursor : Cursor) : Cursor := cursor.dropWhile isSpace

/-- Past a word, letter case aside. -/
def matchWord : List UInt8 → Cursor → Option Cursor
  | [], start => some start
  | w :: word, start =>
    if toLower (peek start) = toLower w then matchWord word (start.drop 1) else none

/-- A keyword that ends at a token boundary; otherwise the cursor stays. -/
def matchKeyword (keyword : List UInt8) : Scanner Unit := fun cursor =>
  match matchWord keyword cursor with
  | none => (none, cursor)
  | some start => if isIdent (peek start) then (none, cursor) else (some (), start)

/-- One character, after whitespace. -/
def matchChar (expected : UInt8) : Scanner Unit := fun cursor =>
  let cursor := skipSpaces cursor
  if peek cursor = expected then (some (), cursor.drop 1) else (none, cursor)

/-- An identifier for a buffer of this size, after whitespace. A longer one is read to
its end and refused. -/
def parseIdentifier (bufferSize : Nat) : Scanner (List UInt8) := fun cursor =>
  let cursor := skipSpaces cursor
  if isAlpha (peek cursor) || peek cursor == byte '_' then
    let word := cursor.takeWhile isIdent
    (if bufferSize ≤ word.length then none else some word, cursor.dropWhile isIdent)
  else (none, cursor)

/-! ## What scanners accept -/

/-- The same word in any letter case. -/
def SameWord (word text : List UInt8) : Prop := text.map toLower = word.map toLower

instance (word text : List UInt8) : Decidable (SameWord word text) :=
  inferInstanceAs (Decidable (_ = _))

/-- The bytes of a gap between tokens. -/
def Blank (gap : List UInt8) : Prop := ∀ c ∈ gap, isSpace c = true

instance (gap : List UInt8) : Decidable (Blank gap) :=
  inferInstanceAs (Decidable (∀ c ∈ gap, _))

/-- What follows a token does not continue a word. -/
def EndsWord (rest : Cursor) : Prop := isIdent (peek rest) = false

section Accept

variable {word text gap rest : List UInt8}

theorem toLower_eq_zero {c : UInt8} (hc : toLower c = 0) : c = 0 := by
  unfold toLower at hc
  split at hc
  case isFalse => exact hc
  case isTrue hupper =>
    have hrange : 65 ≤ c.toNat ∧ c.toNat ≤ 90 := by
      simpa [UInt8.le_iff_toNat_le] using hupper
    have hsum : (c.toNat + 32) % 256 = 0 := congrArg UInt8.toNat hc
    omega

/-- Whitespace in front is skipped. -/
theorem skipSpaces_append (hgap : Blank gap) (hrest : isSpace (peek rest) = false) :
    skipSpaces (gap ++ rest) = rest := by
  rw [skipSpaces, List.dropWhile_append_of_pos hgap]
  cases rest with
  | nil => rfl
  | cons c rest => rw [List.dropWhile_cons_of_neg (by simpa using hrest)]

theorem isSpace_peek_skipSpaces (cursor : Cursor) : isSpace (peek (skipSpaces cursor)) = false := by
  unfold skipSpaces
  induction cursor with
  | nil => rfl
  | cons c rest ih =>
    cases hc : isSpace c with
    | true => rwa [List.dropWhile_cons_of_pos hc]
    | false =>
      rw [List.dropWhile_cons_of_neg (by simp [hc])]
      exact hc

/-- Skipping twice is skipping once. -/
theorem skipSpaces_skipSpaces (cursor : Cursor) :
    skipSpaces (skipSpaces cursor) = skipSpaces cursor :=
  have hgap : Blank [] := fun _ hc => nomatch hc
  skipSpaces_append hgap (isSpace_peek_skipSpaces cursor)

theorem matchWord_append (htext : SameWord word text) : matchWord word (text ++ rest) = some rest := by
  induction word generalizing text with
  | nil =>
    obtain rfl : text = [] := by simpa [SameWord] using htext
    rfl
  | cons w word ih =>
    cases text with
    | nil => simp [SameWord] at htext
    | cons c text =>
      obtain ⟨hc, htext⟩ : toLower c = toLower w ∧ SameWord word text := by
        simpa [SameWord] using htext
      rw [List.cons_append, matchWord, peek_cons, if_pos hc]
      exact ih htext

/-- A keyword in any letter case is matched. -/
theorem matchKeyword_append (htext : SameWord word text) (hrest : EndsWord rest) :
    matchKeyword word (text ++ rest) = (some (), rest) := by
  rw [matchKeyword, matchWord_append htext]
  dsimp only
  rw [if_neg (by simp [show isIdent (peek rest) = false from hrest])]

/-- A matched word stands in front of the cursor. -/
theorem matchWord_eq_some {cursor start : Cursor} (hword : 0 ∉ word)
    (h : matchWord word cursor = some start) :
    ∃ text, SameWord word text ∧ cursor = text ++ start := by
  induction word generalizing cursor with
  | nil =>
    obtain rfl : cursor = start := Option.some.inj h
    exact ⟨[], rfl, rfl⟩
  | cons w word ih =>
    rw [matchWord] at h
    split at h
    case isFalse => cases h
    case isTrue hc =>
      obtain ⟨hw, hword⟩ : 0 ≠ w ∧ 0 ∉ word := by simpa using hword
      cases cursor with
      | nil =>
        -- nothing but NUL folds to NUL
        exact absurd (toLower_eq_zero hc.symm) hw.symm
      | cons c cursor =>
        obtain ⟨text, htext, rfl⟩ := ih hword h
        exact ⟨c :: text, by simpa [SameWord] using ⟨hc, htext⟩, rfl⟩

theorem matchChar_append {c : UInt8} (hgap : Blank gap) (hc : isSpace c = false) :
    matchChar c (gap ++ c :: rest) = (some (), rest) := by
  have hskip : skipSpaces (gap ++ c :: rest) = c :: rest := skipSpaces_append hgap hc
  unfold matchChar
  rw [hskip]
  simp

/-- Letter case does not matter to being a letter. -/
theorem isAlpha_toLower (c : UInt8) : isAlpha (toLower c) = isAlpha c := by
  unfold toLower
  split
  case isFalse => rfl
  case isTrue hupper =>
    have hrange : 65 ≤ c.toNat ∧ c.toNat ≤ 90 := by
      simpa [UInt8.le_iff_toNat_le] using hupper
    have hsum : (c + 32).toNat = (c.toNat + 32) % 256 := rfl
    have hlower : isAlpha (c + 32) = true := by
      simp [isAlpha, UInt8.le_iff_toNat_le, hsum]
      omega
    have halpha : isAlpha c = true := by
      simp [isAlpha, UInt8.le_iff_toNat_le]
      omega
    rw [hlower, halpha]

/-- A word of letters is one in any letter case. -/
theorem SameWord.isAlpha (htext : SameWord word text) (hword : ∀ c ∈ word, isAlpha c = true) :
    ∀ c ∈ text, isAlpha c = true := by
  intro c hc
  have hmem : toLower c ∈ word.map toLower := htext ▸ List.mem_map_of_mem hc
  obtain ⟨w, hw, heq⟩ := List.mem_map.mp hmem
  rw [← isAlpha_toLower, ← heq, isAlpha_toLower]
  exact hword w hw

theorem SameWord.length_eq (htext : SameWord word text) : text.length = word.length := by
  simpa using congrArg List.length htext

theorem isIdent_of_isAlpha {c : UInt8} (hc : isAlpha c = true) : isIdent c = true := by
  simp [isIdent, isAlnum, hc]

/-- Letters are no whitespace. -/
theorem isSpace_of_isAlpha {c : UInt8} (hc : isAlpha c = true) : isSpace c = false := by
  have hrange : (65 ≤ c.toNat ∧ c.toNat ≤ 90) ∨ (97 ≤ c.toNat ∧ c.toNat ≤ 122) := by
    simpa [isAlpha, UInt8.le_iff_toNat_le] using hc
  have hne : c ≠ 32 := fun h => by
    rw [h] at hrange
    simp at hrange
  simp [isSpace, hne, UInt8.le_iff_toNat_le]
  omega

/-- A word of letters that fits the buffer is read as it stands. -/
theorem parseIdentifier_append {bufferSize : Nat} (hgap : Blank gap) (hne : text ≠ [])
    (htext : ∀ c ∈ text, isAlpha c = true) (hlen : text.length < bufferSize)
    (hrest : EndsWord rest) :
    parseIdentifier bufferSize (gap ++ (text ++ rest)) = (some text, rest) := by
  obtain ⟨c, cs, rfl⟩ := List.exists_cons_of_ne_nil hne
  have hc := htext c (List.mem_cons_self ..)
  -- the white space in front is passed over and the letters are taken as a whole
  have hskip : skipSpaces (gap ++ (c :: cs ++ rest)) = c :: cs ++ rest :=
    skipSpaces_append hgap (isSpace_of_isAlpha hc)
  have hident : ∀ d ∈ c :: cs, isIdent d = true := fun d hd => isIdent_of_isAlpha (htext d hd)
  have htake : (c :: cs ++ rest).takeWhile isIdent = c :: cs := by
    rw [List.takeWhile_append_of_pos hident]
    cases rest with
    | nil => simp
    | cons d rest => simp [show isIdent d = false from hrest]
  have hdrop : (c :: cs ++ rest).dropWhile isIdent = rest := by
    rw [List.dropWhile_append_of_pos hident]
    cases rest with
    | nil => simp
    | cons d rest => simp [show isIdent d = false from hrest]
  unfold parseIdentifier
  rw [hskip]
  dsimp only
  rw [htake, hdrop, if_neg (not_le.mpr hlen), if_pos (by simp [hc])]

/-! ## What scanners found -/

/-- The whitespace that is skipped. -/
theorem skipSpaces_spec (cursor : Cursor) : ∃ gap, Blank gap ∧ cursor = gap ++ skipSpaces cursor :=
  ⟨cursor.takeWhile isSpace, fun _ hc => List.mem_takeWhile_imp hc,
    (List.takeWhile_append_dropWhile).symm⟩

theorem matchKeyword_eq_some {cursor : Cursor} (hword : 0 ∉ word)
    (h : matchKeyword word cursor = (some (), rest)) :
    ∃ text, SameWord word text ∧ EndsWord rest ∧ cursor = text ++ rest := by
  unfold matchKeyword at h
  cases hmatch : matchWord word cursor with
  | none => simp [hmatch] at h
  | some start =>
    rw [hmatch] at h
    dsimp only at h
    split at h
    case isTrue => simp at h
    case isFalse hend =>
      obtain rfl : start = rest := (Prod.mk.inj h).2
      obtain ⟨text, htext, heq⟩ := matchWord_eq_some hword hmatch
      exact ⟨text, htext, Bool.eq_false_iff.mpr hend, heq⟩

theorem matchChar_eq_some {cursor : Cursor} {c : UInt8} (hc : c ≠ 0)
    (h : matchChar c cursor = (some (), rest)) : ∃ gap, Blank gap ∧ cursor = gap ++ c :: rest := by
  obtain ⟨gap, hgap, heq⟩ := skipSpaces_spec cursor
  unfold matchChar at h
  dsimp only at h
  split at h
  case isFalse => simp at h
  case isTrue hpeek =>
    obtain rfl : (skipSpaces cursor).drop 1 = rest := (Prod.mk.inj h).2
    refine ⟨gap, hgap, ?_⟩
    rw [← eq_cons_of_peek hpeek hc]
    exact heq

theorem endsWord_dropWhile (t : Cursor) : EndsWord (t.dropWhile isIdent) := by
  induction t with
  | nil => rfl
  | cons c t ih =>
    cases hc : isIdent c with
    | true => rwa [List.dropWhile_cons_of_pos hc]
    | false =>
      rw [List.dropWhile_cons_of_neg (by simp [hc])]
      exact hc

/-- An identifier is read to its end. -/
theorem parseIdentifier_eq_some {cursor : Cursor} {bufferSize : Nat}
    (h : parseIdentifier bufferSize cursor = (some text, rest)) :
    ∃ gap, Blank gap ∧ (∀ c ∈ text, isIdent c = true) ∧ EndsWord rest ∧
      cursor = gap ++ (text ++ rest) := by
  obtain ⟨gap, hgap, heq⟩ := skipSpaces_spec cursor
  unfold parseIdentifier at h
  dsimp only at h
  split at h
  case isFalse => simp at h
  case isTrue =>
    split at h
    case isTrue => simp at h
    -- a word that begins with a letter and fits the buffer
    case isFalse =>
      obtain ⟨htext, rfl⟩ := Prod.mk.inj h
      obtain rfl := Option.some.inj htext
      refine ⟨gap, hgap, fun c hc => List.mem_takeWhile_imp hc, endsWord_dropWhile _, ?_⟩
      rw [List.takeWhile_append_dropWhile]
      exact heq

end Accept

/-! ## Moving forward -/

/-- What a scanner leaves is the end of what it was given, on failure too. -/
def Advances {α : Type} (scanner : Scanner α) : Prop := ∀ cursor, (scanner cursor).2 <:+ cursor

section Advance

variable {word : List UInt8} {cursor start : Cursor}

theorem skipSpaces_suffix (cursor : Cursor) : skipSpaces cursor <:+ cursor :=
  List.dropWhile_suffix _

theorem matchWord_suffix (h : matchWord word cursor = some start) : start <:+ cursor := by
  induction word generalizing cursor with
  | nil =>
    obtain rfl := Option.some.inj h
    exact List.suffix_rfl
  | cons w word ih =>
    unfold matchWord at h
    split at h
    · exact (ih h).trans (List.drop_suffix 1 cursor)
    · cases h

theorem advances_matchKeyword (keyword : List UInt8) : Advances (matchKeyword keyword) := by
  intro cursor
  unfold matchKeyword
  split
  next => exact List.suffix_rfl
  next start hmatch =>
    split
    · exact List.suffix_rfl
    · exact matchWord_suffix hmatch

theorem advances_matchChar (expected : UInt8) : Advances (matchChar expected) := by
  intro cursor
  have hskip := skipSpaces_suffix cursor
  unfold matchChar
  dsimp only
  split
  · exact (List.drop_suffix 1 _).trans hskip
  · exact hskip

theorem advances_parseIdentifier (bufferSize : Nat) : Advances (parseIdentifier bufferSize) := by
  intro cursor
  have hskip := skipSpaces_suffix cursor
  unfold parseIdentifier
  dsimp only
  split
  · exact (List.dropWhile_suffix _).trans hskip
  · exact hskip

/-- The end pointer of `strtol`. -/
theorem strtol_suffix (s : List UInt8) : (strtol s).2 <:+ s := by
  unfold strtol
  cases hscan : scanInteger s with
  | none => exact List.suffix_refl s
  | some r =>
    obtain ⟨negative, n, rest⟩ := r
    exact scanInteger_suffix hscan

end Advance

end SqlApi.Lib

import SqlApi.Lib.JsonEnds
import SqlApi.Server.JsonBody

/-!
# Queries in texts that are no objects

The texts in which the scanner finds a query have a grammar: the one of JSON objects, with
productions for what the scanner takes no notice of. A derivation lists these slips.

A derivation without slips is an object with the query. And where an object is derived, there are
no slips but one: the scanner may have lost its way in a nested value, and have found the query
there.
-/

namespace SqlApi.Server

open SqlApi.Lib SqlApi.Core

/-! ## Slips -/

/-- What the scanner takes no notice of. -/
inductive JsonSlip where
  /-- A vertical tab or a form feed between tokens. -/
  | space
  /-- A control character in a name or a string, as it is. -/
  | control
  /-- No comma behind the string of a member. -/
  | comma
  /-- Up to the next comma there is no value. -/
  | value
  /-- An array or an object is broken off at the first comma in it. -/
  | nested
  /-- The text behind the query does not complete the object. -/
  | rest
  deriving DecidableEq, Repr

/-- The slips in whitespace. -/
def spaceSlips (w : List UInt8) : List JsonSlip := if w.all isJsonSpace then [] else [.space]

/-- The slips in the characters of a string. -/
def controlSlips (chars : List UInt8) : List JsonSlip :=
  if chars.all (32 ≤ ·) then [] else [.control]

/-- A name and its colon. -/
inductive LooseName : List JsonSlip → List UInt8 → List UInt8 → Prop
  | mk {key w₁ chars w₂ w₃ : List UInt8} :
      Blank w₁ → ScannedAs key chars → key.length < 64 → Blank w₂ → Blank w₃ →
      LooseName (spaceSlips w₁ ++ (controlSlips chars ++ (spaceSlips w₂ ++ spaceSlips w₃))) key
        (w₁ ++ 34 :: (chars ++ 34 :: (w₂ ++ 58 :: w₃)))

/-- A value and whitespace behind it. -/
def SpacedValue (text : List UInt8) : Prop :=
  ∃ value w, JsonText value ∧ JsonWs w ∧ text = value ++ w

/-- What is skipped as a value that is no string: it goes up to a comma or a brace. -/
structure RawValue (text : List UInt8) : Prop where
  space : isSpace (peek text) = false
  quote : text.head? ≠ some 34
  run : ∀ c ∈ text, c ≠ 44 ∧ c ≠ 125

/-- The value of a member, with what separates it from the next one. -/
inductive LooseValue : List JsonSlip → List UInt8 → Prop
  | string {v chars w : List UInt8} : ScannedAs v chars → v.length < 16 → Blank w →
      LooseValue (controlSlips chars ++ spaceSlips w) (34 :: (chars ++ 34 :: (w ++ [44])))
  | noComma {v chars w : List UInt8} : ScannedAs v chars → v.length < 16 → Blank w →
      LooseValue (.comma :: (controlSlips chars ++ spaceSlips w)) (34 :: (chars ++ 34 :: w))
  | value {text : List UInt8} : RawValue text → SpacedValue text → LooseValue [] (text ++ [44])
  | junk {text : List UInt8} : RawValue text → ¬ SpacedValue text →
      text.head? ≠ some 91 → text.head? ≠ some 123 → LooseValue [.value] (text ++ [44])
  /-- 91 opens an array, 123 an object. -/
  | nested {text : List UInt8} : RawValue text → ¬ SpacedValue text →
      text.head? = some 91 ∨ text.head? = some 123 → LooseValue [.nested] (text ++ [44])

/-- The members before the query. -/
inductive LooseMembers : List JsonSlip → List UInt8 → Prop
  | nil : LooseMembers [] []
  | cons {inName inValue slips : List JsonSlip} {key name value members : List UInt8} :
      LooseName inName key name → cstr key ≠ bytes "query" → LooseValue inValue value →
      LooseMembers slips members →
      LooseMembers (inName ++ (inValue ++ slips)) (name ++ (value ++ members))

section Loose

variable {text key name value members q body rest : List UInt8} {slips : List JsonSlip}

theorem scannedName_iff : ScannedName key text ↔ ∃ slips, LooseName slips key text := by
  constructor
  · rintro ⟨w₁, chars, w₂, w₃, hw₁, hchars, hlength, hw₂, hw₃, rfl⟩
    exact ⟨_, .mk hw₁ hchars hlength hw₂ hw₃⟩
  · rintro ⟨slips, hname⟩
    cases hname with
    | mk hw₁ hchars hlength hw₂ hw₃ => exact ⟨_, _, _, _, hw₁, hchars, hlength, hw₂, hw₃, rfl⟩

theorem scannedValue_iff : ScannedValue text ↔ ∃ slips, LooseValue slips text := by
  constructor
  · intro h
    cases h with
    | string hchars hlength hw => exact ⟨_, .noComma hchars hlength hw⟩
    | stringComma hchars hlength hw => exact ⟨_, .string hchars hlength hw⟩
    -- a value without quotes is a JSON value, a container, or junk
    | @raw r hspace hquote hrun =>
      have hraw : RawValue r := ⟨hspace, hquote, hrun⟩
      by_cases hvalue : SpacedValue r
      · exact ⟨[], .value hraw hvalue⟩
      by_cases hnested : r.head? = some 91 ∨ r.head? = some 123
      · exact ⟨[.nested], .nested hraw hvalue hnested⟩
      · obtain ⟨harray, hobject⟩ := not_or.mp hnested
        exact ⟨[.value], .junk hraw hvalue harray hobject⟩
  · rintro ⟨slips, hvalue⟩
    cases hvalue with
    | string hchars hlength hw => exact .stringComma hchars hlength hw
    | noComma hchars hlength hw => exact .string hchars hlength hw
    | value hraw _ => exact .raw hraw.space hraw.quote hraw.run
    | junk hraw _ _ _ => exact .raw hraw.space hraw.quote hraw.run
    | nested hraw _ _ => exact .raw hraw.space hraw.quote hraw.run

theorem scannedMembers_iff : ScannedMembers text ↔ ∃ slips, LooseMembers slips text := by
  constructor
  · intro h
    induction h with
    | nil => exact ⟨[], .nil⟩
    | cons hname hkey hvalue _ ih =>
      obtain ⟨inName, hname⟩ := scannedName_iff.mp hname
      obtain ⟨inValue, hvalue⟩ := scannedValue_iff.mp hvalue
      obtain ⟨slips, hmembers⟩ := ih
      exact ⟨_, .cons hname hkey hvalue hmembers⟩
  · -- the slips only say what was deviated from, not what is read
    rintro ⟨slips, h⟩
    induction h with
    | nil => exact .nil
    | cons hname hkey hvalue _ ih =>
      exact .cons (scannedName_iff.mpr ⟨_, hname⟩) hkey (scannedValue_iff.mpr ⟨_, hvalue⟩) ih

/-- A value does not start with whitespace. -/
private theorem LooseValue.start (h : LooseValue slips text) (rest : List UInt8) :
    ∃ c t, text ++ rest = c :: t ∧ isSpace c = false := by
  have hraw {text : List UInt8} (hraw : RawValue text) :
      ∃ c t, text ++ [44] ++ rest = c :: t ∧ isSpace c = false := by
    cases text with
    | nil => exact ⟨44, rest, rfl, rfl⟩
    | cons c text => exact ⟨c, text ++ [44] ++ rest, rfl, hraw.space⟩
  cases h with
  | string => exact ⟨34, _, rfl, rfl⟩
  | noComma => exact ⟨34, _, rfl, rfl⟩
  | value h _ => exact hraw h
  | junk h _ _ _ => exact hraw h
  | nested h _ _ => exact hraw h

/-- Whatever the members, the next name starts with a quote. -/
private theorem LooseMembers.quote {inName : List JsonSlip} (h : LooseMembers slips text)
    (hname : LooseName inName key name) (rest : List UInt8) :
    ∃ gap t, Blank gap ∧ text ++ (name ++ rest) = gap ++ 34 :: t := by
  obtain ⟨t, hskip⟩ := (scannedMembers_iff.mpr ⟨_, h⟩).start (scannedName_iff.mpr ⟨_, hname⟩) rest
  obtain ⟨gap, hgap, hsplit⟩ := skipSpaces_spec (text ++ (name ++ rest))
  rw [show skipSpaces (text ++ (name ++ rest)) = 34 :: t from hskip] at hsplit
  exact ⟨gap, t, hgap, hsplit⟩

end Loose

/-! ## What is executed -/

/-- The window of this request is `body`. -/
structure QueryWindow (memory body : List UInt8) (request : APIRequest) (start : Nat) : Prop where
  head : apiParseHead memory = .ok (request, start)
  query : request.isQuery = true
  length : request.contentLength ≠ 0
  inside : start + request.contentLength ≤ memory.length
  window : (memory.drop start).take request.contentLength = body

section Objects

variable {memory body : List UInt8} {request : APIRequest} {start : Nat}

/-- A request is refused when no query is found. -/
theorem QueryWindow.refused (h : QueryWindow memory body request start)
    (hnone : apiExtractQueryString 1024 body = none) :
    ∃ message, apiParseHttpRequest memory = some (.error message) := by
  unfold apiParseHttpRequest
  rw [h.head]
  dsimp only
  rw [if_pos h.query, if_neg h.length, if_neg (not_lt.mpr h.inside), h.window, hnone]
  exact ⟨_, rfl⟩

end Objects

end SqlApi.Server

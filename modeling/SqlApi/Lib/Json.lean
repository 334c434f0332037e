import SqlApi.Lib.CString

/-!
# JSON

A strict decoder: it accepts the JSON grammar and nothing more. Strings are bytes; those
from 128 on are taken as they are.

`Reads v s` says that the decoder reads the value `v` where the text `s` stands, whatever
follows. The rules for it follow the grammar, so that a text is read as what its parts are
read as.
-/

namespace SqlApi.Lib

/-- A JSON value. A number is `mantissa * 10 ^ exponent`; the members of an object are in the
order of the text. -/
inductive Json where
  | null
  | bool (b : Bool)
  | number (mantissa exponent : Int)
  | string (text : List UInt8)
  | array (items : List Json)
  | object (members : List (List UInt8 × Json))

/-! ## Decoder -/

/-- Whitespace between tokens. -/
def isJsonSpace (c : UInt8) : Bool := c == 32 || c == 9 || c == 10 || c == 13

def jsonSkip (s : List UInt8) : List UInt8 := s.dropWhile isJsonSpace

/-- A structural character, after whitespace. -/
def jsonToken (c : UInt8) (s : List UInt8) : Option (List UInt8) :=
  match jsonSkip s with
  | [] => none
  | d :: rest => if d = c then some rest else none

/-- What a byte stands for after a backslash, `\u` aside. -/
def jsonEscape (c : UInt8) : Option UInt8 :=
  if c = 34 ∨ c = 92 ∨ c = 47 then some c
  else if c = 98 then some 8
  else if c = 102 then some 12
  else if c = 110 then some 10
  else if c = 114 then some 13
  else if c = 116 then some 9
  else none

/-- A hexadecimal digit. -/
def hexValue (c : UInt8) : Option Nat :=
  if isDigit c then some (c.toNat - 48)
  else if 97 ≤ c ∧ c ≤ 102 then some (c.toNat - 87)
  else if 65 ≤ c ∧ c ≤ 70 then some (c.toNat - 55)
  else none

/-- Four of them. -/
def jsonHex : List UInt8 → Option (Nat × List UInt8)
  | a :: b :: c :: d :: rest => do
    let a ← hexValue a
    let b ← hexValue b
    let c ← hexValue c
    let d ← hexValue d
    pure (((a * 16 + b) * 16 + c) * 16 + d, rest)
  | _ => none

/-- The UTF-8 encoding of a code point. -/
def utf8 (n : Nat) : List UInt8 :=
  if n < 0x80 then [n.toUInt8]
  else if n < 0x800 then [(0xC0 + n / 64).toUInt8, (0x80 + n % 64).toUInt8]
  else if n < 0x10000 then
    [(0xE0 + n / 4096).toUInt8, (0x80 + n / 64 % 64).toUInt8, (0x80 + n % 64).toUInt8]
  else
    [(0xF0 + n / 262144).toUInt8, (0x80 + n / 4096 % 64).toUInt8, (0x80 + n / 64 % 64).toUInt8,
      (0x80 + n % 64).toUInt8]

/-- What follows `\u`: a code point, or the first half of a surrogate pair with the second. -/
def jsonUnicode (s : List UInt8) : Option (List UInt8 × List UInt8) := do
  let (high, rest) ← jsonHex s
  if high < 0xD800 ∨ 0xE000 ≤ high then pure (utf8 high, rest)
  else if high < 0xDC00 then
    match rest with
    | 92 :: 117 :: rest => do
      let (low, rest) ← jsonHex rest
      if 0xDC00 ≤ low ∧ low < 0xE000 then
        pure (utf8 (0x10000 + (high - 0xD800) * 0x400 + (low - 0xDC00)), rest)
      else none
    | _ => none
  else none

/-- One character of a string; control characters have to be escaped. -/
def jsonChar : List UInt8 → Option (List UInt8 × List UInt8)
  | [] => none
  | c :: rest =>
    if c = 92 then
      match rest with
      | [] => none
      | e :: rest =>
        if e = 117 then jsonUnicode rest else (jsonEscape e).map fun c => ([c], rest)
    else if c < 32 ∨ c = 34 then none
    else some ([c], rest)

/-- A string after its opening quote. -/
def jsonString : (fuel : Nat) → List UInt8 → Option (List UInt8 × List UInt8)
  | 0, _ => none
  | fuel + 1, s =>
    if s.head? = some 34 then some ([], s.drop 1)
    else do
      let (c, rest) ← jsonChar s
      let (text, rest) ← jsonString fuel rest
      pure (c ++ text, rest)

/-- At least one digit. -/
def jsonDigits (s : List UInt8) : Option (List UInt8 × List UInt8) :=
  if s.takeWhile isDigit = [] then none else some (s.takeWhile isDigit, s.dropWhile isDigit)

/-- The exponent of a number, when there is one; 69 and 101 are the two letters. -/
def jsonExponent (s : List UInt8) : Option (Int × List UInt8) :=
  if s.head? = some 69 ∨ s.head? = some 101 then do
    let sign := (s.drop 1).head?
    let unsigned := if sign = some 45 ∨ sign = some 43 then s.drop 2 else s.drop 1
    let (digits, rest) ← jsonDigits unsigned
    pure (if sign = some 45 then -digitsValue digits else digitsValue digits, rest)
  else some (0, s)

/-- A number: no sign but a minus, no leading zero, digits on both sides of the point. -/
def jsonNumber (s : List UInt8) : Option (Json × List UInt8) := do
  let negative := s.head? = some 45
  let (digits, rest) ← jsonDigits (if negative then s.drop 1 else s)
  if digits.head? = some 48 ∧ 1 < digits.length then none
  else do
    let (fraction, rest) ←
      if rest.head? = some 46 then jsonDigits (rest.drop 1) else some ([], rest)
    let (exponent, rest) ← jsonExponent rest
    let mantissa : Int := digitsValue (digits ++ fraction)
    pure (.number (if negative then -mantissa else mantissa) (exponent - fraction.length), rest)

/-- Items with commas between them, up to the closing bracket. -/
def jsonSeparated {α : Type} (item : List UInt8 → Option (α × List UInt8)) (close : UInt8) :
    (fuel : Nat) → List UInt8 → Option (List α × List UInt8)
  | 0, _ => none
  | fuel + 1, s => do
    let (a, rest) ← item s
    match jsonSkip rest with
    | [] => none
    | c :: rest =>
      if c = 44 then do
        let (items, rest) ← jsonSeparated item close fuel rest
        pure (a :: items, rest)
      else if c = close then pure ([a], rest)
      else none

/-- The items of an array or an object, after the opening bracket. -/
def jsonList {α : Type} (item : List UInt8 → Option (α × List UInt8)) (close : UInt8) (fuel : Nat)
    (s : List UInt8) : Option (List α × List UInt8) :=
  match jsonToken close s with
  | some rest => some ([], rest)
  | none => jsonSeparated item close fuel s

/-- A name, a colon and a value. -/
def jsonMember (value : List UInt8 → Option (Json × List UInt8)) (s : List UInt8) :
    Option ((List UInt8 × Json) × List UInt8) := do
  let rest ← jsonToken 34 s
  let (name, rest) ← jsonString rest.length rest
  let rest ← jsonToken 58 rest
  let (v, rest) ← value rest
  pure ((name, v), rest)

/-- A literal. -/
def jsonLiteral (word : List UInt8) (v : Json) (s : List UInt8) : Option (Json × List UInt8) :=
  if word <+: s then some (v, s.drop word.length) else none

/-- A value; 123, 91 and 34 open an object, an array and a string. -/
def jsonValue : (fuel : Nat) → List UInt8 → Option (Json × List UInt8)
  | 0, _ => none
  | fuel + 1, s =>
    match jsonSkip s with
    | [] => none
    | c :: rest =>
      if c = 123 then
        (jsonList (jsonMember (jsonValue fuel)) 125 fuel rest).map fun r => (.object r.1, r.2)
      else if c = 91 then (jsonList (jsonValue fuel) 93 fuel rest).map fun r => (.array r.1, r.2)
      else if c = 34 then (jsonString rest.length rest).map fun r => (.string r.1, r.2)
      else if c = 110 then jsonLiteral (bytes "null") .null (c :: rest)
      else if c = 116 then jsonLiteral (bytes "true") (.bool true) (c :: rest)
      else if c = 102 then jsonLiteral (bytes "false") (.bool false) (c :: rest)
      else jsonNumber (c :: rest)

/-- A JSON text is one value. -/
def jsonDecode (s : List UInt8) : Option Json := do
  let (v, rest) ← jsonValue s.length s
  if jsonSkip rest = [] then pure v else none

/-! ## Texts that are read -/

/-- The next byte does not continue a number. -/
def EndsNumber (rest : List UInt8) : Prop :=
  ∀ c, rest.head? = some c → isDigit c = false ∧ c ≠ 46 ∧ c ≠ 69 ∧ c ≠ 101

/-- Wherever this text stands, the value is read. -/
def Reads (v : Json) (s : List UInt8) : Prop :=
  ∀ fuel rest, s.length ≤ fuel → EndsNumber rest → jsonValue fuel (s ++ rest) = some (v, rest)

/-- In a string, this text is read as the byte. -/
def ReadsChar (c : UInt8) (e : List UInt8) : Prop :=
  ∀ rest, jsonChar (e ++ rest) = some ([c], rest)

section Reads

variable {v : Json} {s rest : List UInt8}

theorem EndsNumber.nil : EndsNumber [] := nofun

/-- What is read is the value of the text. -/
theorem Reads.decode (h : Reads v s) : jsonDecode s = some v := by
  have hvalue := h s.length [] le_rfl .nil
  rw [List.append_nil] at hvalue
  unfold jsonDecode
  rw [hvalue]
  rfl

/-! ### Strings -/

theorem jsonString_flatMap (escape : UInt8 → List UInt8)
    (hescape : ∀ c ∈ s, ReadsChar c (escape c)) (fuel : Nat)
    (hfuel : (s.flatMap escape).length < fuel) (rest : List UInt8) :
    jsonString fuel (s.flatMap escape ++ 34 :: rest) = some (s, rest) := by
  obtain ⟨fuel, rfl⟩ : ∃ k, fuel = k + 1 := Nat.exists_eq_add_one.mpr (by omega)
  induction s generalizing fuel with
  | nil => rfl
  | cons c s ih =>
    obtain ⟨hc, hs⟩ := List.forall_mem_cons.mp hescape
    -- an escape is not empty, and it does not start with a quote
    obtain ⟨d, e, hde⟩ : ∃ d e, escape c = d :: e := by
      refine List.exists_cons_of_ne_nil fun hnil => ?_
      have hchar := hc []
      rw [hnil] at hchar
      cases hchar
    have hquote : d ≠ 34 := by
      rintro rfl
      have hchar := hc []
      rw [hde] at hchar
      cases hchar
    rw [List.flatMap_cons, List.append_assoc, jsonString, hc]
    rw [List.flatMap_cons, hde, List.length_append, List.length_cons] at hfuel
    obtain ⟨fuel, rfl⟩ : ∃ k, fuel = k + 1 := Nat.exists_eq_add_one.mpr (by omega)
    rw [if_neg (by rw [hde]; simpa using hquote)]
    simp only [Option.bind_eq_bind, Option.bind_some]
    rw [ih hs fuel (by omega)]
    rfl

/-- A string whose bytes are escaped one by one. -/
theorem reads_string {escape : UInt8 → List UInt8} (hescape : ∀ c ∈ s, ReadsChar c (escape c)) :
    Reads (.string s) (34 :: (s.flatMap escape ++ [34])) := by
  intro fuel rest hfuel _
  obtain ⟨fuel, rfl⟩ : ∃ k, fuel = k + 1 :=
    Nat.exists_eq_add_one.mpr (by rw [List.length_cons] at hfuel; omega)
  have hrest : s.flatMap escape ++ [34] ++ rest = s.flatMap escape ++ 34 :: rest := by simp
  have hstring := jsonString_flatMap escape hescape
    (s.flatMap escape ++ 34 :: rest).length (by simp) rest
  rw [List.cons_append, hrest]
  change Option.map _ (jsonString _ (s.flatMap escape ++ 34 :: rest)) = _
  rw [hstring]
  rfl

/-! ### Literals and numbers -/

private theorem reads_literal {word : List UInt8} (hne : word ≠ [])
    (hvalue : ∀ fuel rest,
      jsonValue (fuel + 1) (word ++ rest) = jsonLiteral word v (word ++ rest)) :
    Reads v word := by
  intro fuel rest hfuel _
  have hpos := List.length_pos_iff.mpr hne
  obtain ⟨fuel, rfl⟩ : ∃ k, fuel = k + 1 := Nat.exists_eq_add_one.mpr (by omega)
  rw [hvalue, jsonLiteral, if_pos (List.prefix_append ..), List.drop_left]

theorem reads_true : Reads (.bool true) (bytes "true") :=
  reads_literal (by decide) fun _ _ => rfl

theorem reads_false : Reads (.bool false) (bytes "false") :=
  reads_literal (by decide) fun _ _ => rfl

/-- All digits up to the end of the number are read. -/
theorem jsonDigits_append {digits : List UInt8} (hne : digits ≠ [])
    (hdigits : ∀ d ∈ digits, isDigit d = true) (hrest : EndsNumber rest) :
    jsonDigits (digits ++ rest) = some (digits, rest) := by
  have htake : (digits ++ rest).takeWhile isDigit = digits := by
    rw [List.takeWhile_append_of_pos hdigits]
    cases rest with
    | nil => simp
    | cons c rest => simp [(hrest c rfl).1]
  have hdrop : (digits ++ rest).dropWhile isDigit = rest := by
    rw [List.dropWhile_append_of_pos hdigits]
    cases rest with
    | nil => simp
    | cons c rest => simp [(hrest c rfl).1]
  rw [jsonDigits, htake, hdrop, if_neg hne]

/-- An integer without leading zeros is a number of its own. -/
theorem jsonNumber_append {digits : List UInt8} (hne : digits ≠ [])
    (hdigits : ∀ d ∈ digits, isDigit d = true) (hzero : digits.head? = some 48 → digits.length = 1)
    (hrest : EndsNumber rest) (negative : Bool) :
    jsonNumber ((if negative then [45] else []) ++ digits ++ rest) =
      some (.number (if negative then -digitsValue digits else digitsValue digits) 0, rest) := by
  -- no leading zero, no point and no exponent: each of the tests of the reader fails
  have hlead : ¬ (digits.head? = some 48 ∧ 1 < digits.length) := by
    rintro ⟨hhead, hlength⟩
    exact hlength.ne' (hzero hhead)
  have hpoint : rest.head? ≠ some 46 := fun h => (hrest 46 h).2.1 rfl
  have hletter : ¬ (rest.head? = some 69 ∨ rest.head? = some 101) := by
    rintro (h | h)
    · exact (hrest 69 h).2.2.1 rfl
    · exact (hrest 101 h).2.2.2 rfl
  have hread := jsonDigits_append hne hdigits hrest
  have hsign : ((if negative then [45] else []) ++ digits ++ rest).head? = some 45 ↔
      negative = true := by
    cases negative with
    | true => simp
    | false =>
      obtain ⟨d, ds, rfl⟩ := List.exists_cons_of_ne_nil hne
      have hd := (isDigit_spec (hdigits d (List.mem_cons_self ..))).2.1
      simpa using hd
  have hunsigned : (if negative = true then
      ((if negative then [45] else []) ++ digits ++ rest).drop 1
      else (if negative then [45] else []) ++ digits ++ rest) = digits ++ rest := by
    cases negative <;> rfl
  unfold jsonNumber jsonExponent
  simp only [hsign, hunsigned, hread, if_neg hlead, if_neg hpoint, if_neg hletter,
    Option.bind_eq_bind, Option.bind_some, Option.pure_def, List.append_nil, List.length_nil]
  cases negative <;> simp

theorem reads_decimal (n : Int) : Reads (.number n 0) (decimal n) := by
  obtain ⟨digits, hne, hdigits, hzero, hvalue, hdecimal⟩ := decimal_spec n
  intro fuel rest hfuel hrest
  have hnumber := jsonNumber_append hne hdigits hzero hrest (decide (n < 0))
  have hn : (if n < 0 then -(digitsValue digits : Int) else digitsValue digits) = n := by
    rw [hvalue]
    split <;> omega
  simp only [decide_eq_true_eq, ← hdecimal, hn] at hnumber
  -- the first byte is a digit or a minus, so it opens nothing else
  obtain ⟨c, s, hcs, hc⟩ : ∃ c s, decimal n = c :: s ∧ (isDigit c = true ∨ c = 45) := by
    obtain ⟨d, ds, rfl⟩ := List.exists_cons_of_ne_nil hne
    rw [hdecimal]
    split
    · exact ⟨45, d :: ds, rfl, .inr rfl⟩
    · exact ⟨d, ds, rfl, .inl (hdigits d (List.mem_cons_self ..))⟩
  have hother : isJsonSpace c = false ∧ c ≠ 123 ∧ c ≠ 91 ∧ c ≠ 34 ∧ c ≠ 110 ∧ c ≠ 116 ∧
      c ≠ 102 := by
    rcases hc with hc | rfl
    · have hrange : 48 ≤ c.toNat ∧ c.toNat ≤ 57 := by
        simpa [isDigit, UInt8.le_iff_toNat_le] using hc
      have hdiffers (d : UInt8) (hd : d.toNat < 48 ∨ 57 < d.toNat) : c ≠ d := by
        rintro rfl
        omega
      refine ⟨?_, hdiffers _ (by decide), hdiffers _ (by decide), hdiffers _ (by decide),
        hdiffers _ (by decide), hdiffers _ (by decide), hdiffers _ (by decide)⟩
      simp [isJsonSpace, hdiffers 32 (by decide), hdiffers 9 (by decide), hdiffers 10 (by decide),
        hdiffers 13 (by decide)]
    · decide
  obtain ⟨hspace, h₁, h₂, h₃, h₄, h₅, h₆⟩ := hother
  obtain ⟨fuel, rfl⟩ : ∃ k, fuel = k + 1 :=
    Nat.exists_eq_add_one.mpr (by rw [hcs, List.length_cons] at hfuel; omega)
  have hskip : jsonSkip (decimal n ++ rest) = c :: (s ++ rest) := by
    rw [hcs, List.cons_append, jsonSkip, List.dropWhile_cons_of_neg (by simp [hspace])]
  rw [jsonValue, hskip]
  dsimp only
  rw [if_neg h₁, if_neg h₂, if_neg h₃, if_neg h₄, if_neg h₅, if_neg h₆, ← List.cons_append, ← hcs]
  exact hnumber

/-! ### Arrays and objects -/

/-- Wherever this text stands, the item is read. -/
def ReadsItem {α : Type} (item : List UInt8 → Option (α × List UInt8)) (a : α) (s : List UInt8) :
    Prop := ∀ rest, EndsNumber rest → item (s ++ rest) = some (a, rest)

section Items

variable {α : Type} {item : List UInt8 → Option (α × List UInt8)} {close : UInt8}
  {parts : List (α × List UInt8)} {fuel : Nat}

private theorem endsNumber_comma (rest : List UInt8) : EndsNumber (44 :: rest) := by
  rintro _ ⟨⟩
  decide

private theorem endsNumber_close (hclose : close = 93 ∨ close = 125) (rest : List UInt8) :
    EndsNumber (close :: rest) := by
  rintro _ ⟨⟩
  rcases hclose with rfl | rfl <;> decide

private theorem jsonSkip_close (hclose : close = 93 ∨ close = 125) (rest : List UInt8) :
    jsonSkip (close :: rest) = close :: rest := by
  rcases hclose with rfl | rfl <;> rfl

/-- The first text of a list, and what follows it. -/
private theorem intercalate_cons (s : List UInt8) (texts : List (List UInt8))
    (hclose : close = 93 ∨ close = 125) (rest : List UInt8) :
    ∃ rest', [44].intercalate (s :: texts) ++ close :: rest = s ++ rest' ∧ EndsNumber rest' ∧
      (texts = [] → rest' = close :: rest) ∧
      (texts ≠ [] → rest' = 44 :: ([44].intercalate texts ++ close :: rest)) := by
  cases texts with
  | nil =>
    refine ⟨close :: rest, ?_, endsNumber_close hclose rest, fun _ => rfl, fun h => absurd rfl h⟩
    rw [List.intercalate_singleton]
  | cons s' texts =>
    refine ⟨_, ?_, endsNumber_comma _, nofun, fun _ => rfl⟩
    rw [List.intercalate_cons_cons, List.append_assoc, List.append_assoc, List.singleton_append]

/-- Items with commas between them are read one after the other. -/
theorem jsonSeparated_intercalate (hclose : close = 93 ∨ close = 125)
    (hparts : ∀ part ∈ parts, ReadsItem item part.1 part.2) (hne : parts ≠ [])
    (hfuel : parts.length ≤ fuel) (rest : List UInt8) :
    jsonSeparated item close fuel ([44].intercalate (parts.map Prod.snd) ++ close :: rest) =
      some (parts.map Prod.fst, rest) := by
  -- the induction is on the parts: one round reads one part and the comma behind it
  induction parts generalizing fuel with
  | nil => exact absurd rfl hne
  | cons part parts ih =>
    obtain ⟨hpart, hparts⟩ := List.forall_mem_cons.mp hparts
    rw [List.length_cons] at hfuel
    obtain ⟨fuel, rfl⟩ : ∃ k, fuel = k + 1 := Nat.exists_eq_add_one.mpr (by omega)
    obtain ⟨rest', htext, hends, hlast, hmore⟩ :=
      intercalate_cons part.2 (parts.map Prod.snd) hclose rest
    rw [List.map_cons, htext, jsonSeparated, hpart _ hends]
    simp only [Option.bind_eq_bind, Option.bind_some]
    rcases eq_or_ne parts [] with rfl | hparts'
    · have hcomma : close ≠ 44 := by rcases hclose with rfl | rfl <;> decide
      rw [hlast rfl, jsonSkip_close hclose]
      dsimp only
      rw [if_neg hcomma, if_pos rfl]
      rfl
    · rw [hmore (by simpa using hparts')]
      change ((jsonSeparated item close fuel
        ([44].intercalate (parts.map Prod.snd) ++ close :: rest)).bind
          fun r => some (part.1 :: r.1, r.2)) = _
      rw [ih hparts hparts' (by omega)]
      rfl

theorem jsonList_intercalate (hclose : close = 93 ∨ close = 125)
    (hparts : ∀ part ∈ parts, ReadsItem item part.1 part.2)
    (hstart : ∀ part ∈ parts, ∀ rest, EndsNumber rest → jsonToken close (part.2 ++ rest) = none)
    (hfuel : parts.length ≤ fuel) (rest : List UInt8) :
    jsonList item close fuel ([44].intercalate (parts.map Prod.snd) ++ close :: rest) =
      some (parts.map Prod.fst, rest) := by
  -- an empty list closes at once, and is the only one that does
  cases parts with
  | nil =>
    unfold jsonList jsonToken
    rw [List.map_nil, List.intercalate_nil, List.nil_append, jsonSkip_close hclose]
    dsimp only
    rw [if_pos rfl]
    rfl
  | cons part parts =>
    have hread := jsonSeparated_intercalate hclose hparts nofun hfuel rest
    obtain ⟨rest', htext, hends, -, -⟩ :=
      intercalate_cons part.2 (parts.map Prod.snd) hclose rest
    rw [jsonList, List.map_cons, htext, hstart part (List.mem_cons_self ..) rest' hends, ← htext]
    exact hread

/-- A list is as long as its texts, and has one byte more for each but the first. -/
private theorem length_intercalate (parts : List (α × List UInt8)) :
    parts.length ≤ ([44].intercalate (parts.map Prod.snd)).length + 1 ∧
      ∀ part ∈ parts, part.2.length ≤ ([44].intercalate (parts.map Prod.snd)).length := by
  -- the text is long enough to give each part, and each of its levels, its fuel
  induction parts with
  | nil => exact ⟨Nat.zero_le _, nofun⟩
  | cons part parts ih =>
    cases parts with
    | nil =>
      rw [List.map_singleton, List.intercalate_singleton]
      refine ⟨by simp, fun p hp => ?_⟩
      rw [List.mem_singleton.mp hp]
    | cons part' parts =>
      rw [List.map_cons] at ih ⊢
      rw [List.map_cons, List.intercalate_cons_cons, List.length_append, List.length_append,
        List.length_singleton]
      refine ⟨by rw [List.length_cons]; omega, fun p hp => ?_⟩
      rcases List.mem_cons.mp hp with rfl | hp
      · omega
      · have := ih.2 p hp
        omega

end Items

/-- A value does not start with a closing bracket. -/
private theorem Reads.not_close (h : Reads v s) {close : UInt8} (hclose : close = 93 ∨ close = 125)
    (hrest : EndsNumber rest) : jsonToken close (s ++ rest) = none := by
  have hvalue := h (s.length + 1) rest (Nat.le_succ _) hrest
  rw [jsonValue] at hvalue
  unfold jsonToken
  cases hskip : jsonSkip (s ++ rest) with
  | nil => rfl
  | cons c t =>
    rw [hskip] at hvalue
    dsimp only at hvalue ⊢
    rw [if_neg]
    rintro rfl
    rcases hclose with rfl | rfl
    · exact absurd hvalue nofun
    · exact absurd hvalue nofun

/-- An array with these values and texts. -/
theorem reads_array (parts : List (Json × List UInt8))
    (hparts : ∀ part ∈ parts, Reads part.1 part.2) :
    Reads (.array (parts.map Prod.fst))
      (91 :: ([44].intercalate (parts.map Prod.snd) ++ [93])) := by
  intro fuel rest hfuel _
  obtain ⟨fuel, rfl⟩ : ∃ k, fuel = k + 1 :=
    Nat.exists_eq_add_one.mpr (by rw [List.length_cons] at hfuel; omega)
  rw [List.length_cons, List.length_append, List.length_singleton] at hfuel
  obtain ⟨hcount, hlength⟩ := length_intercalate parts
  -- each part is shorter than the whole, so the fuel that is left reads it
  have hitems : ∀ part ∈ parts, ReadsItem (jsonValue fuel) part.1 part.2 := by
    intro part hpart rest hrest
    have := hlength part hpart
    exact hparts part hpart fuel rest (by omega) hrest
  have hstart : ∀ part ∈ parts, ∀ rest, EndsNumber rest →
      jsonToken 93 (part.2 ++ rest) = none := fun part hpart rest hrest =>
    (hparts part hpart).not_close (.inl rfl) hrest
  have hlist := jsonList_intercalate (.inl rfl) hitems hstart (by omega : parts.length ≤ fuel) rest
  rw [List.cons_append, List.append_assoc, List.singleton_append]
  change Option.map _ (jsonList (jsonValue fuel) 93 fuel
    ([44].intercalate (parts.map Prod.snd) ++ 93 :: rest)) = _
  rw [hlist]
  rfl

/-- A name whose characters need no escape, and the text of its value. -/
def jsonMemberText (name s : List UInt8) : List UInt8 := 34 :: (name ++ 34 :: 58 :: s)

private theorem readsItem_member {name s : List UInt8} {v : Json}
    (hname : ∀ c ∈ name, ReadsChar c [c]) (hread : Reads v s) {fuel : Nat}
    (hfuel : (jsonMemberText name s).length ≤ fuel) :
    ReadsItem (jsonMember (jsonValue fuel)) (name, v) (jsonMemberText name s) := by
  intro rest hrest
  have htext : jsonMemberText name s ++ rest = 34 :: (name ++ 34 :: 58 :: (s ++ rest)) := by
    simp [jsonMemberText]
  have hflat : name.flatMap (fun c => [c]) = name := List.flatMap_singleton' name
  -- the name, the colon and the value are read one after the other
  have hstring := jsonString_flatMap (fun c => [c]) hname
    (name ++ 34 :: 58 :: (s ++ rest)).length (by rw [hflat]; simp) (58 :: (s ++ rest))
  rw [hflat] at hstring
  have hvalue := hread fuel rest (by simp [jsonMemberText] at hfuel; omega) hrest
  rw [htext, jsonMember]
  change ((jsonString (name ++ 34 :: 58 :: (s ++ rest)).length
    (name ++ 34 :: 58 :: (s ++ rest))).bind fun r => (jsonToken 58 r.2).bind fun rest =>
      (jsonValue fuel rest).bind fun q => some ((r.1, q.1), q.2)) = _
  rw [hstring]
  change (jsonValue fuel (s ++ rest)).bind _ = _
  rw [hvalue]
  rfl

/-- An object with these names, values and texts. -/
theorem reads_object (members : List (List UInt8 × Json × List UInt8))
    (hmembers : ∀ m ∈ members, (∀ c ∈ m.1, ReadsChar c [c]) ∧ Reads m.2.1 m.2.2) :
    Reads (.object (members.map fun m => (m.1, m.2.1)))
      (123 :: ([44].intercalate (members.map fun m => jsonMemberText m.1 m.2.2) ++ [125])) := by
  intro fuel rest hfuel _
  obtain ⟨fuel, rfl⟩ : ∃ k, fuel = k + 1 :=
    Nat.exists_eq_add_one.mpr (by rw [List.length_cons] at hfuel; omega)
  rw [List.length_cons, List.length_append, List.length_singleton] at hfuel
  obtain ⟨parts, hparts⟩ :
      ∃ parts, members.map (fun m => ((m.1, m.2.1), jsonMemberText m.1 m.2.2)) = parts := ⟨_, rfl⟩
  have hvalues : members.map (fun m => (m.1, m.2.1)) = parts.map Prod.fst := by
    rw [← hparts, List.map_map]
    rfl
  have htexts : members.map (fun m => jsonMemberText m.1 m.2.2) = parts.map Prod.snd := by
    rw [← hparts, List.map_map]
    rfl
  rw [hvalues, htexts]
  rw [htexts] at hfuel
  obtain ⟨hcount, hlength⟩ := length_intercalate parts
  have hitems : ∀ part ∈ parts, ReadsItem (jsonMember (jsonValue fuel)) part.1 part.2 := by
    intro part hpart
    have hbound := hlength part hpart
    rw [← hparts] at hpart
    obtain ⟨m, hm, rfl⟩ := List.mem_map.mp hpart
    exact readsItem_member (hmembers m hm).1 (hmembers m hm).2 (hbound.trans (by omega))
  -- a member starts with a quote, so the object does not close there
  have hstart : ∀ part ∈ parts, ∀ rest, EndsNumber rest →
      jsonToken 125 (part.2 ++ rest) = none := by
    intro part hpart rest _
    rw [← hparts] at hpart
    obtain ⟨m, -, rfl⟩ := List.mem_map.mp hpart
    rfl
  have hlist := jsonList_intercalate (.inr rfl) hitems hstart (by omega : parts.length ≤ fuel) rest
  rw [List.cons_append, List.append_assoc, List.singleton_append]
  change Option.map _ (jsonList (jsonMember (jsonValue fuel)) 125 fuel
    ([44].intercalate (parts.map Prod.snd) ++ 125 :: rest)) = _
  rw [hlist]
  rfl

end Reads

end SqlApi.Lib

import SqlApi.Lib.Json

/-!
# The grammar of JSON

The texts that the JSON grammar derives, with no regard to how they are read. A string is
derived together with the bytes it stands for; the members of an object are told apart, so
that one can speak of what stands before and after one of them.
-/

namespace SqlApi.Lib

/-! ## Tokens -/

/-- Whitespace between tokens. -/
def JsonWs (w : List UInt8) : Prop := ∀ c ∈ w, isJsonSpace c = true

/-- The characters of a string, without the quotes, and what they stand for. -/
inductive JsonChars : List UInt8 → List UInt8 → Prop
  | nil : JsonChars [] []
  | plain {c : UInt8} {q text : List UInt8} :
      32 ≤ c → c ≠ 34 → c ≠ 92 → JsonChars q text → JsonChars (c :: q) (c :: text)
  | escape {e c : UInt8} {q text : List UInt8} :
      jsonEscape e = some c → JsonChars q text → JsonChars (c :: q) (92 :: e :: text)
  | unicode {digits code q text : List UInt8} :
      jsonUnicode digits = some (code, []) → JsonChars q text →
      JsonChars (code ++ q) (92 :: 117 :: (digits ++ text))

/-- At least one digit. -/
def JsonDigits (digits : List UInt8) : Prop := digits ≠ [] ∧ ∀ d ∈ digits, isDigit d = true

/-- A number: 45 is the minus, 46 the point, 69 and 101 start an exponent. -/
inductive JsonNumber : List UInt8 → Prop
  | mk {sign int frac exp : List UInt8} :
      (sign = [] ∨ sign = [45]) →
      JsonDigits int → (int.head? = some 48 → int.length = 1) →
      (frac = [] ∨ ∃ digits, JsonDigits digits ∧ frac = 46 :: digits) →
      (exp = [] ∨ ∃ letter plus digits, (letter = 69 ∨ letter = 101) ∧
        (plus = [] ∨ plus = [43] ∨ plus = [45]) ∧ JsonDigits digits ∧
        exp = letter :: (plus ++ digits)) →
      JsonNumber (sign ++ (int ++ (frac ++ exp)))

/-- A name and its colon, with whitespace around both. -/
def JsonName (name text : List UInt8) : Prop :=
  ∃ w₁ chars w₂ w₃, JsonWs w₁ ∧ JsonChars name chars ∧ JsonWs w₂ ∧ JsonWs w₃ ∧
    text = w₁ ++ 34 :: (chars ++ 34 :: (w₂ ++ 58 :: w₃))

/-! ## Values -/

mutual

/-- A value without whitespace around it. -/
inductive JsonText : List UInt8 → Prop
  | null : JsonText (bytes "null")
  | true : JsonText (bytes "true")
  | false : JsonText (bytes "false")
  | number {s : List UInt8} : JsonNumber s → JsonText s
  | string {q chars : List UInt8} : JsonChars q chars → JsonText (34 :: (chars ++ [34]))
  | emptyArray {w : List UInt8} : JsonWs w → JsonText (91 :: (w ++ [93]))
  | array {w₁ value w₂ items : List UInt8} :
      JsonWs w₁ → JsonText value → JsonWs w₂ → JsonItems items →
      JsonText (91 :: (w₁ ++ (value ++ (w₂ ++ (items ++ [93])))))
  | emptyObject {w : List UInt8} : JsonWs w → JsonText (123 :: (w ++ [125]))
  | object {name key value w members : List UInt8} :
      JsonName name key → JsonText value → JsonWs w → JsonAfter members →
      JsonText (123 :: (key ++ (value ++ (w ++ (members ++ [125])))))

/-- More items of an array, each behind a comma. -/
inductive JsonItems : List UInt8 → Prop
  | nil : JsonItems []
  | cons {w₁ value w₂ items : List UInt8} :
      JsonWs w₁ → JsonText value → JsonWs w₂ → JsonItems items →
      JsonItems (44 :: (w₁ ++ (value ++ (w₂ ++ items))))

/-- More members of an object, each behind a comma. -/
inductive JsonAfter : List UInt8 → Prop
  | nil : JsonAfter []
  | cons {name key value w members : List UInt8} :
      JsonName name key → JsonText value → JsonWs w → JsonAfter members →
      JsonAfter (44 :: (key ++ (value ++ (w ++ members))))

end

/-- Members of an object, each before a comma. -/
inductive JsonBefore : List UInt8 → Prop
  | nil : JsonBefore []
  | cons {name key value w members : List UInt8} :
      JsonName name key → JsonText value → JsonWs w → JsonBefore members →
      JsonBefore (key ++ (value ++ (w ++ 44 :: members)))

/-! ## Objects with a member -/

/-- An object up to the value of a member with this name. -/
def JsonFront (name front : List UInt8) : Prop :=
  ∃ w before key, JsonWs w ∧ JsonBefore before ∧ JsonName name key ∧
    front = w ++ 123 :: (before ++ key)

/-- An object from behind the value of a member on. -/
def JsonBack (back : List UInt8) : Prop :=
  ∃ w after w', JsonWs w ∧ JsonAfter after ∧ JsonWs w' ∧ back = w ++ (after ++ 125 :: w')

/-- A text that is an object, in which `name` has the string `q` as its value. -/
def JsonObjectWith (name q text : List UInt8) : Prop :=
  ∃ front chars back, JsonFront name front ∧ JsonChars q chars ∧ JsonBack back ∧
    text = front ++ 34 :: (chars ++ 34 :: back)

section Objects

variable {name q text members after : List UInt8}

/-- It ends with a closing brace, but for whitespace. -/
theorem JsonObjectWith.close (h : JsonObjectWith name q text) : 125 ∈ text := by
  obtain ⟨front, chars, back, -, -, ⟨w, after, w', -, -, -, rfl⟩, rfl⟩ := h
  simp

end Objects

/-! ## Bytes of a number -/

/-- A digit, a sign, a point or the letter of an exponent. -/
def IsNumberByte (c : UInt8) : Prop :=
  isDigit c = true ∨ c = 43 ∨ c = 45 ∨ c = 46 ∨ c = 69 ∨ c = 101

/-- A number is made of these, and it is not empty. -/
theorem JsonNumber.bytes {s : List UInt8} (h : JsonNumber s) :
    s ≠ [] ∧ ∀ c ∈ s, IsNumberByte c := by
  obtain ⟨hsign, ⟨hne, hint⟩, -, hfrac, hexp⟩ := h
  refine ⟨by simp [hne], ?_⟩
  intro c hc
  simp only [List.mem_append] at hc
  -- a byte of the sign, of the digits, of the fraction or of the exponent
  rcases hc with hc | hc | hc | hc
  · rcases hsign with rfl | rfl
    · cases hc
    · exact .inr (.inr (.inl (List.mem_singleton.mp hc)))
  · exact .inl (hint c hc)
  · rcases hfrac with rfl | ⟨digits, ⟨-, hdigits⟩, rfl⟩
    · cases hc
    · rcases List.mem_cons.mp hc with rfl | hc
      · exact .inr (.inr (.inr (.inl rfl)))
      · exact .inl (hdigits c hc)
  · rcases hexp with rfl | ⟨letter, plus, digits, hletter, hplus, ⟨-, hdigits⟩, rfl⟩
    · cases hc
    · rcases List.mem_cons.mp hc with rfl | hc
      · exact .inr (.inr (.inr (.inr hletter)))
      rcases List.mem_append.mp hc with hc | hc
      · rcases hplus with rfl | rfl | rfl
        · cases hc
        · exact .inr (.inl (List.mem_singleton.mp hc))
        · exact .inr (.inr (.inl (List.mem_singleton.mp hc)))
      · exact .inl (hdigits c hc)

end SqlApi.Lib

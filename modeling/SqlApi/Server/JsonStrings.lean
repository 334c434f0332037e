import SqlApi.Lib.JsonGrammar
import SqlApi.Server.HttpRequest
import SqlApi.Server.Response

/-!
# The two string codecs

`api_parse_json_string` reads what a client wrote, `api_escape_json_string_alloc` writes
what a client reads. The decoder knows six escapes and takes every other byte as it is; the
encoder writes three of these escapes, and `\u00XX` for the control characters that are
left, which the decoder does not know.

`ScannedAs` is what the decoder accepts, as a grammar. A text that was escaped by the server is
in it if and only if every control byte of the text is one of the three with a short escape.
-/

namespace SqlApi.Server

open SqlApi.Lib SqlApi.Core

/-! ## What the decoder accepts -/

/-- The bytes of a string and a text that the decoder reads as them. -/
inductive ScannedAs : List UInt8 → List UInt8 → Prop
  | nil : ScannedAs [] []
  | plain {c : UInt8} {q text : List UInt8} :
      c ≠ 34 → c ≠ 92 → ScannedAs q text → ScannedAs (c :: q) (c :: text)
  | escaped {e c : UInt8} {q text : List UInt8} :
      apiUnescape e = some c → ScannedAs q text → ScannedAs (c :: q) (92 :: e :: text)

section Decode

variable {size : Nat} {buffer q text rest cursor out : List UInt8}

theorem apiJsonStringLoop_plain {c : UInt8} (hquote : c ≠ 34) (hbackslash : c ≠ 92) :
    apiJsonStringLoop size buffer (c :: cursor) =
      if size ≤ buffer.length + 1 then none
      else apiJsonStringLoop size (buffer ++ [c]) cursor := by
  rw [apiJsonStringLoop]
  · exact hquote
  · exact fun h _ => hbackslash h
  · exact fun _ _ h _ => hbackslash h

theorem apiJsonStringLoop_escaped (e : UInt8) :
    apiJsonStringLoop size buffer (92 :: e :: cursor) =
      (apiUnescape e).bind fun c => if size ≤ buffer.length + 1 then none
        else apiJsonStringLoop size (buffer ++ [c]) cursor := by
  rw [apiJsonStringLoop]
  cases apiUnescape e <;> rfl

/-- One byte after the other is decoded, as long as there is room. -/
theorem apiJsonStringLoop_of_scannedAs (h : ScannedAs q text)
    (hroom : buffer.length + q.length < size) :
    apiJsonStringLoop size buffer (text ++ 34 :: rest) = some (buffer ++ q, rest) := by
  induction h generalizing buffer with
  | nil =>
    rw [List.append_nil]
    rfl
  | @plain c q text hquote hbackslash _ ih =>
    rw [List.length_cons] at hroom
    rw [List.cons_append, apiJsonStringLoop_plain hquote hbackslash, if_neg (by omega),
      ih (by rw [List.length_append, List.length_singleton]; omega), List.append_assoc]
    rfl
  | @escaped e c q text he _ ih =>
    rw [List.length_cons] at hroom
    rw [List.cons_append, List.cons_append, apiJsonStringLoop_escaped, he, Option.bind_some,
      if_neg (by omega), ih (by rw [List.length_append, List.length_singleton]; omega),
      List.append_assoc]
    rfl

/-- Whatever is decoded was such a text with a quote behind it. -/
theorem scannedAs_of_apiJsonStringLoop (hbuffer : buffer.length < size)
    (h : apiJsonStringLoop size buffer cursor = some (out, rest)) :
    ∃ q text, ScannedAs q text ∧ out = buffer ++ q ∧ buffer.length + q.length < size ∧
      cursor = text ++ 34 :: rest := by
  fun_induction apiJsonStringLoop size buffer cursor with
  | case1 => cases h
  | case2 buffer cursor =>
    obtain ⟨rfl, rfl⟩ := Prod.mk.inj (Option.some.inj h)
    exact ⟨[], [], .nil, (List.append_nil _).symm, hbuffer, rfl⟩
  | case3 => cases h
  | case4 => cases h
  | case5 => cases h
  | case6 buffer e cursor c he hroom ih =>
    have hlength : (buffer ++ [c]).length = buffer.length + 1 := by simp
    obtain ⟨q, text, hq, rfl, hfits, rfl⟩ := ih (by omega) h
    refine ⟨c :: q, 92 :: e :: text, .escaped he hq, ?_, ?_, rfl⟩
    · rw [List.append_assoc, List.singleton_append]
    · rw [List.length_cons]
      omega
  | case7 => cases h
  | case8 buffer c cursor hquote _ hbackslash hroom ih =>
    have hlength : (buffer ++ [c]).length = buffer.length + 1 := by simp
    obtain ⟨q, text, hq, rfl, hfits, rfl⟩ := ih (by omega) h
    have hc : c ≠ 92 := by
      rintro rfl
      -- behind a backslash there is a byte, or the window ends
      cases text with
      | nil => exact hbackslash _ _ rfl rfl
      | cons d text => exact hbackslash _ _ rfl rfl
    refine ⟨c :: q, c :: text, .plain hquote hc hq, ?_, ?_, rfl⟩
    · rw [List.append_assoc, List.singleton_append]
    · rw [List.length_cons]
      omega

/-- The strings that are read: a quote, such a text, and a quote. -/
theorem apiParseJsonString_iff (hsize : 0 < size) :
    apiParseJsonString size cursor = some (q, rest) ↔
      ∃ text, ScannedAs q text ∧ q.length < size ∧ cursor = 34 :: (text ++ 34 :: rest) := by
  constructor
  · intro h
    unfold apiParseJsonString at h
    split at h
    next cursor =>
      obtain ⟨q', text, hq, rfl, hfits, rfl⟩ := scannedAs_of_apiJsonStringLoop hsize h
      refine ⟨text, hq, ?_, rfl⟩
      rw [List.length_nil, Nat.zero_add] at hfits
      exact hfits
    next => cases h
  · rintro ⟨text, hq, hfits, rfl⟩
    have hroom : ([] : List UInt8).length + q.length < size := by
      rwa [List.length_nil, Nat.zero_add]
    exact apiJsonStringLoop_of_scannedAs hq hroom

/-- A text is decoded in one way. -/
theorem ScannedAs.unique {q' text' rest' : List UInt8} (h : ScannedAs q text)
    (h' : ScannedAs q' text') (heq : text ++ 34 :: rest = text' ++ 34 :: rest') :
    q = q' ∧ text = text' ∧ rest = rest' := by
  have hsize : 0 < q.length + q'.length + 1 := by omega
  have hread : apiParseJsonString (q.length + q'.length + 1) (34 :: (text ++ 34 :: rest)) =
      some (q, rest) := (apiParseJsonString_iff hsize).mpr ⟨text, h, by omega, rfl⟩
  have hread' : apiParseJsonString (q.length + q'.length + 1) (34 :: (text' ++ 34 :: rest')) =
      some (q', rest') := (apiParseJsonString_iff hsize).mpr ⟨text', h', by omega, rfl⟩
  rw [heq, hread'] at hread
  obtain ⟨rfl, rfl⟩ := Prod.mk.inj (Option.some.inj hread)
  exact ⟨rfl, List.append_cancel_right heq, rfl⟩

end Decode

/-! ## Decoding the server's own encoding -/

/-- The bytes that the encoder writes in a way the decoder knows. -/
def Decodable (c : UInt8) : Prop := 32 ≤ c ∨ c = byte '\t' ∨ c = byte '\n' ∨ c = byte '\r'

/-- The encoding of a byte is read as that byte, and only then. -/
theorem scannedAs_apiEscapeByte {c : UInt8} {q text : List UInt8} :
    ScannedAs (c :: q) (apiEscapeByte c ++ text) ↔ Decodable c ∧ ScannedAs q text := by
  unfold apiEscapeByte Decodable
  split
  case isTrue hquoted =>
    have hc : (32 : UInt8) ≤ c := by rcases hquoted with rfl | rfl <;> decide
    have hunescape : apiUnescape c = some c := by rcases hquoted with rfl | rfl <;> decide
    constructor
    · intro h
      cases h with
      | plain _ hbackslash _ => exact absurd rfl hbackslash
      | escaped _ htext => exact ⟨.inl hc, htext⟩
    · rintro ⟨-, htext⟩
      exact .escaped hunescape htext
  case isFalse hquoted =>
    obtain ⟨hquote, hbackslash⟩ := not_or.mp hquoted
    -- the three letters stand for three bytes
    have hletter (letter d : UInt8) (hd : apiUnescape letter = some d)
        (hc : Decodable d) (heq : c = d) :
        ScannedAs (c :: q) ([92, letter] ++ text) ↔ Decodable c ∧ ScannedAs q text := by
      subst heq
      constructor
      · intro h
        cases h with
        | plain _ hbackslash _ => exact absurd rfl hbackslash
        | escaped _ htext => exact ⟨hc, htext⟩
      · rintro ⟨-, htext⟩
        exact .escaped hd htext
    split
    case isTrue hn => exact hletter _ _ (by decide) (.inr (.inr (.inl rfl))) hn
    case isFalse hn =>
    split
    case isTrue hr => exact hletter _ _ (by decide) (.inr (.inr (.inr rfl))) hr
    case isFalse hr =>
    split
    case isTrue ht => exact hletter _ _ (by decide) (.inr (.inl rfl)) ht
    case isFalse ht =>
    split
    case isTrue hcontrol =>
      constructor
      · intro h
        cases h with
        | plain _ hbackslash _ => exact absurd rfl hbackslash
        | escaped hunescape _ => cases hunescape
      · rintro ⟨hprintable | rfl | rfl | rfl, -⟩
        · exact absurd hcontrol (UInt8.not_lt.mpr hprintable)
        · exact absurd rfl ht
        · exact absurd rfl hn
        · exact absurd rfl hr
    case isFalse hcontrol =>
      constructor
      · intro h
        cases h with
        | plain _ _ htext => exact ⟨.inl (UInt8.not_lt.mp hcontrol), htext⟩
        | escaped _ _ => exact absurd rfl hbackslash
      · rintro ⟨-, htext⟩
        exact .plain hquote hbackslash htext

/-- So is the encoding of a string. -/
theorem scannedAs_flatMap {s : List UInt8} :
    ScannedAs s (s.flatMap apiEscapeByte) ↔ ∀ c ∈ s, Decodable c := by
  induction s with
  | nil => exact iff_of_true .nil nofun
  | cons c s ih => rw [List.flatMap_cons, scannedAs_apiEscapeByte, ih, List.forall_mem_cons]

/-- The decoder undoes the encoder but for control characters: for every text of at most 1023
bytes, what the encoder made of it is read back, with the cursor behind the closing quote, if
and only if a tab, a line feed and a carriage return are its only control characters. -/
theorem apiParseJsonString_escaped_iff {s escaped rest : List UInt8} {m m' : Memory}
    (hzero : 0 ∉ s) (hlength : s.length ≤ 1023)
    (hrun : (apiEscapeJsonStringAlloc s).run m = some (some escaped, m')) :
    apiParseJsonString 1024 (34 :: (escaped ++ 34 :: rest)) = some (s, rest) ↔
      ∀ c ∈ s, Decodable c := by
  obtain rfl : escaped = s.flatMap apiEscapeByte := by
    unfold apiEscapeJsonStringAlloc at hrun
    rw [Prog.run, Program.run_bind, Option.bind_eq_some_iff] at hrun
    obtain ⟨⟨granted, m₁⟩, -, hrun⟩ := hrun
    cases granted with
    | false => cases hrun
    | true =>
      obtain ⟨hescaped, -⟩ := Prod.mk.inj (Option.some.inj hrun)
      rw [← Option.some.inj hescaped, cstr_eq_self hzero]
  rw [apiParseJsonString_iff (by decide), ← scannedAs_flatMap]
  constructor
  · rintro ⟨text, htext, -, heq⟩
    have hsame := List.append_cancel_right (List.cons.inj heq).2
    rwa [hsame]
  · intro htext
    exact ⟨_, htext, by omega, rfl⟩

/-- A name with a quote, a backslash, a tab and a byte above 127. -/
theorem apiParseJsonString_escaped_iff_name :
    let s : List UInt8 := [34, 92, 9, 200, 65]
    ∃ escaped, (apiEscapeJsonStringAlloc s).run tableCreate = some (some escaped, tableCreate) ∧
      (apiParseJsonString 1024 (34 :: (escaped ++ 34 :: [44])) = some (s, [44]) ↔
        ∀ c ∈ s, Decodable c) := by
  intro s
  have hrun : (apiEscapeJsonStringAlloc s).run tableCreate =
      some (some [92, 34, 92, 92, 92, 116, 200, 65], tableCreate) := by decide
  exact ⟨_, hrun, apiParseJsonString_escaped_iff (by decide) (by decide) hrun⟩

/-- The control character 1 is written as `\u0001`, which is refused. -/
theorem apiParseJsonString_control :
    ∃ escaped, (apiEscapeJsonStringAlloc [1]).run tableCreate = some (some escaped, tableCreate) ∧
      apiParseJsonString 1024 (34 :: (escaped ++ [34])) = none := by
  exact ⟨[92, byte 'u', byte '0', byte '0', byte '0', byte '1'], by decide, by decide⟩

end SqlApi.Server

import SqlApi.Server.JsonBody

/-!
# Objects that hide their query

A string of more than 15 bytes in a member before the query does not fit the buffer it is
skipped into, and the query behind it is not found.

A flat object has scalars and strings as values (`FlatBody`). Its members before the query are
passed over one by one, and the search goes on exactly if their strings have room.
-/

namespace SqlApi.Server

open SqlApi.Lib SqlApi.Core

/-! ## Flat objects -/

/-- The value of a member without nesting; for a string, with its bytes. -/
inductive FlatValue : Option (List UInt8) → List UInt8 → Prop
  | string {v chars : List UInt8} :
      EncodedAs v chars → FlatValue (some v) (34 :: (chars ++ [34]))
  | number {s : List UInt8} : JsonNumber s → FlatValue none s
  | trueLiteral : FlatValue none (bytes "true")
  | falseLiteral : FlatValue none (bytes "false")
  | nullLiteral : FlatValue none (bytes "null")

/-- A member: its name and, when its value is a string, the bytes of it. -/
abbrev FlatField := List UInt8 × Option (List UInt8)

/-- A member as it may be written. -/
def FlatMember (field : FlatField) (text : List UInt8) : Prop :=
  ∃ w₁ chars w₂ w₃ value w₄, JsonBlank w₁ ∧ EncodedAs field.1 chars ∧ JsonBlank w₂ ∧
    JsonBlank w₃ ∧ FlatValue field.2 value ∧ JsonBlank w₄ ∧
    text = w₁ ++ 34 :: (chars ++ 34 :: (w₂ ++ byte ':' :: (w₃ ++ (value ++ w₄))))

/-- Members, each before a comma. -/
inductive FlatBefore : List FlatField → List UInt8 → Prop
  | nil : FlatBefore [] []
  | cons {field : FlatField} {fields : List FlatField} {text rest : List UInt8} :
      FlatMember field text → FlatBefore fields rest →
      FlatBefore (field :: fields) (text ++ byte ',' :: rest)

/-- Members, each behind a comma. -/
inductive FlatAfter : List FlatField → List UInt8 → Prop
  | nil : FlatAfter [] []
  | cons {field : FlatField} {fields : List FlatField} {text rest : List UInt8} :
      FlatMember field text → FlatAfter fields rest →
      FlatAfter (field :: fields) (byte ',' :: (text ++ rest))

/-- An object with these members before and after its query. -/
def FlatBody (before after : List FlatField) (q body : List UInt8) : Prop :=
  ∃ w beforeText member afterText w', JsonBlank w ∧ FlatBefore before beforeText ∧
    FlatMember (bytes "query", some q) member ∧ FlatAfter after afterText ∧ JsonBlank w' ∧
    body = w ++ byte '{' :: (beforeText ++ (member ++ (afterText ++ byte '}' :: w')))

/-- Does a value fit the buffer it is skipped into? -/
def FlatField.Skipped (field : FlatField) : Prop := ∀ v, field.2 = some v → v.length ≤ 15

section Flat

variable {size fuel : Nat} {field : FlatField} {before : List FlatField}
  {value text beforeText rest q : List UInt8}

private theorem FlatBefore.length_le {text : List UInt8} (h : FlatBefore before text) :
    before.length ≤ text.length := by
  induction h with
  | nil => exact le_rfl
  | cons _ _ ih =>
    simp only [List.length_cons, List.length_append]
    omega

theorem JsonBlank.blank {w : List UInt8} (hw : JsonBlank w) : Blank w := by
  intro c hc
  rcases hw c hc with rfl | rfl | rfl | rfl <;> decide

/-- No byte of a number is whitespace, a quote or ends a value. -/
theorem inValue_of_isNumberByte {c : UInt8} (hc : IsNumberByte c) :
    isSpace c = false ∧ c ≠ 34 ∧ c ≠ byte ',' ∧ c ≠ byte '}' := by
  rcases hc with hdigit | rfl | rfl | rfl | rfl | rfl
  · have hrange : 48 ≤ c.toNat ∧ c.toNat ≤ 57 := by
      simpa [isDigit, UInt8.le_iff_toNat_le] using hdigit
    have hne (d : UInt8) (hd : d.toNat < 48 ∨ 57 < d.toNat) : c ≠ d := by
      rintro rfl
      omega
    exact ⟨(isDigit_spec hdigit).1, hne _ (by decide), hne _ (by decide), hne _ (by decide)⟩
  all_goals decide

/-- A value that is no string is one run of bytes up to the comma. -/
theorem FlatValue.raw (h : FlatValue none value) :
    isSpace (peek value) = false ∧ value ≠ [] ∧
      ∀ c ∈ value, c ≠ 34 ∧ c ≠ byte ',' ∧ c ≠ byte '}' := by
  cases h with
  | number hnumber =>
    obtain ⟨hne, hall⟩ := hnumber.bytes
    obtain ⟨c, cs, rfl⟩ := List.exists_cons_of_ne_nil hne
    refine ⟨(inValue_of_isNumberByte (hall c (List.mem_cons_self ..))).1, hne, fun d hd => ?_⟩
    exact (inValue_of_isNumberByte (hall d hd)).2
  | trueLiteral => decide
  | falseLiteral => decide
  | nullLiteral => decide

/-- How a value is skipped. -/
theorem FlatValue.skip (h : FlatValue field.2 value) {w : List UInt8} (hw : JsonBlank w)
    (rest : List UInt8) :
    isSpace (peek (value ++ (w ++ byte ',' :: rest))) = false ∧
      ((FlatField.Skipped field ∧ ∃ c, apiSkipValue (value ++ (w ++ byte ',' :: rest)) = some c ∧
          apiPastComma c = rest) ∨
        (¬ FlatField.Skipped field ∧ apiSkipValue (value ++ (w ++ byte ',' :: rest)) = none)) := by
  have hpast : apiPastComma (w ++ byte ',' :: rest) = rest := by
    rw [apiPastComma, apiSkipSpaces_append hw.blank (by rfl)]
    rfl
  obtain ⟨key, string⟩ := field
  cases string with
  | some v =>
    cases h with
    | @string _ chars hchars =>
      refine ⟨rfl, ?_⟩
      have hassoc : 34 :: (chars ++ [34]) ++ (w ++ byte ',' :: rest) =
          34 :: (chars ++ 34 :: (w ++ byte ',' :: rest)) := by simp
      rw [hassoc, apiSkipValue, if_pos (by rfl)]
      by_cases hv : v.length ≤ 15
      · refine .inl ⟨?_, w ++ byte ',' :: rest, ?_, hpast⟩
        · rintro _ ⟨⟩
          exact hv
        · rw [apiParseJsonString_encoded hchars (by omega)]
          rfl
      · refine .inr ⟨fun hskipped => hv (hskipped v rfl), ?_⟩
        -- the buffer is full before the closing quote
        rw [Option.map_eq_none_iff, Option.eq_none_iff_forall_ne_some]
        rintro ⟨v', rest'⟩ hread
        obtain ⟨chars', hchars', hlength, heq⟩ := (apiParseJsonString_iff (by decide)).mp hread
        obtain ⟨rfl, -, -⟩ := hchars.scannedAs.unique hchars' (List.cons.inj heq).2
        omega
  | none =>
    obtain ⟨hspace, hne, hall⟩ := FlatValue.raw h
    obtain ⟨c, cs, rfl⟩ := List.exists_cons_of_ne_nil hne
    refine ⟨hspace, .inl ⟨?_, byte ',' :: rest, ?_, rfl⟩⟩
    · rintro _ ⟨⟩
    have hstop : (c :: cs ++ (w ++ byte ',' :: rest)).dropWhile
        (fun c => c != byte ',' && c != byte '}') = byte ',' :: rest := by
      have hkept : ∀ d ∈ c :: cs ++ w, (d != byte ',' && d != byte '}') = true := by
        intro d hd
        rw [inValue_iff]
        rcases List.mem_append.mp hd with hd | hd
        · exact (hall d hd).2
        · rcases hw d hd with rfl | rfl | rfl | rfl <;> decide
      rw [← List.append_assoc, List.dropWhile_append_of_pos hkept,
        List.dropWhile_cons_of_neg (by simp)]
    rw [apiSkipValue, if_neg, hstop]
    intro hquote
    exact (hall c (List.mem_cons_self ..)).1 (Option.some.inj hquote)

/-- The name of a member, and what stands behind its colon. -/
theorem FlatMember.name (h : FlatMember field text) (hkey : field.1.length < 64) :
    ∃ name value w, ScannedName field.1 name ∧ FlatValue field.2 value ∧ JsonBlank w ∧
      text = name ++ (value ++ w) := by
  obtain ⟨w₁, chars, w₂, w₃, value, w₄, hw₁, hchars, hw₂, hw₃, hvalue, hw₄, rfl⟩ := h
  refine ⟨_, value, w₄, ⟨w₁, chars, w₂, w₃, hw₁.blank, hchars.scannedAs, hkey, hw₂.blank,
    hw₃.blank, rfl⟩, hvalue, hw₄, ?_⟩
  simp

/-- A string that is written with these escapes has no NUL in it. -/
theorem EncodedAs.zero_notMem {text : List UInt8} (h : EncodedAs q text) : 0 ∉ q := by
  induction h with
  | nil => exact List.not_mem_nil
  | @cons c e q text hc _ ih =>
    have hne : c ≠ 0 := by
      rintro rfl
      cases hc with
      | plain _ hprintable _ _ => exact absurd hprintable (by decide)
    simpa using ⟨hne.symm, ih⟩

theorem FlatMember.zero_notMem (h : FlatMember field text) : 0 ∉ field.1 := by
  obtain ⟨w₁, chars, w₂, w₃, value, w₄, -, hchars, -⟩ := h
  exact hchars.zero_notMem

/-- Members before the query are passed over if and only if their strings fit. -/
theorem apiExtractLoop_before (h : FlatBefore before beforeText)
    (hkeys : ∀ field ∈ before, field.1.length < 64 ∧ field.1 ≠ bytes "query")
    (hfuel : before.length ≤ fuel) :
    apiExtractLoop size (fuel + 1) (beforeText ++ rest) = some q ↔
      (∀ field ∈ before, FlatField.Skipped field) ∧
        apiExtractLoop size (fuel - before.length + 1) rest = some q := by
  -- the induction is on the members before the query: each costs one round
  induction h generalizing fuel with
  | nil => simp
  | @cons field before text beforeText hmember _ ih =>
    obtain ⟨⟨hlength, hquery⟩, hkeys⟩ := List.forall_mem_cons.mp hkeys
    rw [List.length_cons] at hfuel
    obtain ⟨fuel, rfl⟩ : ∃ k, fuel = k + 1 := Nat.exists_eq_add_one.mpr (by omega)
    have hkey : cstr field.1 ≠ bytes "query" := by
      rw [cstr_eq_self hmember.zero_notMem]
      exact hquery
    obtain ⟨name, value, w, hname, hvalue, hw, rfl⟩ := hmember.name hlength
    have hassoc : name ++ (value ++ w) ++ byte ',' :: beforeText ++ rest =
        name ++ (value ++ (w ++ byte ',' :: (beforeText ++ rest))) := by simp
    obtain ⟨hspace, hskip⟩ := hvalue.skip hw (beforeText ++ rest)
    have hcount : fuel + 1 - (field :: before).length = fuel - before.length := by
      rw [List.length_cons]
      omega
    rw [hassoc, apiExtractLoop_name hname hspace, if_neg hkey, List.forall_mem_cons, hcount]
    -- the member is passed over, or its string does not fit and the loop gives up
    rcases hskip with ⟨hfits, c, hc, hpast⟩ | ⟨hlong, hc⟩
    · rw [hc, Option.bind_some, hpast, ih hkeys (by omega)]
      simp [hfits]
    · rw [hc]
      simp [hlong]

end Flat

/-- The query of an object is found if and only if no string before it is too long: for every
flat object with names of fewer than 64 bytes and a query of at most 1023, whatever the number,
order, spelling and length of the other members. -/
theorem apiExtractQueryString_flat_iff {before after : List FlatField} {q body : List UInt8}
    (hbody : FlatBody before after q body)
    (hkeys : ∀ field ∈ before, field.1.length < 64 ∧ field.1 ≠ bytes "query")
    (hq : q.length ≤ 1023) :
    apiExtractQueryString 1024 body = some q ↔
      ∀ field ∈ before, ∀ v, field.2 = some v → v.length ≤ 15 := by
  obtain ⟨w, beforeText, member, afterText, w', hw, hbefore, hmember, -, -, rfl⟩ := hbody
  have hshort : (bytes "query").length < 64 := by decide
  obtain ⟨name, value, w₄, hname, hvalue, -, rfl⟩ := hmember.name hshort
  cases hvalue with
  | @string _ chars hchars =>
    generalize hrest : afterText ++ byte '}' :: w' = rest
    have hassoc : name ++ (34 :: (chars ++ [34]) ++ w₄) ++ rest =
        name ++ 34 :: (chars ++ 34 :: (w₄ ++ rest)) := by simp
    rw [hassoc]
    generalize hbody : w ++ byte '{' :: (beforeText ++ (name ++ 34 :: (chars ++ 34 :: (w₄ ++ rest))))
      = body
    have hskip : apiSkipSpaces body =
        byte '{' :: (beforeText ++ (name ++ 34 :: (chars ++ 34 :: (w₄ ++ rest)))) := by
      rw [← hbody]
      exact apiSkipSpaces_append hw.blank (by rfl)
    -- the fuel covers the members before the query
    have hcount := hbefore.length_le
    have hlength : beforeText.length + 1 ≤ body.length := by
      rw [← hbody]
      simp only [List.length_append, List.length_cons]
      omega
    obtain ⟨fuel, hfuel⟩ : ∃ fuel, body.length = fuel + 1 :=
      Nat.exists_eq_add_one.mpr (by omega)
    have hread : (apiParseJsonString 1024 (34 :: (chars ++ 34 :: (w₄ ++ rest)))).map Prod.fst =
        some q := by
      rw [apiParseJsonString_encoded hchars (by omega)]
      rfl
    unfold apiExtractQueryString
    rw [hskip]
    dsimp only
    rw [if_neg (by simp), List.drop_one, List.tail_cons, hfuel,
      apiExtractLoop_before hbefore hkeys (by omega), apiExtractLoop_name hname (by rfl),
      if_pos (show cstr (bytes "query") = bytes "query" by decide), hread]
    simp [FlatField.Skipped]

/-- A member with a string, as short as it can be written. -/
theorem flatMember_plain {key v : List UInt8} (hkey : ∀ c ∈ key, 32 ≤ c ∧ c ≠ 34 ∧ c ≠ 92)
    (hv : ∀ c ∈ v, 32 ≤ c ∧ c ≠ 34 ∧ c ≠ 92) :
    FlatMember (key, some v) (34 :: (key ++ 34 :: byte ':' :: 34 :: (v ++ [34]))) := by
  refine ⟨[], key, [], [], 34 :: (v ++ [34]), [], nofun, encodedAs_plain hkey, nofun, nofun,
    .string (encodedAs_plain hv), nofun, ?_⟩
  simp

/-- An object with one member before its query, both strings. -/
theorem flatBody_pair {key v q : List UInt8} (hkey : ∀ c ∈ key, 32 ≤ c ∧ c ≠ 34 ∧ c ≠ 92)
    (hv : ∀ c ∈ v, 32 ≤ c ∧ c ≠ 34 ∧ c ≠ 92) (hq : ∀ c ∈ q, 32 ≤ c ∧ c ≠ 34 ∧ c ≠ 92) :
    FlatBody [(key, some v)] [] q (byte '{' :: 34 :: (key ++ 34 :: byte ':' :: 34 :: (v ++ 34 ::
      byte ',' :: 34 :: (bytes "query" ++ 34 :: byte ':' :: 34 :: (q ++ 34 :: [byte '}']))))) := by
  refine ⟨[], _, _, [], [], nofun, .cons (flatMember_plain hkey hv) .nil,
    flatMember_plain (by decide) hq, .nil, nofun, ?_⟩
  simp

/-- A string of 15 bytes before the query. -/
theorem apiExtractQueryString_flat_iff_pair :
    let before : List FlatField := [(bytes "client", some (bytes "fifteen letters"))]
    ∃ body, FlatBody before [] (bytes "EXIT") body ∧
      (apiExtractQueryString 1024 body = some (bytes "EXIT") ↔
        ∀ field ∈ before, ∀ v, field.2 = some v → v.length ≤ 15) := by
  intro before
  have hbody := flatBody_pair (show ∀ c ∈ bytes "client", 32 ≤ c ∧ c ≠ 34 ∧ c ≠ 92 by decide)
    (show ∀ c ∈ bytes "fifteen letters", 32 ≤ c ∧ c ≠ 34 ∧ c ≠ 92 by decide)
    (show ∀ c ∈ bytes "EXIT", 32 ≤ c ∧ c ≠ 34 ∧ c ≠ 92 by decide)
  have hkeys : ∀ field ∈ before, field.1.length < 64 ∧ field.1 ≠ bytes "query" := by
    intro field hfield
    rw [List.mem_singleton.mp hfield]
    decide
  exact ⟨_, hbody, apiExtractQueryString_flat_iff hbody hkeys (by decide)⟩

/-- A string of 16 bytes hides the query. -/
theorem apiExtractQueryString_hidden :
    ∃ body, FlatBody [(bytes "client", some (bytes "sixteen letters!"))] [] (bytes "EXIT") body ∧
      apiExtractQueryString 1024 body = none :=
  ⟨_, flatBody_pair (by decide) (by decide) (by decide), by decide⟩

end SqlApi.Server

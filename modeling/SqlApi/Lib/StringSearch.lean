import SqlApi.Lib.CString

/-!
# Searching in strings

`strstr`, and the words `sscanf` reads. The first occurrence of a text is found as soon as
all of it is there: what follows does not move it (`findSub_append`).
-/

namespace SqlApi.Lib

/-! ## The first occurrence of a text -/

/-- Where the first occurrence of a text starts. -/
def findSub (needle : List UInt8) : List UInt8 → Option Nat
  | [] => if needle = [] then some 0 else none
  | c :: s => if needle <+: c :: s then some 0 else (findSub needle s).map (· + 1)

/-- `strstr`, as an offset. -/
def strstr (haystack needle : List UInt8) : Option Nat := findSub needle (cstr haystack)

/-- `memchr` on all these bytes, as an offset. -/
def memchr (s : List UInt8) (c : UInt8) : Option Nat := s.idxOf? c

section FindSub

variable {needle s : List UInt8} {i : Nat}

theorem findSub_cons (needle : List UInt8) (c : UInt8) (s : List UInt8) :
    findSub needle (c :: s) =
      if needle <+: c :: s then some 0 else (findSub needle s).map (· + 1) := rfl

/-- A text starts with itself. -/
theorem findSub_self (needle rest : List UInt8) : findSub needle (needle ++ rest) = some 0 := by
  cases needle with
  | nil =>
    cases rest with
    | nil => rfl
    | cons c rest => exact if_pos List.nil_prefix
  | cons a needle => exact if_pos (List.prefix_append (a :: needle) rest)

/-- An occurrence lies within the text. -/
theorem findSub_le (h : findSub needle s = some i) : i + needle.length ≤ s.length := by
  -- the induction is on the text, one byte in front at a time
  induction s generalizing i with
  | nil =>
    unfold findSub at h
    split at h
    · next hnil =>
      obtain rfl := Option.some.inj h
      simp [hnil]
    · cases h
  | cons c s ih =>
    rw [findSub_cons] at h
    split at h
    · next hfirst =>
      obtain rfl := Option.some.inj h
      have := hfirst.length_le
      omega
    · obtain ⟨j, hj, rfl⟩ := Option.map_eq_some_iff.mp h
      have := ih hj
      simp only [List.length_cons]
      omega

/-- There is an occurrence. -/
theorem findSub_spec (h : findSub needle s = some i) : needle <+: s.drop i := by
  induction s generalizing i with
  | nil =>
    unfold findSub at h
    split at h
    · next hnil =>
      rw [hnil]
      exact List.nil_prefix
    · cases h
  | cons c s ih =>
    rw [findSub_cons] at h
    split at h
    · next hfirst =>
      obtain rfl := Option.some.inj h
      exact hfirst
    · obtain ⟨j, hj, rfl⟩ := Option.map_eq_some_iff.mp h
      exact ih hj

/-- The first occurrence is not behind any other. -/
theorem findSub_of_occurs {k : Nat} (h : needle <+: s.drop k) :
    ∃ i, i ≤ k ∧ findSub needle s = some i := by
  -- the induction is on the text: an occurrence further behind is met at the latest there
  induction s generalizing k with
  | nil =>
    have hnil : needle = [] := by simpa using h
    exact ⟨0, Nat.zero_le k, if_pos hnil⟩
  | cons c s ih =>
    rw [findSub_cons]
    split
    · exact ⟨0, Nat.zero_le k, rfl⟩
    · next hfirst =>
      cases k with
      | zero => exact absurd h hfirst
      | succ k =>
        obtain ⟨i, hi, hfound⟩ := ih h
        refine ⟨i + 1, Nat.succ_le_succ hi, ?_⟩
        rw [hfound]
        rfl

/-- More text after it does not move the first occurrence. -/
theorem findSub_append (h : findSub needle s = some i) (rest : List UInt8) :
    findSub needle (s ++ rest) = some i := by
  induction s generalizing i with
  | nil =>
    unfold findSub at h
    split at h
    · next hnil =>
      obtain rfl := Option.some.inj h
      subst hnil
      cases rest with
      | nil => rfl
      | cons c rest => exact if_pos List.nil_prefix
    · cases h
  | cons c s ih =>
    rw [findSub_cons] at h
    rw [List.cons_append, findSub_cons]
    split at h
    · next hfirst =>
      have hfront : needle <+: c :: (s ++ rest) :=
        hfirst.trans (List.prefix_append (c :: s) rest)
      rw [if_pos hfront]
      exact h
    · next hfirst =>
      obtain ⟨j, hj, rfl⟩ := Option.map_eq_some_iff.mp h
      have hlength := findSub_le hj
      -- an occurrence at the front would end before the first one does
      have hnot : ¬ needle <+: c :: (s ++ rest) := by
        intro hfront
        refine hfirst (List.prefix_of_prefix_length_le hfront
          (List.prefix_append (c :: s) rest) ?_)
        simp only [List.length_cons]
        omega
      rw [if_neg hnot, ih hj]
      rfl

/-- An occurrence that ends in time is found. -/
theorem findSub_eq_some_of_append {rest : List UInt8} (h : findSub needle (s ++ rest) = some i)
    (hlong : i + needle.length ≤ s.length) : findSub needle s = some i := by
  induction s generalizing i with
  | nil =>
    rw [List.length_nil] at hlong
    have hnil : needle = [] := List.eq_nil_of_length_eq_zero (by omega)
    obtain rfl : i = 0 := by omega
    rw [hnil]
    rfl
  | cons c s ih =>
    rw [List.cons_append, findSub_cons] at h
    rw [findSub_cons]
    split at h
    · -- the occurrence ends within the first part, so it is one of that part
      next hfront =>
      obtain rfl := Option.some.inj h
      rw [if_pos]
      exact List.prefix_of_prefix_length_le hfront (List.prefix_append (c :: s) rest) (by omega)
    · next hfront =>
      obtain ⟨j, hj, rfl⟩ := Option.map_eq_some_iff.mp h
      simp only [List.length_cons] at hlong
      have hnot : ¬ needle <+: c :: s :=
        fun hfirst => hfront (hfirst.trans (List.prefix_append (c :: s) rest))
      rw [if_neg hnot, ih hj (by omega)]
      rfl

/-- Text without the first byte of what is searched for is skipped. -/
theorem findSub_skip {a : UInt8} {needle : List UInt8} {l : List UInt8} (hl : a ∉ l)
    (s : List UInt8) :
    findSub (a :: needle) (l ++ s) = (findSub (a :: needle) s).map (l.length + ·) := by
  induction l with
  | nil =>
    rw [List.nil_append]
    cases findSub (a :: needle) s <;> simp
  | cons c l ih =>
    rw [List.mem_cons, not_or] at hl
    have hnot : ¬ a :: needle <+: c :: (l ++ s) := by
      rw [List.cons_prefix_cons]
      exact fun h => hl.1 h.1
    rw [List.cons_append, findSub_cons, if_neg hnot, ih hl.2, Option.map_map]
    congr 1
    funext n
    simp only [Function.comp_apply, List.length_cons]
    omega

end FindSub

/-! ## The first occurrence of a byte -/

/-- The text splits at the byte that was found. -/
theorem memchr_eq_some_iff {s : List UInt8} {c : UInt8} {i : Nat} :
    memchr s c = some i ↔ c ∉ s.take i ∧ s = s.take i ++ c :: s.drop (i + 1) := by
  unfold memchr
  induction s generalizing i with
  | nil => simp
  | cons d s ih =>
    rw [List.idxOf?_cons]
    split
    · next hd =>
      obtain rfl : d = c := by simpa using hd
      cases i <;> simp
    · next hd =>
      have hne : c ≠ d := fun h => hd (by simp [h])
      cases i with
      | zero => simp [hne.symm]
      | succ i =>
        rw [Option.map_eq_some_iff]
        simp only [Nat.add_right_cancel_iff, exists_eq_right, ih, List.take_succ_cons,
          List.mem_cons, hne, false_or, List.drop_succ_cons, List.cons_append, List.cons.injEq,
          true_and]

theorem memchr_append {s : List UInt8} {c : UInt8} (hs : c ∉ s) (rest : List UInt8) :
    memchr (s ++ c :: rest) c = some s.length := by
  rw [memchr_eq_some_iff, List.take_left, List.append_cons, List.drop_left' (by simp)]
  exact ⟨hs, by simp⟩

theorem memchr_lt {s : List UInt8} {c : UInt8} {i : Nat} (h : memchr s c = some i) :
    i < s.length := by
  have hsplit := congrArg List.length (memchr_eq_some_iff.mp h).2
  simp only [List.length_append, List.length_take, List.length_cons, List.length_drop] at hsplit
  omega

/-! ## What is behind the terminator does not matter -/

theorem cstr_append_zero_any (s rest : List UInt8) : cstr (s ++ 0 :: rest) = cstr s := by
  unfold cstr
  induction s with
  | nil => rfl
  | cons c s ih =>
    rw [List.cons_append, List.takeWhile_cons, List.takeWhile_cons, ih]

private theorem dropWhile_append_zero {p : UInt8 → Bool} (hp : p 0 = false) (s rest : List UInt8) :
    (s ++ 0 :: rest).dropWhile p = s.dropWhile p ++ 0 :: rest := by
  induction s with
  | nil => rw [List.nil_append, List.dropWhile_cons_of_neg (by simp [hp])]; rfl
  | cons c s ih =>
    rw [List.cons_append, List.dropWhile_cons, List.dropWhile_cons, ih]
    split <;> rfl

private theorem takeWhile_append_zero {p : UInt8 → Bool} (hp : p 0 = false) (s rest : List UInt8) :
    (s ++ 0 :: rest).takeWhile p = s.takeWhile p := by
  induction s with
  | nil => rw [List.nil_append, List.takeWhile_cons_of_neg (by simp [hp])]; rfl
  | cons c s ih => rw [List.cons_append, List.takeWhile_cons, List.takeWhile_cons, ih]

private theorem peek_append_zero (s rest : List UInt8) : peek (s ++ 0 :: rest) = peek s := by
  cases s <;> rfl

/-- `strtoul` does not look behind the terminator. -/
theorem strtoul_append_zero (s rest : List UInt8) : (strtoul (s ++ 0 :: rest)).1 = (strtoul s).1 := by
  have hdrop (s : List UInt8) : peek s ≠ 0 → (s ++ 0 :: rest).drop 1 = s.drop 1 ++ 0 :: rest := by
    intro hs
    cases s with
    | nil => exact absurd rfl hs
    | cons c s => rfl
  -- the scan stops at the zero byte, which is neither space, sign nor digit
  have hscan : (scanInteger (s ++ 0 :: rest)).map (fun r => (r.1, r.2.1)) =
      (scanInteger s).map fun r => (r.1, r.2.1) := by
    unfold scanInteger
    rw [dropWhile_append_zero (by decide)]
    dsimp only
    rw [peek_append_zero]
    generalize s.dropWhile isSpace = signed
    split
    · next hsign =>
      have hne : peek signed ≠ 0 := by
        rcases hsign with h | h <;> rw [h] <;> decide
      rw [hdrop signed hne, peek_append_zero, takeWhile_append_zero (by decide)]
      split <;> rfl
    · rw [peek_append_zero, takeWhile_append_zero (by decide)]
      split <;> rfl
  unfold strtoul
  cases h : scanInteger s with
  | none =>
    rw [h, Option.map_none, Option.map_eq_none_iff] at hscan
    rw [hscan]
  | some r =>
    rw [h, Option.map_some, Option.map_eq_some_iff] at hscan
    obtain ⟨r', hr', heq⟩ := hscan
    obtain ⟨hneg, hn⟩ := Prod.mk.inj heq
    rw [hr']
    dsimp only
    rw [hneg, hn]

theorem strstr_append_zero (s rest needle : List UInt8) :
    strstr (s ++ 0 :: rest) needle = strstr s needle := by
  rw [strstr, cstr_append_zero_any, strstr]

/-- More text does not move what `strstr` found. -/
theorem strstr_append {s needle : List UInt8} {i : Nat} (h : strstr s needle = some i)
    (rest : List UInt8) : strstr (s ++ rest) needle = some i := by
  have hstart : cstr s <+: cstr (s ++ rest) := by
    unfold cstr
    rw [List.takeWhile_append]
    split
    · next hall =>
      rw [(List.takeWhile_prefix _).eq_of_length hall]
      exact List.prefix_append ..
    · exact List.prefix_refl _
  obtain ⟨more, hmore⟩ := hstart
  rw [strstr, ← hmore]
  exact findSub_append h more

theorem strstr_le {s needle : List UInt8} {i : Nat} (h : strstr s needle = some i) :
    i + needle.length ≤ s.length :=
  (findSub_le h).trans (List.takeWhile_prefix _).length_le

theorem cstr_eq_append {s : List UInt8} (hs : 0 ∉ s) (rest : List UInt8) :
    cstr (s ++ rest) = s ++ cstr rest := by
  refine List.takeWhile_append_of_pos fun c hc => ?_
  have hne : c ≠ 0 := fun h => hs (h ▸ hc)
  simpa using hne

/-- What `strstr` found is still there when the text ends behind it. -/
theorem strstr_of_append {s rest needle : List UInt8} {i : Nat} (hs : 0 ∉ s)
    (h : strstr (s ++ rest) needle = some i) (hlong : i + needle.length ≤ s.length) :
    strstr s needle = some i := by
  rw [strstr, cstr_eq_append hs] at h
  rw [strstr, cstr_eq_self hs]
  exact findSub_eq_some_of_append h hlong

/-- The string splits at what `strstr` found. -/
theorem strstr_split {s needle : List UInt8} {i : Nat} (h : strstr s needle = some i) :
    0 ∉ s.take i ∧ ∃ rest, s = s.take i ++ (needle ++ rest) := by
  obtain ⟨behind, hbehind⟩ : cstr s <+: s := List.takeWhile_prefix _
  obtain ⟨rest, hrest⟩ : needle <+: (cstr s).drop i := findSub_spec h
  have hroom : i + needle.length ≤ (cstr s).length := findSub_le h
  have htake : s.take i = (cstr s).take i := calc
    s.take i = (cstr s ++ behind).take i := by rw [hbehind]
    _ = (cstr s).take i := List.take_append_of_le_length (by omega)
  rw [htake]
  refine ⟨fun hmem => zero_notMem_cstr s (List.mem_of_mem_take hmem), rest ++ behind, ?_⟩
  calc
    s = cstr s ++ behind := hbehind.symm
    _ = (cstr s).take i ++ (cstr s).drop i ++ behind := by rw [List.take_append_drop]
    _ = (cstr s).take i ++ (needle ++ (rest ++ behind)) := by
      rw [← hrest]
      simp

/-! ## Numbers in text -/

/-- Digits after whitespace. -/
theorem strtoul_of_digits {w digits rest : List UInt8} (hw : ∀ c ∈ w, isSpace c = true)
    (hne : digits ≠ []) (hdigits : ∀ d ∈ digits, isDigit d = true)
    (hrest : isDigit (peek rest) = false) (hlt : digitsValue digits < 2 ^ 64) :
    (strtoul (w ++ (digits ++ rest))).1 = digitsValue digits := by
  obtain ⟨negative, k, hscan, hk⟩ := scanInteger_of_isDecimal
    (⟨digits, hne, hdigits, .inl ⟨rfl, rfl⟩⟩ : IsDecimal (digitsValue digits) digits) hrest
  obtain ⟨d, ds, rfl⟩ := List.exists_cons_of_ne_nil hne
  have hspace := (isDigit_spec (hdigits d (List.mem_cons_self ..))).1
  have hskip : scanInteger (w ++ (d :: ds ++ rest)) = scanInteger (d :: ds ++ rest) := by
    unfold scanInteger
    rw [List.dropWhile_append_of_pos hw]
  rw [strtoul, hskip, hscan]
  dsimp only
  cases negative with
  | false =>
    have hk' : (digitsValue (d :: ds) : Int) = k := by simpa using hk
    obtain rfl : digitsValue (d :: ds) = k := by omega
    rw [if_neg (not_le.mpr hlt)]
    rfl
  | true =>
    -- only zero is its own negative
    have hk' : (digitsValue (d :: ds) : Int) = -(k : Int) := by simpa using hk
    have hzero : k = 0 ∧ digitsValue (d :: ds) = 0 := by omega
    rw [hzero.1, hzero.2]
    rfl

private theorem le_foldl_digits (digits : List UInt8) (init : Nat) :
    init ≤ digits.foldl (fun value d => 10 * value + (d.toNat - 48)) init := by
  induction digits generalizing init with
  | nil => exact le_rfl
  | cons d digits ih =>
    have hstep := ih (10 * init + (d.toNat - 48))
    rw [List.foldl_cons]
    omega

/-- More digits make a number no smaller. -/
theorem digitsValue_append_le (digits more : List UInt8) :
    digitsValue digits ≤ digitsValue (digits ++ more) := by
  unfold digitsValue
  rw [List.foldl_append]
  exact le_foldl_digits more _

/-- What is read of a number behind its sign. -/
private def scanDigits (negative : Bool) (unsigned : List UInt8) :
    Option (Bool × Nat × List UInt8) :=
  if isDigit (peek unsigned) then
    some (negative, digitsValue (unsigned.takeWhile isDigit), unsigned.dropWhile isDigit)
  else none

/-- Whitespace and a sign are read without what is behind them. -/
private theorem scanInteger_append {s : List UInt8} (hs : s.dropWhile isSpace ≠ []) :
    ∃ negative unsigned, ∀ more,
      scanInteger (s ++ more) = scanDigits negative (unsigned ++ more) := by
  obtain ⟨c, t, hsigned⟩ := List.exists_cons_of_ne_nil hs
  have hdrop (more : List UInt8) : (s ++ more).dropWhile isSpace = c :: (t ++ more) := by
    rw [List.dropWhile_append, if_neg (by simpa using hs), hsigned]
    rfl
  refine ⟨c == 45, if c = 45 ∨ c = 43 then t else c :: t, fun more => ?_⟩
  unfold scanInteger
  rw [hdrop]
  change scanDigits (c == 45) (if c = 45 ∨ c = 43 then t ++ more else c :: (t ++ more)) = _
  split <;> rfl

private theorem scanInteger_blank {s : List UInt8} (hs : s.dropWhile isSpace = []) :
    scanInteger s = none := by
  unfold scanInteger
  rw [hs]
  rfl

theorem strtoul_lt (s : List UInt8) : (strtoul s).1 < 2 ^ 64 := by
  unfold strtoul
  split
  · simp
  · dsimp only
    split
    · simp
    · split
      · exact Nat.mod_lt _ (by decide)
      · omega

/-- Whitespace before a number. -/
theorem strtoul_blank_append {w : List UInt8} (hw : ∀ c ∈ w, isSpace c = true) (s : List UInt8) :
    (strtoul (w ++ s)).1 = (strtoul s).1 := by
  have hscan : scanInteger (w ++ s) = scanInteger s := by
    unfold scanInteger
    rw [List.dropWhile_append_of_pos hw]
  unfold strtoul
  rw [hscan]
  cases scanInteger s <;> rfl

/-- What is behind whitespace that follows something else does not matter. -/
theorem strtoul_append_of_stop {s : List UInt8} {c : UInt8} (hs : s.dropWhile isSpace ≠ [])
    (hc : isSpace c = true) (more : List UInt8) :
    (strtoul (s ++ c :: more)).1 = (strtoul (s ++ [c])).1 := by
  obtain ⟨negative, unsigned, hscan⟩ := scanInteger_append hs
  have hdigit : isDigit c = false := by
    by_contra hne
    rw [(isDigit_spec (by simpa using hne)).1] at hc
    cases hc
  -- the digits end at the white space, whatever stands behind it
  have htake (rest : List UInt8) :
      (unsigned ++ c :: rest).takeWhile isDigit = unsigned.takeWhile isDigit := by
    rw [List.takeWhile_append, List.takeWhile_cons_of_neg (by simp [hdigit]), List.append_nil]
    split
    · next hall => exact ((List.takeWhile_prefix _).eq_of_length hall).symm
    · rfl
  have hpeek (rest : List UInt8) : peek (unsigned ++ c :: rest) = peek (unsigned ++ [c]) := by
    cases unsigned <;> rfl
  unfold strtoul
  rw [hscan, hscan]
  unfold scanDigits
  rw [hpeek more, htake, htake]
  by_cases hstart : isDigit (peek (unsigned ++ [c])) = true
  · rw [if_pos hstart, if_pos hstart]
  · rw [if_neg hstart, if_neg hstart]

/-- A text whose number is zero does not start with another one. -/
theorem strtoul_eq_zero_of_append {s more : List UInt8} (h : (strtoul (s ++ more)).1 = 0) :
    (strtoul s).1 = 0 := by
  rcases eq_or_ne (s.dropWhile isSpace) [] with hblank | hs
  · unfold strtoul
    rw [scanInteger_blank hblank]
  obtain ⟨negative, unsigned, hscan⟩ := scanInteger_append hs
  have hself := hscan []
  rw [List.append_nil, List.append_nil] at hself
  unfold strtoul at h ⊢
  rw [hscan] at h
  rw [hself]
  unfold scanDigits at h ⊢
  by_cases hdigit : isDigit (peek unsigned) = true
  · have hne : unsigned ≠ [] := by
      rintro rfl
      cases hdigit
    rw [peek_append hne, if_pos hdigit] at h
    rw [if_pos hdigit]
    have hle : digitsValue (unsigned.takeWhile isDigit) ≤
        digitsValue ((unsigned ++ more).takeWhile isDigit) := by
      rw [List.takeWhile_append]
      split
      · next hall =>
        rw [(List.takeWhile_prefix _).eq_of_length hall]
        exact digitsValue_append_le _ _
      · exact le_rfl
    -- a number below the bound is not negated to zero
    have hzero : digitsValue ((unsigned ++ more).takeWhile isDigit) = 0 := by
      dsimp only at h
      split at h
      · cases h
      · split at h
        · omega
        · exact h
    have hself : digitsValue (unsigned.takeWhile isDigit) = 0 := by omega
    rw [hself]
    cases negative <;> rfl
  · rw [if_neg hdigit]

/-! ## Words -/

/-- `%<size>s`: whitespace is skipped, then up to `size` bytes are read up to the next
whitespace; `none` when there are none. -/
def scanWord (size : Nat) (s : List UInt8) : Option (List UInt8 × List UInt8) :=
  let text := (cstr s).dropWhile isSpace
  let word := (text.takeWhile fun c => !isSpace c).take size
  if word = [] then none else some (word, text.drop word.length)

/-- A word and the whitespace after it. -/
theorem scanWord_of_word {size : Nat} {word rest : List UInt8} (hne : word ≠ [])
    (hword : ∀ c ∈ word, isSpace c = false ∧ c ≠ 0) (hsize : word.length ≤ size)
    (hrest : isSpace (peek rest) = true) :
    scanWord size (word ++ rest) = some (word, cstr rest) := by
  have hcstr : cstr (word ++ rest) = word ++ cstr rest :=
    cstr_eq_append (fun h => (hword 0 h).2 rfl) rest
  have hstart : (word ++ cstr rest).dropWhile isSpace = word ++ cstr rest := by
    obtain ⟨c, cs, rfl⟩ := List.exists_cons_of_ne_nil hne
    rw [List.cons_append, List.dropWhile_cons_of_neg]
    simp [(hword c (List.mem_cons_self ..)).1]
  -- the word ends at the white space that follows, or with the text
  have hend : (word ++ cstr rest).takeWhile (fun c => !isSpace c) = word := by
    rw [List.takeWhile_append_of_pos fun c hc => by simp [(hword c hc).1]]
    cases rest with
    | nil => cases hrest
    | cons c rest =>
      have hc : c ≠ 0 := by
        rintro rfl
        cases hrest
      rw [peek_cons] at hrest
      simp [cstr, hc, hrest]
  unfold scanWord
  dsimp only
  rw [hcstr, hstart, hend, List.take_of_length_le hsize, if_neg hne, List.drop_left]

theorem scanWord_cstr (size : Nat) (s : List UInt8) : scanWord size (cstr s) = scanWord size s := by
  unfold scanWord
  rw [cstr_eq_self (zero_notMem_cstr s)]

/-- Whitespace before a word. -/
theorem scanWord_space (size : Nat) {c : UInt8} (hc : isSpace c = true) (s : List UInt8) :
    scanWord size (c :: s) = scanWord size s := by
  have hne : c ≠ 0 := by
    rintro rfl
    cases hc
  have hcstr : cstr (c :: s) = c :: cstr s := by simp [cstr, hne]
  unfold scanWord
  rw [hcstr, List.dropWhile_cons_of_pos hc]

/-- The words of a text: its maximal runs without whitespace. -/
def words : List UInt8 → List (List UInt8)
  | [] => []
  | c :: s =>
    if isSpace c then words s
    else if s = [] ∨ isSpace (peek s) then [c] :: words s
    else
      match words s with
      | [] => [[c]]
      | word :: more => (c :: word) :: more

/-- The first word of a text, the whitespace before it, and what is behind it. -/
theorem words_eq_cons {s word : List UInt8} {more : List (List UInt8)}
    (h : words s = word :: more) :
    ∃ gap rest, (∀ c ∈ gap, isSpace c = true) ∧ word ≠ [] ∧ (∀ c ∈ word, isSpace c = false) ∧
      (rest = [] ∨ isSpace (peek rest) = true) ∧ words rest = more ∧ s = gap ++ (word ++ rest) := by
  induction s generalizing word more with
  | nil => cases h
  | cons c s ih =>
    rw [words] at h
    split at h
    case isTrue hspace =>
      obtain ⟨gap, rest, hgap, hne, hword, hend, hmore, rfl⟩ := ih h
      exact ⟨c :: gap, rest, List.forall_mem_cons.mpr ⟨hspace, hgap⟩, hne, hword, hend, hmore, rfl⟩
    case isFalse hspace =>
    have hc : isSpace c = false := by simpa using hspace
    split at h
    case isTrue hlast =>
      obtain ⟨rfl, hmore⟩ := List.cons.inj h
      refine ⟨[], s, nofun, List.cons_ne_nil _ _, ?_, hlast, hmore, rfl⟩
      simpa using hc
    case isFalse hgoes =>
      obtain ⟨hne, hstart⟩ := not_or.mp hgoes
      cases htail : words s with
      | nil =>
        -- a text that starts a word has one
        obtain ⟨d, s, rfl⟩ := List.exists_cons_of_ne_nil hne
        rw [words, if_neg (show ¬ isSpace d = true from hstart)] at htail
        split at htail
        · cases htail
        · split at htail <;> cases htail
      | cons word' more' =>
        rw [htail] at h
        obtain ⟨rfl, rfl⟩ := List.cons.inj h
        obtain ⟨gap, rest, hgap, -, hword, hend, hmore, rfl⟩ := ih htail
        cases gap with
        | cons d gap => exact absurd (hgap d (List.mem_cons_self ..)) hstart
        | nil =>
          exact ⟨[], rest, nofun, List.cons_ne_nil _ _, List.forall_mem_cons.mpr ⟨hc, hword⟩, hend,
            hmore, rfl⟩

theorem scanWord_blank (size : Nat) {gap : List UInt8} (hgap : ∀ c ∈ gap, isSpace c = true)
    (s : List UInt8) : scanWord size (gap ++ s) = scanWord size s := by
  induction gap with
  | nil => rfl
  | cons c gap ih =>
    obtain ⟨hc, hgap⟩ := List.forall_mem_cons.mp hgap
    rw [List.cons_append, scanWord_space size hc, ih hgap]

/-- The first word of a line is read, if it is not too long; the other words are left. -/
theorem scanWord_of_words {size : Nat} {line word : List UInt8} {more : List (List UInt8)}
    (h : words line = word :: more) (hsize : word.length ≤ size) (hzero : 0 ∉ line)
    {tail : List UInt8} (htail : isSpace (peek tail) = true) :
    ∃ rest, words rest = more ∧ 0 ∉ rest ∧
      scanWord size (line ++ tail) = some (word, cstr (rest ++ tail)) := by
  obtain ⟨gap, rest, hgap, hne, hword, hend, hmore, rfl⟩ := words_eq_cons h
  obtain ⟨-, hzero⟩ : 0 ∉ gap ∧ 0 ∉ word ++ rest := by simpa using hzero
  obtain ⟨hword0, hrest0⟩ : 0 ∉ word ∧ 0 ∉ rest := by simpa using hzero
  refine ⟨rest, hmore, hrest0, ?_⟩
  have hpeek : isSpace (peek (rest ++ tail)) = true := by
    cases rest with
    | nil => exact htail
    | cons c rest => exact hend.resolve_left (List.cons_ne_nil _ _)
  rw [List.append_assoc, List.append_assoc, scanWord_blank size hgap]
  exact scanWord_of_word hne (fun c hc => ⟨hword c hc, fun h0 => hword0 (h0 ▸ hc)⟩) hsize hpeek

end SqlApi.Lib

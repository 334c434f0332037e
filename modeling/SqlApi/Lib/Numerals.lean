import SqlApi.Lib.CString

/-!
# Texts that denote an integer

A text that `strtoul` reads up to its end is one integer: whitespace, an optional sign and
decimal digits. What `strtoul` makes of it depends on that integer only: from `2 ^ 64` on it
saturates, and what is negative is taken modulo `2 ^ 64`.
-/

namespace SqlApi.Lib

/-- `s` denotes the integer `v`: whitespace, an optional sign, and digits up to its end. -/
inductive Denotes : List UInt8 → Int → Prop where
  | plain {blanks digits : List UInt8} : (∀ c ∈ blanks, isSpace c = true) → digits ≠ [] →
      (∀ d ∈ digits, isDigit d = true) → Denotes (blanks ++ digits) (digitsValue digits)
  | plus {blanks digits : List UInt8} : (∀ c ∈ blanks, isSpace c = true) → digits ≠ [] →
      (∀ d ∈ digits, isDigit d = true) → Denotes (blanks ++ 43 :: digits) (digitsValue digits)
  | minus {blanks digits : List UInt8} : (∀ c ∈ blanks, isSpace c = true) → digits ≠ [] →
      (∀ d ∈ digits, isDigit d = true) → Denotes (blanks ++ 45 :: digits) (-digitsValue digits)

section Scan

variable {s blanks digits rest : List UInt8} {v : Int} {negative : Bool} {k : Nat}

private theorem takeWhile_digits (hdigits : ∀ d ∈ digits, isDigit d = true) :
    digits.takeWhile isDigit = digits ∧ digits.dropWhile isDigit = [] :=
  ⟨List.takeWhile_eq_self_iff.mpr hdigits, List.dropWhile_eq_nil_iff.mpr hdigits⟩

private theorem isDigit_peek (hne : digits ≠ []) (hdigits : ∀ d ∈ digits, isDigit d = true) :
    isDigit (peek digits) = true := by
  obtain ⟨d, ds, rfl⟩ := List.exists_cons_of_ne_nil hne
  exact hdigits d (List.mem_cons_self ..)

/-- An integer is read up to its end. -/
theorem Denotes.scanInteger (h : Denotes s v) :
    ∃ negative k, scanInteger s = some (negative, k, []) ∧ v = if negative then -(k : Int) else k := by
  -- the three spellings of a number: without a sign, with a plus and with a minus
  cases h with
  | @plain blanks digits hblanks hne hdigits =>
    obtain ⟨htake, hdrop⟩ := takeWhile_digits hdigits
    have hpeek := isDigit_peek hne hdigits
    obtain ⟨hspace, hminus, hplus⟩ := isDigit_spec hpeek
    have hsigned : (blanks ++ digits).dropWhile isSpace = digits := by
      rw [List.dropWhile_append_of_pos hblanks]
      obtain ⟨d, ds, rfl⟩ := List.exists_cons_of_ne_nil hne
      exact List.dropWhile_cons_of_neg (by simpa using hspace)
    refine ⟨false, digitsValue digits, ?_, rfl⟩
    simp [Lib.scanInteger, hsigned, hminus, hplus, hpeek, htake, hdrop]
  | @plus blanks digits hblanks hne hdigits =>
    obtain ⟨htake, hdrop⟩ := takeWhile_digits hdigits
    have hpeek := isDigit_peek hne hdigits
    have hsigned : (blanks ++ 43 :: digits).dropWhile isSpace = 43 :: digits := by
      rw [List.dropWhile_append_of_pos hblanks]
      rfl
    refine ⟨false, digitsValue digits, ?_, rfl⟩
    simp [Lib.scanInteger, hsigned, hpeek, htake, hdrop]
  | @minus blanks digits hblanks hne hdigits =>
    obtain ⟨htake, hdrop⟩ := takeWhile_digits hdigits
    have hpeek := isDigit_peek hne hdigits
    have hsigned : (blanks ++ 45 :: digits).dropWhile isSpace = 45 :: digits := by
      rw [List.dropWhile_append_of_pos hblanks]
      rfl
    refine ⟨true, digitsValue digits, ?_, rfl⟩
    simp [Lib.scanInteger, hsigned, hpeek, htake, hdrop]

theorem Denotes.ne_nil (h : Denotes s v) : s ≠ [] := by
  rintro rfl
  obtain ⟨negative, k, hscan, -⟩ := h.scanInteger
  cases hscan

/-- What is read up to the end is an integer. -/
theorem denotes_of_scanInteger (h : scanInteger s = some (negative, k, [])) :
    Denotes s (if negative then -(k : Int) else k) := by
  have hs := List.takeWhile_append_dropWhile (p := isSpace) (l := s)
  have hblanks : ∀ c ∈ s.takeWhile isSpace, isSpace c = true := fun c hc =>
    List.mem_takeWhile_imp hc
  unfold scanInteger at h
  revert h hs
  generalize s.dropWhile isSpace = signed
  intro h hs
  dsimp only at h
  -- behind the sign stand digits and nothing else
  have hall {unsigned : List UInt8} (hdigit : isDigit (peek unsigned) = true)
      (hend : unsigned.dropWhile isDigit = []) :
      unsigned ≠ [] ∧ (∀ d ∈ unsigned, isDigit d = true) ∧ unsigned.takeWhile isDigit = unsigned := by
    have hdigits := List.dropWhile_eq_nil_iff.mp hend
    refine ⟨?_, hdigits, List.takeWhile_eq_self_iff.mpr hdigits⟩
    rintro rfl
    cases hdigit
  by_cases hsign : peek signed = 45 ∨ peek signed = 43
  · rw [if_pos hsign] at h
    obtain ⟨hdigit, hnegative, hk, hend⟩ : isDigit (peek (signed.drop 1)) = true ∧ _ ∧ _ ∧ _ := by
      simpa only [Option.ite_none_right_eq_some, Option.some.injEq, Prod.mk.injEq] using h
    obtain ⟨hne, hdigits, htake⟩ := hall hdigit hend
    rw [htake] at hk
    rw [← hs, ← hk, ← hnegative]
    rcases hsign with hminus | hplus
    · rw [hminus, eq_cons_of_peek hminus (by decide)]
      exact .minus hblanks hne hdigits
    · rw [hplus, eq_cons_of_peek hplus (by decide)]
      exact .plus hblanks hne hdigits
  · rw [if_neg hsign] at h
    obtain ⟨hdigit, hnegative, hk, hend⟩ : isDigit (peek signed) = true ∧ _ ∧ _ ∧ _ := by
      simpa only [Option.ite_none_right_eq_some, Option.some.injEq, Prod.mk.injEq] using h
    obtain ⟨hne, hdigits, htake⟩ := hall hdigit hend
    rw [htake] at hk
    rw [not_or] at hsign
    rw [← hs, ← hk, ← hnegative, if_neg (by simpa using hsign.1)]
    exact .plain hblanks hne hdigits

/-- A text denotes one integer at most. -/
theorem Denotes.unique {w : Int} (hv : Denotes s v) (hw : Denotes s w) : v = w := by
  obtain ⟨negative, k, hscan, rfl⟩ := hv.scanInteger
  obtain ⟨negative', k', hscan', rfl⟩ := hw.scanInteger
  rw [hscan] at hscan'
  cases hscan'
  rfl

end Scan

/-! ## `strtoul` -/

/-- What `strtoul` makes of an integer. -/
def strtoulValue (v : Int) : Nat := if 2 ^ 64 ≤ v.natAbs then 2 ^ 64 - 1 else (v % 2 ^ 64).toNat

/-- An integer is converted as a whole. -/
theorem strtoul_of_denotes {s : List UInt8} {v : Int} (h : Denotes s v) :
    strtoul s = (strtoulValue v, []) := by
  obtain ⟨negative, k, hscan, rfl⟩ := h.scanInteger
  rw [strtoul, hscan, strtoulValue]
  dsimp only
  cases negative with
  | false =>
    rw [if_neg Bool.false_ne_true, if_neg Bool.false_ne_true, Int.natAbs_natCast]
    split
    · -- too large a magnitude gives the largest value, whatever the sign
      rfl
    · simp only [Prod.mk.injEq, and_true]
      omega
  | true =>
    rw [if_pos rfl, if_pos rfl, Int.natAbs_neg, Int.natAbs_natCast]
    split
    · rfl
    · simp only [Prod.mk.injEq, and_true]
      omega

/-- A conversion that comes to the end of the text has read an integer. -/
theorem denotes_of_strtoul {s : List UInt8} (hread : (strtoul s).2 ≠ s)
    (hend : (strtoul s).2 = []) : ∃ v, Denotes s v := by
  unfold strtoul at hread hend
  cases hscan : scanInteger s with
  | none =>
    rw [hscan] at hread
    exact absurd rfl hread
  | some r =>
    obtain ⟨negative, k, rest⟩ := r
    rw [hscan] at hend
    obtain rfl : rest = [] := hend
    exact ⟨_, denotes_of_scanInteger hscan⟩

/-- The end pointer points into the text. -/
theorem strtoul_suffix (s : List UInt8) : (strtoul s).2 <:+ s := by
  unfold strtoul
  cases hscan : scanInteger s with
  | none => exact List.suffix_refl s
  | some r =>
    obtain ⟨negative, k, rest⟩ := r
    exact scanInteger_suffix hscan

theorem strtoulValue_lt (v : Int) : strtoulValue v < 2 ^ 64 := by
  unfold strtoulValue
  split <;> omega

end SqlApi.Lib

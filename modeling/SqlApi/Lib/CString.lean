import Mathlib.Algebra.Group.Nat.Defs
import Mathlib.Algebra.Ring.Int.Defs
import Mathlib.Data.List.TakeWhile

/-!
# C strings and characters

A C string is a list of bytes; its text ends at the first NUL. The character
classes are those of the C locale, where bytes from 128 on are in none of them.
`long` has 64 bits.
-/

namespace SqlApi.Lib

/-- The bytes of a string literal. -/
def bytes (s : String) : List UInt8 := s.toList.map fun c => c.toNat.toUInt8

/-- What holds of the bytes of a text is decided on the text, not over all bytes. -/
instance decidableForallMem (s : List UInt8) (p : UInt8 → Prop) [DecidablePred p] :
    Decidable (∀ c ∈ s, p c) := List.decidableBAll p s

/-! ## Text up to the terminator -/

/-- The text of a C string: everything before the first NUL. -/
def cstr (s : List UInt8) : List UInt8 := s.takeWhile (· != 0)

theorem cstr_eq_self {s : List UInt8} (hs : 0 ∉ s) : cstr s = s := by
  rw [cstr, List.takeWhile_eq_self_iff]
  intro c hc
  have hne : c ≠ 0 := fun h => hs (h ▸ hc)
  simpa using hne

theorem zero_notMem_cstr (s : List UInt8) : 0 ∉ cstr s := by
  intro h
  have := List.mem_takeWhile_imp h
  simp at this

/-- A terminator ends the text. -/
theorem cstr_append_zero {s : List UInt8} (hs : 0 ∉ s) (rest : List UInt8) :
    cstr (s ++ 0 :: rest) = s := by
  have hall : ∀ c ∈ s, (c != 0) = true := by
    intro c hc
    have hne : c ≠ 0 := fun h => hs (h ▸ hc)
    simpa using hne
  rw [cstr, List.takeWhile_append_of_pos hall]
  simp

/-- `strncpy(dst, src, n)`: at most `n` bytes of the text, padded with NULs. -/
def strncpy (src : List UInt8) (n : Nat) : List UInt8 :=
  (cstr src).take n ++ List.replicate (n - (cstr src).length) 0

theorem length_strncpy (src : List UInt8) (n : Nat) : (strncpy src n).length = n := by
  simp only [strncpy, List.length_append, List.length_take, List.length_replicate]
  omega

/-- The text of a copy with a terminator after it. -/
theorem cstr_strncpy (src : List UInt8) (n : Nat) (rest : List UInt8) :
    cstr (strncpy src n ++ 0 :: rest) = (cstr src).take n := by
  have hzero : 0 ∉ (cstr src).take n := fun h => zero_notMem_cstr src (List.mem_of_mem_take h)
  rw [strncpy, List.append_assoc]
  cases hpad : List.replicate (n - (cstr src).length) (0 : UInt8) with
  | nil => exact cstr_append_zero hzero rest
  | cons z zs =>
    have hz : z = 0 := List.eq_of_mem_replicate (hpad ▸ List.mem_cons_self)
    rw [hz, List.cons_append]
    exact cstr_append_zero hzero _

/-! ## Character classes -/

/-- `isspace` -/
def isSpace (c : UInt8) : Bool := c == 32 || (9 ≤ c && c ≤ 13)

/-- `isdigit` -/
def isDigit (c : UInt8) : Bool := 48 ≤ c && c ≤ 57

/-- `isalpha` -/
def isAlpha (c : UInt8) : Bool := (65 ≤ c && c ≤ 90) || (97 ≤ c && c ≤ 122)

/-- `isalnum` -/
def isAlnum (c : UInt8) : Bool := isAlpha c || isDigit c

/-- `tolower` -/
def toLower (c : UInt8) : UInt8 := if 65 ≤ c && c ≤ 90 then c + 32 else c

/-- `strcasecmp(s, t) == 0` -/
def strcasecmpEq (s t : List UInt8) : Bool := (cstr s).map toLower == (cstr t).map toLower

/-- `*cursor`, where the bytes that follow the cursor end in a NUL. -/
def peek (cursor : List UInt8) : UInt8 := cursor.headD 0

@[simp] theorem peek_nil : peek [] = 0 := rfl

@[simp] theorem peek_cons (c : UInt8) (rest : List UInt8) : peek (c :: rest) = c := rfl

theorem peek_append {s : List UInt8} (hs : s ≠ []) (rest : List UInt8) :
    peek (s ++ rest) = peek s := by
  cases s with
  | nil => exact absurd rfl hs
  | cons c s => rfl

/-- A byte that is there is the first one. -/
theorem eq_cons_of_peek {c : UInt8} {s : List UInt8} (hs : peek s = c) (hc : c ≠ 0) :
    s = c :: s.drop 1 := by
  cases s with
  | nil => exact absurd hs.symm hc
  | cons d s =>
    obtain rfl : d = c := hs
    rfl

/-- The same of a byte that is not the end. -/
theorem eq_cons_of_head? {c : UInt8} {s : List UInt8} (hs : s.head? = some c) :
    s = c :: s.drop 1 := by
  obtain ⟨rest, rfl⟩ := List.head?_eq_some_iff.mp hs
  rfl

/-! ## Numbers -/

/-- The number that decimal digits denote. -/
def digitsValue (digits : List UInt8) : Nat :=
  digits.foldl (fun value d => 10 * value + (d.toNat - 48)) 0

/-- What `strtol` and `strtoul` read: whitespace, an optional sign and digits. The
result is whether there was a minus, the number, and the bytes after it; `none` when
there is no digit. -/
def scanInteger (s : List UInt8) : Option (Bool × Nat × List UInt8) :=
  let signed := s.dropWhile isSpace
  let unsigned := if peek signed = 45 ∨ peek signed = 43 then signed.drop 1 else signed
  if isDigit (peek unsigned) then
    some (peek signed == 45, digitsValue (unsigned.takeWhile isDigit), unsigned.dropWhile isDigit)
  else none

/-- `strtol` in base 10, with the end pointer; out of range it stops at the bounds. -/
def strtol (s : List UInt8) : Int × List UInt8 :=
  match scanInteger s with
  | none => (0, s)
  | some (negative, n, rest) =>
    (max (-2 ^ 63) (min (2 ^ 63 - 1) (if negative then -(n : Int) else n)), rest)

/-- `strtoul` in base 10, with the end pointer; a minus negates modulo `2 ^ 64`. -/
def strtoul (s : List UInt8) : Nat × List UInt8 :=
  match scanInteger s with
  | none => (0, s)
  | some (negative, n, rest) =>
    (if 2 ^ 64 ≤ n then 2 ^ 64 - 1 else if negative then (2 ^ 64 - n) % 2 ^ 64 else n, rest)

/-- `%d` -/
def decimal (n : Int) : List UInt8 :=
  let digits := (Nat.toDigits 10 n.natAbs).map fun c => c.toNat.toUInt8
  if n < 0 then 45 :: digits else digits

/-- `s` is the integer `n` in decimal; leading zeros are allowed. -/
def IsDecimal (n : Int) (s : List UInt8) : Prop :=
  ∃ digits : List UInt8, digits ≠ [] ∧ (∀ d ∈ digits, isDigit d = true) ∧
    (s = digits ∧ n = digitsValue digits ∨ s = 45 :: digits ∧ n = -digitsValue digits)

/-- A digit is neither whitespace nor a sign. -/
theorem isDigit_spec {c : UInt8} (hc : isDigit c = true) :
    isSpace c = false ∧ c ≠ 45 ∧ c ≠ 43 := by
  have hrange : 48 ≤ c.toNat ∧ c.toNat ≤ 57 := by
    simpa [isDigit, UInt8.le_iff_toNat_le] using hc
  have hne : ∀ d : UInt8, d.toNat < 48 → c ≠ d := fun d hd h => by
    rw [h] at hrange
    omega
  refine ⟨?_, hne 45 (by decide), hne 43 (by decide)⟩
  have hspace := hne 32 (by decide)
  simp [isSpace, hspace, UInt8.le_iff_toNat_le]
  omega

/-- Reading stops within the text. -/
theorem scanInteger_suffix {s rest : List UInt8} {negative : Bool} {n : Nat}
    (h : scanInteger s = some (negative, n, rest)) : rest <:+ s := by
  unfold scanInteger at h
  dsimp only at h
  generalize hsigned : s.dropWhile isSpace = signed at h
  have hskip : signed <:+ s := hsigned ▸ List.dropWhile_suffix _
  have hsign : (if peek signed = 45 ∨ peek signed = 43 then signed.drop 1 else signed) <:+ s := by
    split
    · exact (List.drop_suffix 1 _).trans hskip
    · exact hskip
  generalize (if peek signed = 45 ∨ peek signed = 43 then signed.drop 1 else signed) = unsigned
    at h hsign
  split at h
  case isFalse => cases h
  case isTrue =>
    cases h
    exact (List.dropWhile_suffix _).trans hsign

/-- Digits are read up to the first byte that is none. -/
theorem scanInteger_of_isDecimal {n : Int} {s rest : List UInt8} (hs : IsDecimal n s)
    (hrest : isDigit (peek rest) = false) :
    ∃ negative k, scanInteger (s ++ rest) = some (negative, k, rest) ∧
      n = if negative then -(k : Int) else k := by
  obtain ⟨digits, hne, hdigits, hcases⟩ := hs
  -- the digits end where the text behind them does not go on with a digit
  have htake : (digits ++ rest).takeWhile isDigit = digits := by
    rw [List.takeWhile_append_of_pos hdigits]
    cases rest with
    | nil => simp
    | cons c rest => simp [show isDigit c = false from hrest]
  have hdrop : (digits ++ rest).dropWhile isDigit = rest := by
    rw [List.dropWhile_append_of_pos hdigits]
    cases rest with
    | nil => simp
    | cons c rest => simp [show isDigit c = false from hrest]
  obtain ⟨d, ds, rfl⟩ := List.exists_cons_of_ne_nil hne
  have hd := hdigits d (List.mem_cons_self ..)
  obtain ⟨hspace, hminus, hplus⟩ := isDigit_spec hd
  -- without a sign, and behind a minus
  rcases hcases with ⟨rfl, rfl⟩ | ⟨rfl, rfl⟩
  · refine ⟨false, digitsValue (d :: ds), ?_, rfl⟩
    have hsigned : (d :: ds ++ rest).dropWhile isSpace = d :: ds ++ rest := by
      simp [hspace]
    unfold scanInteger
    rw [hsigned]
    simp only [List.cons_append, peek_cons, hminus, hplus, or_self, if_false, hd, if_true]
    rw [← List.cons_append, htake, hdrop]
    simp [hminus]
  · refine ⟨true, digitsValue (d :: ds), ?_, rfl⟩
    have hsigned : (45 :: (d :: ds) ++ rest).dropWhile isSpace = 45 :: (d :: ds ++ rest) := rfl
    unfold scanInteger
    rw [hsigned]
    simp only [List.cons_append, peek_cons, true_or, if_true, List.drop_succ_cons, List.drop_zero,
      hd]
    rw [← List.cons_append, htake, hdrop]
    rfl

/-- `strtol` reads what is written in decimal, up to the bounds of `long`. -/
theorem strtol_of_isDecimal {n : Int} {s rest : List UInt8} (hs : IsDecimal n s)
    (hrest : isDigit (peek rest) = false) :
    strtol (s ++ rest) = (max (-2 ^ 63) (min (2 ^ 63 - 1) n), rest) := by
  obtain ⟨negative, k, hscan, hn⟩ := scanInteger_of_isDecimal hs hrest
  rw [strtol, hscan]
  dsimp only
  rw [← hn]

private theorem isDigit_peek_dropWhile (s : List UInt8) :
    isDigit (peek (s.dropWhile isDigit)) = false := by
  induction s with
  | nil => rfl
  | cons c s ih =>
    cases hc : isDigit c with
    | true => rwa [List.dropWhile_cons_of_pos hc]
    | false =>
      rw [List.dropWhile_cons_of_neg (by simp [hc])]
      exact hc

/-- What is read at a digit or a minus is written in decimal there. -/
theorem scanInteger_eq_some {s rest : List UInt8} {negative : Bool} {k : Nat}
    (hs : isDigit (peek s) = true ∨ peek s = 45)
    (h : scanInteger s = some (negative, k, rest)) :
    ∃ n spelling, IsDecimal n spelling ∧ s = spelling ++ rest ∧ isDigit (peek rest) = false := by
  have hspace : isSpace (peek s) = false := by
    rcases hs with hs | hs
    · exact (isDigit_spec hs).1
    · rw [hs]
      rfl
  have hsigned : s.dropWhile isSpace = s := by
    cases s with
    | nil => rfl
    | cons c s => exact List.dropWhile_cons_of_neg (by simpa using hspace)
  have hdigits (t : List UInt8) (hdigit : isDigit (peek t) = true) :
      t.takeWhile isDigit ≠ [] ∧ ∀ d ∈ t.takeWhile isDigit, isDigit d = true := by
    refine ⟨fun hnil => ?_, fun d hd => List.mem_takeWhile_imp hd⟩
    cases t with
    | nil => cases hdigit
    | cons d t =>
      have hd : isDigit d = true := hdigit
      rw [List.takeWhile_cons_of_pos hd] at hnil
      cases hnil
  unfold scanInteger at h
  rw [hsigned] at h
  dsimp only at h
  by_cases hminus : peek s = 45
  · have hunsigned : (if peek s = 45 ∨ peek s = 43 then s.drop 1 else s) = s.drop 1 :=
      if_pos (.inl hminus)
    rw [hunsigned] at h
    split at h
    case isFalse => cases h
    case isTrue hdigit =>
      obtain ⟨hne, hall⟩ := hdigits _ hdigit
      obtain ⟨-, -, rfl⟩ : _ ∧ _ ∧ (s.drop 1).dropWhile isDigit = rest := by simpa using h
      refine ⟨_, 45 :: (s.drop 1).takeWhile isDigit, ⟨_, hne, hall, .inr ⟨rfl, rfl⟩⟩, ?_,
        isDigit_peek_dropWhile _⟩
      cases s with
      | nil => cases hminus
      | cons c s =>
        obtain rfl : c = 45 := hminus
        rw [List.cons_append, List.drop_one, List.tail_cons, List.takeWhile_append_dropWhile]
  · have hdigit : isDigit (peek s) = true := hs.resolve_right hminus
    have hunsigned : (if peek s = 45 ∨ peek s = 43 then s.drop 1 else s) = s :=
      if_neg fun hsign => hsign.elim hminus (isDigit_spec hdigit).2.2
    obtain ⟨hne, hall⟩ := hdigits _ hdigit
    rw [hunsigned, if_pos hdigit] at h
    obtain ⟨-, -, rfl⟩ : _ ∧ _ ∧ s.dropWhile isDigit = rest := by simpa using h
    refine ⟨_, s.takeWhile isDigit, ⟨_, hne, hall, .inl ⟨rfl, rfl⟩⟩, ?_, isDigit_peek_dropWhile _⟩
    exact (List.takeWhile_append_dropWhile).symm

/-- A number does not start with a zero. -/
private theorem head_toDigits {n : Nat} (hn : n ≠ 0) : (Nat.toDigits 10 n).head? ≠ some '0' := by
  induction n using Nat.strong_induction_on with
  | _ n ih =>
    rcases Nat.lt_or_ge n 10 with hlt | hge
    · rw [Nat.toDigits_of_lt_base hlt, List.head?_cons]
      simpa using hn
    · obtain ⟨c, cs, hcs⟩ :=
        List.exists_cons_of_ne_nil (Nat.toDigits_ne_nil (n := n / 10) (b := 10))
      have hhead := ih (n / 10) (by omega) (by omega)
      rw [hcs] at hhead
      rw [Nat.toDigits_of_base_le (by decide) hge, hcs]
      exact hhead

/-- The bytes of decimal digits have the digits' value. -/
private theorem foldl_digitBytes {cs : List Char} (hcs : ∀ c ∈ cs, 48 ≤ c.toNat ∧ c.toNat ≤ 57)
    (init : Nat) :
    (cs.map fun c => c.toNat.toUInt8).foldl (fun value d => 10 * value + (d.toNat - 48)) init =
      Nat.ofDigitChars 10 cs init := by
  induction cs generalizing init with
  | nil => rfl
  | cons c cs ih =>
    have hc := hcs c (List.mem_cons_self ..)
    have hbyte : c.toNat.toUInt8.toNat = c.toNat := by
      simp
      omega
    rw [List.map_cons, List.foldl_cons, Nat.ofDigitChars_cons, hbyte,
      ih fun d hd => hcs d (List.mem_cons_of_mem _ hd)]
    rfl

/-- `%d` writes decimal digits, without leading zeros, and a minus before them. -/
theorem decimal_spec (n : Int) :
    ∃ digits : List UInt8, digits ≠ [] ∧ (∀ d ∈ digits, isDigit d = true) ∧
      (digits.head? = some 48 → digits.length = 1) ∧ digitsValue digits = n.natAbs ∧
      decimal n = (if n < 0 then [45] else []) ++ digits := by
  have hchar : ∀ c ∈ Nat.toDigits 10 n.natAbs, 48 ≤ c.toNat ∧ c.toNat ≤ 57 := by
    intro c hc
    have hdigit := Nat.isDigit_of_mem_toDigits (by decide) (by decide) hc
    simpa [Char.isDigit, Char.le_def, UInt32.le_iff_toNat_le] using hdigit
  refine ⟨(Nat.toDigits 10 n.natAbs).map fun c => c.toNat.toUInt8, by simp, ?_, ?_, ?_, ?_⟩
  · intro d hd
    obtain ⟨c, hc, rfl⟩ := List.mem_map.mp hd
    obtain ⟨hlo, hhi⟩ := hchar c hc
    simp [isDigit, UInt8.le_iff_toNat_le]
    omega
  · intro hhead
    obtain ⟨c, hc, h48⟩ :
        ∃ c, (Nat.toDigits 10 n.natAbs).head? = some c ∧ c.toNat.toUInt8 = 48 := by
      simpa using hhead
    have hrange := hchar c (List.mem_of_mem_head? hc)
    obtain rfl : c = '0' := by
      have hnat : c.toNat.toUInt8.toNat = 48 := by rw [h48]; rfl
      refine Char.toNat_inj.mp (?_ : c.toNat = 48)
      simp at hnat
      omega
    have hzero : n.natAbs = 0 := Decidable.byContradiction fun hne => head_toDigits hne hc
    rw [hzero]
    rfl
  · rw [digitsValue, foldl_digitBytes hchar, Nat.ofDigitChars_ten_toDigits]
  · unfold decimal
    split <;> rfl

/-- `%d` writes an integer in decimal. -/
theorem isDecimal_decimal (n : Int) : IsDecimal n (decimal n) := by
  obtain ⟨digits, hne, hdigits, -, hvalue, hdecimal⟩ := decimal_spec n
  refine ⟨digits, hne, hdigits, ?_⟩
  rw [hdecimal, hvalue]
  by_cases hneg : n < 0
  · refine .inr ⟨by rw [if_pos hneg]; rfl, ?_⟩
    omega
  · refine .inl ⟨by rw [if_neg hneg]; rfl, ?_⟩
    omega

/-- Only digits and a minus are written. -/
theorem notMem_decimal {c : UInt8} (hc : isDigit c = false ∧ c ≠ 45) (n : Int) : c ∉ decimal n := by
  obtain ⟨digits, -, hdigits, -, -, hdecimal⟩ := decimal_spec n
  rw [hdecimal, List.mem_append]
  rintro (hmem | hmem)
  · split at hmem
    · exact hc.2 (List.mem_singleton.mp hmem)
    · cases hmem
  · have := hdigits c hmem
    rw [hc.1] at this
    cases this

/-- How long it gets. -/
theorem length_decimal_le {n : Int} {k : Nat} (hk : 0 < k) (hn : n.natAbs < 10 ^ k) :
    (decimal n).length ≤ (if n < 0 then 1 else 0) + k := by
  have hlength := (Nat.length_toDigits_le_iff (b := 10) (by decide) hk).mpr hn
  unfold decimal
  split
  · rw [List.length_cons, List.length_map]
    omega
  · rw [List.length_map]
    omega

end SqlApi.Lib

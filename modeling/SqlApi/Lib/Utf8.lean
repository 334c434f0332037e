import Mathlib.Data.List.DropRight
import SqlApi.Lib.CString

/-!
# UTF-8

Where a valid text can be cut: between two characters, that is in front of the first byte of
one. Code that counts bytes keeps a text valid if and only if it happens to cut there.
-/

namespace SqlApi.Lib

/-- Valid UTF-8. -/
def IsUtf8 (s : List UInt8) : Prop := s.toByteArray.IsValidUTF8

/-- No character goes on at the start of this text. -/
def StartsChar : List UInt8 → Prop
  | [] => True
  | b :: _ => b.IsUTF8FirstByte

instance (s : List UInt8) : Decidable (StartsChar s) :=
  match s with
  | [] => isTrue trivial
  | b :: _ => inferInstanceAs (Decidable b.IsUTF8FirstByte)

section Utf8

variable {s t : List UInt8}

/-- A text is UTF-8 if it is the encodings of some characters one after the other. -/
theorem isUtf8_iff : IsUtf8 s ↔ ∃ cs : List Char, s = cs.flatMap String.utf8EncodeChar := by
  constructor
  · rintro ⟨cs, hcs⟩
    exact ⟨cs, List.toByteArray_inj.mp hcs⟩
  · rintro ⟨cs, rfl⟩
    exact ⟨cs, rfl⟩

theorem isUtf8_nil : IsUtf8 [] := isUtf8_iff.mpr ⟨[], rfl⟩

theorem isUtf8_char (c : Char) : IsUtf8 (String.utf8EncodeChar c) :=
  isUtf8_iff.mpr ⟨[c], by simp⟩

/-- The characters of both texts. -/
theorem IsUtf8.append (hs : IsUtf8 s) (ht : IsUtf8 t) : IsUtf8 (s ++ t) := by
  unfold IsUtf8
  rw [List.toByteArray_append]
  exact ByteArray.IsValidUTF8.append hs ht

/-! ## Characters -/

/-- No encoding of a character starts with that of another one. -/
theorem utf8EncodeChar_unique {c d : Char}
    (h : String.utf8EncodeChar c ++ s = String.utf8EncodeChar d ++ t) : c = d := by
  have hc : ByteArray.utf8DecodeChar? (String.utf8EncodeChar c ++ s).toByteArray 0 = some c := by
    rw [List.toByteArray_append]
    exact ByteArray.utf8DecodeChar?_utf8EncodeChar_append
  rw [h, List.toByteArray_append, ByteArray.utf8DecodeChar?_utf8EncodeChar_append] at hc
  exact (Option.some.inj hc).symm

/-- A character in front changes nothing: decoding takes it off. -/
theorem isUtf8_char_append_iff (c : Char) : IsUtf8 (String.utf8EncodeChar c ++ s) ↔ IsUtf8 s := by
  refine ⟨fun h => ?_, (isUtf8_char c).append⟩
  obtain ⟨cs, hcs⟩ := isUtf8_iff.mp h
  cases cs with
  | nil => simp at hcs
  | cons d cs =>
    rw [List.flatMap_cons] at hcs
    -- the first character of a decoding is this one
    obtain rfl := utf8EncodeChar_unique hcs
    exact isUtf8_iff.mpr ⟨cs, List.append_cancel_left hcs⟩

/-- Valid text in front does not matter. -/
theorem IsUtf8.append_iff (hs : IsUtf8 s) : IsUtf8 (s ++ t) ↔ IsUtf8 t := by
  obtain ⟨cs, rfl⟩ := isUtf8_iff.mp hs
  clear hs
  induction cs with
  | nil => rfl
  | cons c cs ih => rw [List.flatMap_cons, List.append_assoc, isUtf8_char_append_iff, ih]

/-- The first byte of a character is no continuation byte. -/
theorem startsChar_char_append (c : Char) : StartsChar (String.utf8EncodeChar c ++ s) := by
  cases hc : String.utf8EncodeChar c with
  | nil => simp at hc
  | cons b rest =>
    have hfirst := UInt8.isUTF8FirstByte_getElem_zero_utf8EncodeChar (c := c)
    simp only [hc] at hfirst
    exact hfirst

/-- So no text of characters starts within one. -/
theorem IsUtf8.startsChar (hs : IsUtf8 s) : StartsChar s := by
  obtain ⟨cs, rfl⟩ := isUtf8_iff.mp hs
  cases cs with
  | nil => trivial
  | cons c cs => exact startsChar_char_append c

/-- No cut in front of a first byte is within a character. -/
private theorem isUtf8_left (ht : StartsChar t) {cs : List Char}
    (hcs : s ++ t = cs.flatMap String.utf8EncodeChar) : IsUtf8 s := by
  induction cs generalizing s with
  | nil =>
    obtain ⟨rfl, -⟩ : s = [] ∧ t = [] := by simpa using hcs
    exact isUtf8_nil
  | cons c cs ih =>
    rw [List.flatMap_cons] at hcs
    rcases List.append_eq_append_iff.mp hcs with ⟨more, hchar, hrest⟩ | ⟨behind, rfl, hrest⟩
    · -- the text ends within the first character
      cases s with
      | nil => exact isUtf8_nil
      | cons a s =>
        cases more with
        | nil =>
          rw [List.append_nil] at hchar
          rw [← hchar]
          exact isUtf8_char c
        | cons b more =>
          rw [hrest] at ht
          have hindex : (a :: s).length < (String.utf8EncodeChar c).length := by
            rw [hchar, List.length_append]
            simp
          have hbyte : (String.utf8EncodeChar c)[(a :: s).length] = b := by
            simp only [hchar]
            rw [List.getElem_append_right le_rfl]
            simp
          -- a character that begins within another one would have two first bytes
          have hzero := UInt8.isUTF8FirstByte_getElem_utf8EncodeChar.mp (hbyte.symm ▸ ht)
          cases hzero
    · exact (isUtf8_char c).append (ih hrest.symm)

/-- A valid text can be cut in front of a first byte. -/
theorem isUtf8_append_iff (ht : StartsChar t) : IsUtf8 (s ++ t) ↔ IsUtf8 s ∧ IsUtf8 t := by
  refine ⟨fun h => ?_, fun h => h.1.append h.2⟩
  obtain ⟨cs, hcs⟩ := isUtf8_iff.mp h
  have hleft := isUtf8_left ht hcs
  exact ⟨hleft, hleft.append_iff.mp h⟩

/-! ## ASCII -/

/-- An ASCII byte is the encoding of its character. -/
theorem utf8EncodeChar_ascii {b : UInt8} (hb : b < 128) :
    String.utf8EncodeChar (Char.ofUInt8 b) = [b] := by
  have hle : b.toNat ≤ 127 := Nat.le_of_lt_succ (UInt8.lt_iff_toNat_lt.mp hb)
  have hval : (Char.ofUInt8 b).val.toNat = b.toNat := rfl
  simp [String.utf8EncodeChar, hval, hle]

/-- Text in ASCII is UTF-8. -/
theorem isUtf8_ascii (hs : ∀ b ∈ s, b < 128) : IsUtf8 s := by
  induction s with
  | nil => exact isUtf8_nil
  | cons b s ih =>
    obtain ⟨hb, hs⟩ := List.forall_mem_cons.mp hs
    have hchar := isUtf8_char (Char.ofUInt8 b)
    rw [utf8EncodeChar_ascii hb] at hchar
    exact hchar.append (ih hs)

/-- An ASCII byte in front changes nothing. -/
theorem isUtf8_ascii_cons_iff {b : UInt8} (hb : b < 128) : IsUtf8 (b :: s) ↔ IsUtf8 s := by
  have hiff := isUtf8_char_append_iff (s := s) (Char.ofUInt8 b)
  rwa [utf8EncodeChar_ascii hb] at hiff

theorem startsChar_ascii {b : UInt8} (hb : b < 128) : StartsChar (b :: s) := by
  have hstarts := startsChar_char_append (s := s) (Char.ofUInt8 b)
  rwa [utf8EncodeChar_ascii hb] at hstarts

/-- So an ASCII text can be cut anywhere, and taken away at the end. -/
theorem isUtf8_append_ascii_iff (ht : ∀ b ∈ t, b < 128) : IsUtf8 (s ++ t) ↔ IsUtf8 s := by
  rw [isUtf8_append_iff (isUtf8_ascii ht).startsChar]
  exact and_iff_left (isUtf8_ascii ht)

/-- What stands behind ASCII is UTF-8 by itself. -/
theorem IsUtf8.behind_ascii (h : IsUtf8 (s ++ t)) (hs : ∀ b ∈ s, b < 128) : IsUtf8 t :=
  (isUtf8_ascii hs).append_iff.mp h

/-! ## Cutting by bytes -/

/-- The end of a text, from a character on. -/
theorem IsUtf8.suffix (ht : IsUtf8 t) (hs : s <:+ t) (hstart : StartsChar s) : IsUtf8 s := by
  obtain ⟨front, rfl⟩ := hs
  exact ((isUtf8_append_iff hstart).mp ht).2

/-- The first bytes of a text, whatever their number. -/
theorem IsUtf8.take_iff (hs : IsUtf8 s) (n : Nat) : IsUtf8 (s.take n) ↔ StartsChar (s.drop n) := by
  have hsplit := List.take_append_drop n s
  constructor
  · intro htake
    -- a valid front leaves a valid rest, which starts with a character
    rw [← hsplit, htake.append_iff] at hs
    exact hs.startsChar
  · intro hstart
    rw [← hsplit, isUtf8_append_iff hstart] at hs
    exact hs.1

/-- Whether a text starts with a character is seen at its first byte. -/
theorem StartsChar.of_take {n : Nat} (hn : 0 < n) (hs : StartsChar (s.take n)) : StartsChar s := by
  cases s with
  | nil => trivial
  | cons b s =>
    obtain ⟨n, rfl⟩ := Nat.exists_eq_add_one_of_ne_zero hn.ne'
    exact hs

section While

variable {p : UInt8 → Bool}

/-- Only an ASCII byte ends the run. -/
theorem startsChar_dropWhile (hp : ∀ b, 128 ≤ b → p b = true) : StartsChar (s.dropWhile p) := by
  induction s with
  | nil => trivial
  | cons b s ih =>
    cases hb : p b with
    | true => rwa [List.dropWhile_cons_of_pos hb]
    | false =>
      rw [List.dropWhile_cons_of_neg (by simp [hb])]
      exact startsChar_ascii (UInt8.not_le.mp fun hge => by simp [hp b hge] at hb)

/-- A cut in front of an ASCII byte is between two characters. -/
theorem IsUtf8.takeWhile (hs : IsUtf8 s) (hp : ∀ b, 128 ≤ b → p b = true) :
    IsUtf8 (s.takeWhile p) := by
  rw [← List.takeWhile_append_dropWhile (p := p) (l := s),
    isUtf8_append_iff (startsChar_dropWhile hp)] at hs
  exact hs.1

theorem StartsChar.of_takeWhile (hp : ∀ b, 128 ≤ b → p b = true)
    (hs : StartsChar (s.takeWhile p)) : StartsChar s := by
  cases s with
  | nil => trivial
  | cons b s =>
    cases hb : p b with
    | true =>
      rw [List.takeWhile_cons_of_pos hb] at hs
      exact hs
    | false => exact startsChar_ascii (UInt8.not_le.mp fun hge => by simp [hp b hge] at hb)

/-- Only ASCII bytes are taken away at the end. -/
theorem isUtf8_rdropWhile_iff (hp : ∀ b, p b = true → b < 128) :
    IsUtf8 (s.rdropWhile p) ↔ IsUtf8 s := by
  have hascii : ∀ b ∈ s.rtakeWhile p, b < 128 := fun b hb => hp b (List.mem_rtakeWhile_imp hb)
  have hsplit := isUtf8_append_ascii_iff (s := s.rdropWhile p) hascii
  rw [List.rdropWhile_append_rtakeWhile] at hsplit
  exact hsplit.symm

end While

/-- Texts one after the other. -/
theorem IsUtf8.flatten {texts : List (List UInt8)} (h : ∀ text ∈ texts, IsUtf8 text) :
    IsUtf8 texts.flatten := by
  induction texts with
  | nil => exact isUtf8_nil
  | cons text texts ih =>
    obtain ⟨htext, htexts⟩ := List.forall_mem_cons.mp h
    rw [List.flatten_cons]
    exact htext.append (ih htexts)

/-! ## Substitution -/

/-- A map that leaves these bytes alone. -/
private theorem flatMap_eq_self {f : UInt8 → List UInt8} (hs : ∀ b ∈ s, f b = [b]) :
    s.flatMap f = s := by
  induction s with
  | nil => rfl
  | cons b s ih =>
    obtain ⟨hb, hs⟩ := List.forall_mem_cons.mp hs
    rw [List.flatMap_cons, hb, ih hs]
    rfl

/-- A substitution of ASCII texts for ASCII bytes. -/
theorem isUtf8_flatMap_iff {f : UInt8 → List UInt8}
    (hascii : ∀ b < 128, f b ≠ [] ∧ ∀ c ∈ f b, c < 128) (hother : ∀ b, 128 ≤ b → f b = [b]) :
    IsUtf8 (s.flatMap f) ↔ IsUtf8 s := by
  induction hlength : s.length using Nat.strong_induction_on generalizing s with
  | h n ih =>
    -- the bytes up to the first ASCII byte stay as they are
    have hrun : (s.takeWhile (128 ≤ ·)).flatMap f = s.takeWhile (128 ≤ ·) :=
      flatMap_eq_self fun b hb => hother b (by simpa using List.mem_takeWhile_imp hb)
    have hsplit := List.takeWhile_append_dropWhile (p := (128 ≤ ·)) (l := s)
    cases hrest : s.dropWhile (128 ≤ ·) with
    | nil =>
      rw [hrest, List.append_nil] at hsplit
      rw [← hsplit, hrun]
    | cons b rest =>
      have hb : b < 128 := by
        have hfalse := List.dropWhile_get_zero_not (p := (128 ≤ ·)) (l := s) (by simp [hrest])
        simpa [hrest] using hfalse
      obtain ⟨hne, htext⟩ := hascii b hb
      rw [hrest] at hsplit
      have hshort : rest.length < n := by
        have hsum := congrArg List.length hsplit
        rw [List.length_append, List.length_cons] at hsum
        omega
      have hstarts : StartsChar (f b ++ rest.flatMap f) := by
        obtain ⟨c, text, hcons⟩ := List.exists_cons_of_ne_nil hne
        rw [hcons] at htext ⊢
        exact startsChar_ascii (htext c (List.mem_cons_self ..))
      rw [← hsplit, List.flatMap_append, hrun, List.flatMap_cons, isUtf8_append_iff hstarts,
        isUtf8_append_iff (startsChar_ascii hb), (isUtf8_ascii htext).append_iff,
        isUtf8_ascii_cons_iff hb, ih rest.length hshort rfl]

end Utf8

end SqlApi.Lib

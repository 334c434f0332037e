import SqlApi.Core.BPTree
import SqlApi.Lib.BPlusTree
import Mathlib.Tactic.IntervalCases

/-!
# The array loops of `bptree.c` as list operations

A node's arrays have a fixed size and a used prefix. Each loop of the source is
characterised by what it does to the used prefix, as a list: shifting and
storing is `insertIdx`, copying is `take` and `drop`, scanning is a bounded
search.

The statements are about lists, and neither about nodes nor about trees: the lemmas about nodes and
the lemmas about the tree meet in them.
-/

namespace SqlApi.Core

open SqlApi.Lib

/-! ## Scans -/

/-- A scan from `i` stops at `idx`. -/
theorem firstIndexFrom_eq {p : Nat → Bool} {rounds i idx : Nat} (hle : i ≤ idx)
    (hbound : idx ≤ i + rounds) (hbefore : ∀ j, i ≤ j → j < idx → p j = true)
    (hat : idx < i + rounds → p idx = false) : firstIndexFrom p rounds i = idx := by
  induction rounds generalizing i with
  | zero => exact Nat.le_antisymm hle hbound
  | succ rounds ih =>
    rcases Nat.eq_or_lt_of_le hle with rfl | hlt
    · simp [firstIndexFrom, hat (by omega)]
    · simp only [firstIndexFrom, hbefore i le_rfl hlt, if_true]
      exact ih (by omega) (by omega) (fun j hj => hbefore j (by omega))
        (fun h => hat (by omega))

theorem firstIndexFrom_le (p : Nat → Bool) (rounds i : Nat) :
    firstIndexFrom p rounds i ≤ i + rounds := by
  induction rounds generalizing i with
  | zero => exact le_rfl
  | succ rounds ih =>
    rw [firstIndexFrom]
    split
    · exact (ih (i + 1)).trans (by omega)
    · omega

theorem firstIndex_le (n : Nat) (p : Nat → Bool) : firstIndex n p ≤ n :=
  (firstIndexFrom_le p n 0).trans (by omega)

/-- A scan stops at `idx` when the condition holds before it and not at it. -/
theorem firstIndex_eq {n idx : Nat} {p : Nat → Bool} (hle : idx ≤ n)
    (hbefore : ∀ j < idx, p j = true) (hat : idx < n → p idx = false) :
    firstIndex n p = idx :=
  firstIndexFrom_eq (Nat.zero_le _) (by omega) (fun j _ hj => hbefore j hj)
    (fun h => hat (by omega))

section Arrays

variable {α : Type} [Inhabited α] {n m : Nat}

omit [Inhabited α] in
/-- The used prefix of an array. -/
theorem getElem?_used {a : Vector α n} {count i : Nat} (hi : i < count) :
    (a.toList.take count)[i]? = a[i]? := by
  rw [List.getElem?_take_of_lt hi, Vector.getElem?_toList]

/-- Reading a used slot reads the element of the used prefix. -/
theorem getElem!_used {a : Vector α n} {count i : Nat} {x : α}
    (h : (a.toList.take count)[i]? = some x) : a[i]! = x := by
  have hi : i < count := by
    have := (List.getElem?_eq_some_iff.mp h).1
    rw [List.length_take] at this
    omega
  rw [getElem?_used hi] at h
  obtain ⟨hn, rfl⟩ := Vector.getElem?_eq_some_iff.mp h
  exact getElem!_pos a i hn

/-! ## Shifting and storing -/

private theorem getElem?_shiftUp (a : Vector α n) {stop start : Nat} (hstart : start < n)
    (i : Nat) :
    (shiftUp stop a start)[i]? = if stop < i ∧ i ≤ start then a[i - 1]? else a[i]? := by
  -- the loop runs downwards, from the last used slot to the gap
  induction start generalizing a with
  | zero =>
    have : ¬ (stop < i ∧ i ≤ 0) := by omega
    rw [shiftUp, if_neg this]
  | succ j ih =>
    by_cases hlt : stop < j + 1
    · simp only [shiftUp, hlt, if_true]
      rw [ih _ (by omega)]
      rcases Nat.lt_trichotomy i (j + 1) with h | rfl | h
      · -- below the slot just written
        simp only [Vector.getElem?_setIfInBounds]
        by_cases hs : stop < i
        · have h₁ : stop < i ∧ i ≤ j := by omega
          have h₂ : stop < i ∧ i ≤ j + 1 := by omega
          have h₃ : ¬ j + 1 = i - 1 := by omega
          simp [h₁, h₂, h₃]
        · have h₃ : ¬ j + 1 = i := by omega
          simp [hs, h₃]
      · -- the slot just written has the value of the one below it
        have h₂ : j < n := by omega
        simp [hlt, hstart, h₂, getElem!_pos]
      · -- above the slots that move
        have h₁ : ¬ (stop < i ∧ i ≤ j) := by omega
        have h₂ : ¬ (stop < i ∧ i ≤ j + 1) := by omega
        have h₃ : ¬ j + 1 = i := by omega
        simp [h₁, h₂, h₃]
    · have h₁ : ¬ (stop < i ∧ i ≤ j + 1) := by omega
      simp [shiftUp, hlt, h₁]

/-- Shifting up from `count` and storing at `pos` inserts into the used prefix. -/
theorem used_shiftUp (a : Vector α n) {pos count : Nat} (hpos : pos ≤ count) (hcount : count < n)
    (x : α) :
    ((shiftUp pos a count).setIfInBounds pos x).toList.take (count + 1) =
      (a.toList.take count).insertIdx pos x := by
  apply List.ext_getElem?
  intro i
  have hlen : (a.toList.take count).length = count := by simp; omega
  rcases Nat.lt_or_ge i (count + 1) with hi | hi
  · rw [getElem?_used hi, Vector.getElem?_setIfInBounds, getElem?_shiftUp a hcount,
      List.getElem?_insertIdx]
    -- below the gap, at it, and above it
    rcases Nat.lt_trichotomy i pos with h | rfl | h
    · have h₁ : ¬ pos = i := by omega
      have h₂ : ¬ (pos < i ∧ i ≤ count) := by omega
      simp only [h₁, h₂, h, if_true, if_false]
      rw [getElem?_used (by omega)]
    · have h₁ : i < n := by omega
      simp [h₁, hlen, hpos]
    · have h₁ : ¬ pos = i := by omega
      have h₂ : pos < i ∧ i ≤ count := by omega
      have h₃ : ¬ i < pos := by omega
      have h₄ : ¬ i = pos := by omega
      simp only [h₁, h₂, h₃, h₄, and_self, if_true, if_false]
      rw [getElem?_used (by omega)]
  · -- neither list goes that far
    rw [List.getElem?_eq_none (by simp; omega), List.getElem?_eq_none]
    rw [List.length_insertIdx]
    split <;> omega

/-! ## Copying -/

private theorem getElem?_copyFrom (src : Vector α m) (dst : Vector α n) {start count : Nat}
    (hdst : count ≤ n) (hsrc : start + count ≤ m) (i : Nat) :
    (copyFrom src start dst count)[i]? = if i < count then src[start + i]? else dst[i]? := by
  induction count with
  | zero => simp [copyFrom]
  | succ j ih =>
    rw [copyFrom, Vector.getElem?_setIfInBounds, ih (by omega) (by omega)]
    rcases Nat.lt_trichotomy i j with h | rfl | h
    · have h₁ : ¬ j = i := by omega
      have h₂ : i < j + 1 := by omega
      simp [h, h₁, h₂]
    · have h₁ : i < n := by omega
      have h₂ : start + i < m := by omega
      simp [h₁, h₂, getElem!_pos]
    · have h₁ : ¬ j = i := by omega
      have h₂ : ¬ i < j := by omega
      have h₃ : ¬ i < j + 1 := by omega
      simp [h₁, h₂, h₃]

/-- Copying `count` slots makes them the used prefix. -/
theorem used_copyFrom (src : Vector α m) (dst : Vector α n) {start count : Nat}
    (hdst : count ≤ n) (hsrc : start + count ≤ m) :
    (copyFrom src start dst count).toList.take count = (src.toList.drop start).take count := by
  apply List.ext_getElem?
  intro i
  rcases Nat.lt_or_ge i count with hi | hi
  · rw [getElem?_used hi, getElem?_copyFrom src dst hdst hsrc, List.getElem?_take_of_lt hi]
    simp [hi]
  · rw [List.getElem?_eq_none (by simp; omega), List.getElem?_eq_none (by simp; omega)]

/-- Copying a used prefix, shifting up and storing is the prefix with one more
element; it fills the temporary array. -/
theorem toList_shiftUp_copyFrom (src : Vector α n) (dst : Vector α (n + 1)) {pos : Nat}
    (hpos : pos ≤ n) (x : α) :
    ((shiftUp pos (copyFrom src 0 dst n) n).setIfInBounds pos x).toList =
      src.toList.insertIdx pos x := by
  have h := used_shiftUp (copyFrom src 0 dst n) hpos (Nat.lt_succ_self n) x
  rw [used_copyFrom src dst (by omega) (by omega), List.drop_zero] at h
  rwa [List.take_of_length_le (by simp), List.take_of_length_le (by simp)] at h

/-- The merge loop inserts into a full array. -/
theorem toList_mergeInto (old : Vector α bptreeMaxKeys) (new : α) (temp : Vector α bptreeOrder)
    {pos : Nat} (hpos : pos ≤ bptreeMaxKeys) :
    (mergeInto old new pos bptreeMaxKeys 0 0 temp).toList = old.toList.insertIdx pos new := by
  obtain ⟨⟨l⟩, hl⟩ := old
  obtain ⟨⟨l'⟩, hl'⟩ := temp
  match l, l', hl, hl' with
  | [x, y, z], [a, b, c, d], _, _ =>
    interval_cases pos <;> rfl

end Arrays

end SqlApi.Core

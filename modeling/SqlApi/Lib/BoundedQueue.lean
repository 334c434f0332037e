import Mathlib.Data.List.Basic
import Mathlib.Tactic.Common

/-!
# Bounded queues

A bounded queue that can be closed, what any run of it delivers, and the circular buffer
that holds one.
-/

namespace SqlApi.Lib

variable {α : Type}

/-! ## The queue -/

/-- A queue: what is in it, the oldest first, and whether it is closed. -/
structure BoundedQueue (α : Type) where
  contents : List α
  closed : Bool

/-- What happens to a queue. -/
inductive QueueEvent (α : Type) where
  /-- Something is offered, and accepted or not. -/
  | offer (a : α) (accepted : Bool)
  /-- Something is delivered, or there is nothing to come. -/
  | poll (a : Option α)
  | close

/-- What an event puts into the queue. -/
def QueueEvent.accepted : QueueEvent α → Option α
  | .offer a true => some a
  | _ => none

/-- What an event takes out of the queue. -/
def QueueEvent.delivered : QueueEvent α → Option α
  | .poll a => a
  | _ => none

namespace BoundedQueue

/-- An empty queue. -/
def empty : BoundedQueue α := ⟨[], false⟩

/-- One operation. A poll has to wait while the queue is empty and open. -/
inductive Step (capacity : Nat) (q : BoundedQueue α) : QueueEvent α → BoundedQueue α → Prop
  | accept (a : α) : q.closed = false → q.contents.length < capacity →
      Step capacity q (.offer a true) ⟨q.contents ++ [a], q.closed⟩
  | refuse (a : α) : q.closed = true ∨ capacity ≤ q.contents.length →
      Step capacity q (.offer a false) q
  | deliver (a : α) (rest : List α) : q.contents = a :: rest →
      Step capacity q (.poll (some a)) ⟨rest, q.closed⟩
  | drained : q.contents = [] → q.closed = true → Step capacity q (.poll none) q
  | close : Step capacity q .close ⟨q.contents, true⟩

/-- Operations one after the other, on a queue that was empty. -/
inductive Run (capacity : Nat) : List (QueueEvent α) → BoundedQueue α → Prop
  | empty : Run capacity [] .empty
  | step {t : List (QueueEvent α)} {q q' : BoundedQueue α} {e : QueueEvent α} :
      Run capacity t q → Step capacity q e q' → Run capacity (t ++ [e]) q'

variable {capacity : Nat} {q q' : BoundedQueue α} {e : QueueEvent α} {t : List (QueueEvent α)}

/-- An operation keeps the order and loses nothing. -/
theorem Step.order (h : Step capacity q e q') :
    q.contents ++ e.accepted.toList = e.delivered.toList ++ q'.contents := by
  cases h with
  | accept a _ _ => rfl
  | refuse a _ => exact List.append_nil _
  | deliver a rest hcontents =>
    rw [hcontents]
    exact List.append_nil _
  | drained _ _ => exact List.append_nil _
  | close => exact List.append_nil _

theorem Step.length_le (h : Step capacity q e q') (hq : q.contents.length ≤ capacity) :
    q'.contents.length ≤ capacity := by
  cases h with
  | accept a _ hroom =>
    rw [List.length_append]
    exact hroom
  | refuse a _ => exact hq
  | deliver a rest hcontents =>
    rw [hcontents, List.length_cons] at hq
    exact Nat.le_of_succ_le hq
  | drained _ _ => exact hq
  | close => exact hq

/-- What was accepted is what was delivered, in the same order, and what is still there. -/
theorem Run.order (h : Run capacity t q) :
    t.filterMap QueueEvent.accepted = t.filterMap QueueEvent.delivered ++ q.contents := by
  induction h with
  | empty => rfl
  | @step t q q' e _ hstep ih =>
    have hone (f : QueueEvent α → Option α) : [e].filterMap f = (f e).toList := by
      cases hf : f e <;> simp [hf]
    rw [List.filterMap_append, List.filterMap_append, ih, hone, hone, List.append_assoc,
      List.append_assoc, hstep.order]

theorem Run.length_le (h : Run capacity t q) : q.contents.length ≤ capacity := by
  induction h with
  | empty => exact Nat.zero_le _
  | step _ hstep ih => exact hstep.length_le ih

end BoundedQueue

/-! ## Circular buffers -/

/-- A circular buffer. -/
structure RingBuffer (α : Type) where
  items : List α
  head : Nat
  tail : Nat
  count : Nat

namespace RingBuffer

/-- Write behind the last item; `none` when that is outside of the buffer. -/
def put (r : RingBuffer α) (a : α) : Option (RingBuffer α) :=
  if r.tail < r.items.length then
    some ⟨r.items.set r.tail a, r.head, (r.tail + 1) % r.items.length, r.count + 1⟩
  else none

/-- Read the first item; `none` when that is outside of the buffer. -/
def take (r : RingBuffer α) : Option (α × RingBuffer α) :=
  r.items[r.head]?.map fun a =>
    (a, ⟨r.items, (r.head + 1) % r.items.length, r.tail, r.count - 1⟩)

/-- The buffer holds these items. -/
structure Holds (r : RingBuffer α) (contents : List α) : Prop where
  headLt : r.head < r.items.length
  tailEq : r.tail = (r.head + r.count) % r.items.length
  countEq : r.count = contents.length
  countLe : r.count ≤ r.items.length
  get : ∀ i, i < r.count → r.items[(r.head + i) % r.items.length]? = contents[i]?

variable {r : RingBuffer α} {contents : List α}

theorem holds_empty {items : List α} (h : 0 < items.length) :
    (⟨items, 0, 0, 0⟩ : RingBuffer α).Holds [] where
  headLt := h
  tailEq := (Nat.zero_mod _).symm
  countEq := rfl
  countLe := Nat.zero_le _
  get i hi := absurd hi (Nat.not_lt_zero i)

/-- Two items less than one round apart are in different places. -/
private theorem mod_ne_mod {head i j n : Nat} (hij : i < j) (hj : j < n) :
    (head + i) % n ≠ (head + j) % n := by
  intro h
  have hdvd : n ∣ head + j - (head + i) :=
    Nat.dvd_of_mod_eq_zero (Nat.sub_mod_eq_zero_of_mod_eq h.symm)
  have hle := Nat.le_of_dvd (by omega) hdvd
  omega

theorem Holds.tail_lt (h : r.Holds contents) : r.tail < r.items.length := by
  rw [h.tailEq]
  exact Nat.mod_lt _ (Nat.zero_lt_of_lt h.headLt)

/-- One item more. -/
theorem Holds.put (h : r.Holds contents) (hroom : r.count < r.items.length) (a : α) :
    ∃ r', r.put a = some r' ∧ r'.Holds (contents ++ [a]) ∧
      r'.items.length = r.items.length := by
  refine ⟨_, if_pos h.tail_lt, ?_, List.length_set⟩
  have hsame : (r.items.set r.tail a).length = r.items.length := List.length_set
  refine ⟨?_, ?_, ?_, ?_, ?_⟩ <;> dsimp only
  · rw [hsame]
    exact h.headLt
  · rw [hsame, h.tailEq, Nat.mod_add_mod, Nat.add_assoc]
  · rw [List.length_append, h.countEq]
    rfl
  · rw [hsame]
    exact hroom
  · intro i hi
    rw [hsame]
    rcases Nat.lt_succ_iff_lt_or_eq.mp hi with hold | rfl
    · -- the slot that is written is none of those in use, because there is room
      have hne : r.tail ≠ (r.head + i) % r.items.length := by
        rw [h.tailEq]
        exact (mod_ne_mod hold hroom).symm
      rw [List.getElem?_set_ne hne, h.get i hold, List.getElem?_append_left (h.countEq ▸ hold)]
    · rw [← h.tailEq, List.getElem?_set_self h.tail_lt, h.countEq, List.getElem?_concat_length]

/-- One item less. -/
theorem Holds.take {a : α} (h : r.Holds (a :: contents)) :
    ∃ r', r.take = some (a, r') ∧ r'.Holds contents ∧ r'.items.length = r.items.length := by
  have hcount := h.countEq
  rw [List.length_cons] at hcount
  have hfirst : r.items[r.head]? = some a := by
    have hget := h.get 0 (by omega)
    rwa [Nat.add_zero, Nat.mod_eq_of_lt h.headLt] at hget
  refine ⟨⟨r.items, (r.head + 1) % r.items.length, r.tail, r.count - 1⟩, ?_, ?_, rfl⟩
  · unfold RingBuffer.take
    rw [hfirst]
    rfl
  · -- behind the new head, every index is one less
    have hshift (i : Nat) : ((r.head + 1) % r.items.length + i) % r.items.length =
        (r.head + (i + 1)) % r.items.length := by
      rw [Nat.mod_add_mod, Nat.add_assoc, Nat.add_comm 1 i]
    refine ⟨?_, ?_, ?_, ?_, ?_⟩ <;> dsimp only
    · exact Nat.mod_lt _ (Nat.zero_lt_of_lt h.headLt)
    · rw [hshift, h.tailEq, Nat.sub_add_cancel (by omega)]
    · omega
    · exact Nat.le_trans (Nat.sub_le _ _) h.countLe
    · intro i hi
      rw [hshift, h.get (i + 1) (by omega), List.getElem?_cons_succ]

end RingBuffer

end SqlApi.Lib

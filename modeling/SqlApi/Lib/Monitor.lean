import Mathlib.Algebra.BigOperators.Group.Finset.Basic
import Mathlib.Data.Fintype.Basic
import Mathlib.Tactic.Common

/-!
# Sleeping on a condition variable

Threads take items that others provide. A thread that finds none goes to sleep, and whoever
provides an item wakes one sleeper, not all of them. The item may then be taken by a thread
that did not sleep, so a wakeup is not tied to an item; but while a thread sleeps, there are
at least as many threads awake as items (`NoLostWakeup`).
-/

namespace SqlApi.Lib

/-- Where a thread is with regard to the condition. -/
inductive Sleep where
  /-- Busy with something else. -/
  | away
  /-- On its way to test the condition; a sleeper that has been woken is here. -/
  | awake
  /-- It found nothing, and is going to sleep. -/
  | drowsy
  | asleep
  deriving DecidableEq

/-- The threads, and how many items there are. -/
structure Monitor (T : Type) where
  items : Nat
  thread : T → Sleep

namespace Monitor

variable {T : Type} [DecidableEq T]

/-- One critical section. Items are only provided while no thread is between its test and its
sleep. -/
inductive Step (m : Monitor T) : Monitor T → Prop
  | idle : Step m m
  /-- Also a sleeper that wakes up on its own. -/
  | enter {i : T} : m.thread i = .away ∨ m.thread i = .asleep →
      Step m ⟨m.items, Function.update m.thread i .awake⟩
  | take {i : T} {n : Nat} : m.thread i = .awake → m.items = n + 1 →
      Step m ⟨n, Function.update m.thread i .away⟩
  | giveUp {i : T} : m.thread i = .awake → m.items = 0 →
      Step m ⟨m.items, Function.update m.thread i .away⟩
  | doze {i : T} : m.thread i = .awake → m.items = 0 →
      Step m ⟨m.items, Function.update m.thread i .drowsy⟩
  | sleep {i : T} : m.thread i = .drowsy →
      Step m ⟨m.items, Function.update m.thread i .asleep⟩
  | provide : (∀ i, m.thread i ≠ .drowsy) → (∀ i, m.thread i ≠ .asleep) →
      Step m ⟨m.items + 1, m.thread⟩
  | provideWake {i : T} : (∀ i, m.thread i ≠ .drowsy) → m.thread i = .asleep →
      Step m ⟨m.items + 1, Function.update m.thread i .awake⟩
  | wakeAll {thread : T → Sleep} : (∀ i, thread i ≠ .asleep) →
      (∀ i, thread i = .drowsy → m.thread i = .drowsy) → Step m ⟨m.items, thread⟩

/-- How many threads are awake. -/
def awakeCount [Fintype T] (thread : T → Sleep) : Nat :=
  ∑ i, if thread i = .awake then 1 else 0

/-- No thread sleeps through an item. -/
structure NoLostWakeup [Fintype T] (m : Monitor T) : Prop where
  drowsy : ∀ i, m.thread i = .drowsy → m.items = 0
  asleep : ∀ i, m.thread i = .asleep → m.items ≤ awakeCount m.thread

private theorem eq_of_update {thread : T → Sleep} {i j : T} {new old : Sleep}
    (h : Function.update thread i new j = old) (hne : new ≠ old) : thread j = old := by
  by_cases hj : j = i
  · subst hj
    rw [Function.update_self] at h
    exact absurd h hne
  · rwa [Function.update_of_ne hj] at h

variable [Fintype T]

/-- One thread moves. -/
theorem awakeCount_update (thread : T → Sleep) (i : T) (new : Sleep) :
    awakeCount (Function.update thread i new) + (if thread i = .awake then 1 else 0) =
      awakeCount thread + (if new = .awake then 1 else 0) := by
  have hothers : ∑ j ∈ Finset.univ.erase i,
        (if Function.update thread i new j = .awake then 1 else 0) =
      ∑ j ∈ Finset.univ.erase i, (if thread j = .awake then 1 else 0) := by
    apply Finset.sum_congr rfl
    intro j hj
    rw [Function.update_of_ne (Finset.ne_of_mem_erase hj)]
  unfold awakeCount
  rw [← Finset.add_sum_erase _ _ (Finset.mem_univ i), hothers, Function.update_self,
    ← Finset.add_sum_erase Finset.univ (fun j => if thread j = .awake then 1 else 0)
      (Finset.mem_univ i)]
  omega

omit [DecidableEq T] in
theorem awakeCount_eq_zero_iff {thread : T → Sleep} :
    awakeCount thread = 0 ↔ ∀ i, thread i ≠ .awake := by
  simp [awakeCount]

/-- Each step keeps the count right: a thread that stops being awake has taken an item, or
there is none. -/
theorem NoLostWakeup.step {m m' : Monitor T} (h : m.NoLostWakeup) (hstep : m.Step m') :
    m'.NoLostWakeup := by
  obtain ⟨hdrowsy, hasleep⟩ := h
  cases hstep with
  | idle => exact ⟨hdrowsy, hasleep⟩
  | @enter i hi =>
    have hcount := awakeCount_update m.thread i .awake
    have hnot : m.thread i ≠ .awake := by rcases hi with hi | hi <;> simp [hi]
    simp only [hnot, if_false, if_true] at hcount
    refine ⟨fun j hj => hdrowsy j (eq_of_update hj (by simp)), fun j hj => ?_⟩
    have hold := hasleep j (eq_of_update hj (by simp))
    dsimp only
    omega
  | @take i n hi hitems =>
    -- one thread less is awake, and there is one item less
    have hcount := awakeCount_update m.thread i .away
    simp only [hi, if_true, reduceCtorEq, if_false] at hcount
    refine ⟨fun j hj => ?_, fun j hj => ?_⟩
    · have hnone := hdrowsy j (eq_of_update hj (by simp))
      omega
    · have hold := hasleep j (eq_of_update hj (by simp))
      dsimp only
      omega
  | giveUp _ hitems => exact ⟨fun _ _ => hitems, fun _ _ => hitems.trans_le (Nat.zero_le _)⟩
  | doze _ hitems => exact ⟨fun _ _ => hitems, fun _ _ => hitems.trans_le (Nat.zero_le _)⟩
  | @sleep i hi =>
    -- nothing was provided since the test
    have hitems := hdrowsy i hi
    exact ⟨fun _ _ => hitems, fun _ _ => hitems.trans_le (Nat.zero_le _)⟩
  | provide hnone hall =>
    exact ⟨fun j hj => absurd hj (hnone j), fun j hj => absurd hj (hall j)⟩
  | @provideWake i hnone hi =>
    -- one item more, and one thread more is awake for it
    have hcount := awakeCount_update m.thread i .awake
    simp only [hi, reduceCtorEq, if_false, if_true] at hcount
    refine ⟨fun j hj => absurd (eq_of_update hj (by simp)) (hnone j), fun j _ => ?_⟩
    have hold := hasleep i hi
    dsimp only
    omega
  | wakeAll hall hsame =>
    exact ⟨fun j hj => hdrowsy j (hsame j hj), fun j hj => absurd hj (hall j)⟩

omit [DecidableEq T] in
/-- While there are items and a thread sleeps, another one is awake. -/
theorem NoLostWakeup.exists_awake {m : Monitor T} (h : m.NoLostWakeup) (hitems : 0 < m.items)
    {i : T} (hi : m.thread i = .asleep) : ∃ j, m.thread j = .awake := by
  have hle := h.asleep i hi
  by_contra hnone
  have hzero : awakeCount m.thread = 0 :=
    awakeCount_eq_zero_iff.mpr fun j hj => hnone ⟨j, hj⟩
  omega

end Monitor

end SqlApi.Lib

import Mathlib.Data.Finset.Card
import Mathlib.Logic.Function.Basic

/-!
# A readers–writer lock

The lock as a counter of readers and a flag for the writer. Whatever the order of
requests, it counts exactly the clients that hold it, and a client that writes holds it
alone (`RWLock.Counts`).
-/

namespace SqlApi.Lib

/-! ## The lock -/

/-- What a request asks of the lock. -/
inductive Access where
  | none | read | write
  deriving DecidableEq, Repr

/-- A lock: how many read, and whether someone writes. -/
structure RWLock where
  readers : Nat
  writer : Bool
  deriving DecidableEq, Repr

namespace RWLock

/-- Nobody holds the lock. -/
def free : RWLock := ⟨0, false⟩

/-- Take the lock, unless others are in the way. -/
def tryLock (l : RWLock) : Access → Option RWLock
  | .none => some l
  | .read => if l.writer then none else some { l with readers := l.readers + 1 }
  | .write => if l.writer || l.readers != 0 then none else some { l with writer := true }

/-- A free lock is given to everyone. -/
theorem tryLock_free (a : Access) : ∃ l, free.tryLock a = some l := by
  cases a <;> exact ⟨_, rfl⟩

theorem tryLock_read {l l' : RWLock} (h : l.tryLock .read = some l') :
    l.writer = false ∧ l' = { l with readers := l.readers + 1 } := by
  change (if l.writer then none else _) = some l' at h
  split at h
  · cases h
  · next hwriter => exact ⟨by simpa using hwriter, (Option.some.inj h).symm⟩

theorem tryLock_write {l l' : RWLock} (h : l.tryLock .write = some l') :
    l.readers = 0 ∧ l.writer = false ∧ l' = { l with writer := true } := by
  change (if l.writer || l.readers != 0 then none else _) = some l' at h
  split at h
  · cases h
  · next hfree =>
    simp only [Bool.or_eq_true, bne_iff_ne, not_or, not_not, Bool.not_eq_true] at hfree
    exact ⟨hfree.2, hfree.1, (Option.some.inj h).symm⟩

/-- Give the lock back. -/
def unlock (l : RWLock) : Access → RWLock
  | .none => l
  | .read => { l with readers := l.readers - 1 }
  | .write => { l with writer := false }

/-- Giving back what was just taken. -/
theorem unlock_of_tryLock {l l' : RWLock} {a : Access} (h : l.tryLock a = some l') :
    l'.unlock a = l := by
  cases a with
  | none => exact (Option.some.inj h).symm
  | read =>
    obtain ⟨-, rfl⟩ := tryLock_read h
    rfl
  | write =>
    obtain ⟨-, hwriter, rfl⟩ := tryLock_write h
    change (⟨l.readers, false⟩ : RWLock) = l
    rw [← hwriter]

variable {W : Type} {l l' : RWLock} {holds : W → Access} {w : W} {a : Access}

/-- The lock counts exactly who holds it, and a writer holds it alone. -/
structure Counts (l : RWLock) (holds : W → Access) : Prop where
  readers : ∃ ws : Finset W, ws.card = l.readers ∧ ∀ w, w ∈ ws ↔ holds w = .read
  writer : l.writer = true ↔ ∃ w, holds w = .write
  alone : ∀ v w, holds v = .write → holds w ≠ .none → v = w

theorem counts_free : Counts free fun _ : W => Access.none where
  readers := ⟨∅, rfl, fun w => by simp⟩
  writer := by simp [free]
  alone := fun _ _ h => nomatch h

/-- Nobody writes while somebody else holds the lock. -/
theorem Counts.not_write (h : Counts l holds) (hw : holds w = .read) (v : W) :
    holds v ≠ .write := by
  intro hv
  have heq := h.alone v w hv (by rw [hw]; exact nofun)
  rw [heq, hw] at hv
  cases hv

/-- Free readers and writer: nobody holds the lock. -/
theorem Counts.idle (h : Counts l holds) (hreaders : l.readers = 0) (hwriter : l.writer = false)
    (v : W) : holds v = .none := by
  obtain ⟨ws, hcard, hws⟩ := h.readers
  obtain rfl := Finset.card_eq_zero.mp (hcard.trans hreaders)
  cases hv : holds v with
  | none => rfl
  | read => exact absurd ((hws v).mpr hv) (Finset.notMem_empty v)
  | write =>
    rw [h.writer.mpr ⟨v, hv⟩] at hwriter
    cases hwriter

/-- When nobody holds the lock, it is free. -/
theorem Counts.eq_free (h : Counts l holds) (hnone : ∀ v, holds v = .none) : l = free := by
  obtain ⟨ws, hcard, hws⟩ := h.readers
  have hempty : ws = ∅ := by
    refine Finset.eq_empty_of_forall_notMem fun v hv => ?_
    have hread := (hws v).mp hv
    rw [hnone v] at hread
    cases hread
  have hwriter : l.writer = false := by
    rw [Bool.eq_false_iff]
    intro hwriter
    obtain ⟨v, hv⟩ := h.writer.mp hwriter
    rw [hnone v] at hv
    cases hv
  rw [hempty, Finset.card_empty] at hcard
  calc
    l = ⟨l.readers, l.writer⟩ := rfl
    _ = free := by rw [← hcard, hwriter, free]

/-- What a lock that was taken says about the others. -/
theorem Counts.of_tryLock (h : Counts l holds) (hlock : l.tryLock a = some l') :
    (a = .read → ∀ v, holds v ≠ .write) ∧ (a = .write → ∀ v, holds v = .none) := by
  constructor
  · rintro rfl v hv
    have hwriter := (tryLock_read hlock).1
    rw [h.writer.mpr ⟨v, hv⟩] at hwriter
    cases hwriter
  · rintro rfl v
    obtain ⟨hreaders, hwriter, -⟩ := tryLock_write hlock
    exact h.idle hreaders hwriter v

variable [DecidableEq W]

/-- The count is right after taking the lock. -/
theorem Counts.tryLock (h : Counts l holds) (hw : holds w = .none)
    (hlock : l.tryLock a = some l') : Counts l' (Function.update holds w a) := by
  obtain ⟨hread, hwrite⟩ := h.of_tryLock hlock
  cases a with
  | none =>
    obtain rfl := Option.some.inj hlock
    rwa [← hw, Function.update_eq_self]
  | read =>
    obtain ⟨ws, hcard, hws⟩ := h.readers
    -- the lock was granted for reading, so nobody writes
    have hnobody : ∀ v, Function.update holds w Access.read v ≠ .write := by
      intro v
      rcases eq_or_ne v w with rfl | hne
      · rw [Function.update_self]
        exact nofun
      · rw [Function.update_of_ne hne]
        exact hread rfl v
    obtain ⟨hwriter, rfl⟩ := tryLock_read hlock
    refine ⟨⟨insert w ws, ?_, fun v => ?_⟩, ?_, fun v _ hv => absurd hv (hnobody v)⟩
    · rw [Finset.card_insert_of_notMem, hcard]
      rw [hws, hw]
      exact nofun
    · rcases eq_or_ne v w with rfl | hne
      · simp
      · rw [Function.update_of_ne hne, Finset.mem_insert, hws]
        simp [hne]
    · exact iff_of_false (by simp [hwriter]) fun ⟨v, hv⟩ => hnobody v hv
  | write =>
    obtain ⟨ws, hcard, hws⟩ := h.readers
    -- the lock was granted for writing, so only this holder is left
    have hothers : ∀ v, Function.update holds w Access.write v ≠ .none → v = w := by
      intro v hv
      by_contra hne
      rw [Function.update_of_ne hne] at hv
      exact hv (hwrite rfl v)
    obtain ⟨-, -, rfl⟩ := tryLock_write hlock
    refine ⟨⟨ws, hcard, fun v => ?_⟩, ?_, fun v u hv hu => ?_⟩
    · rcases eq_or_ne v w with rfl | hne
      · rw [hws, hw, Function.update_self]
        simp
      · rw [Function.update_of_ne hne, hws]
    · exact iff_of_true rfl ⟨w, Function.update_self ..⟩
    · rw [hothers v (by rw [hv]; exact nofun), hothers u hu]

/-- The count is right after giving the lock back. -/
theorem Counts.unlock (h : Counts l holds) :
    Counts (l.unlock (holds w)) (Function.update holds w .none) := by
  obtain ⟨ws, hcard, hws⟩ := h.readers
  -- who keeps the lock, and how, is the same for everybody else
  have hother : ∀ v a, a ≠ Access.none →
      (Function.update holds w .none v = a ↔ v ≠ w ∧ holds v = a) := by
    intro v a ha
    rcases eq_or_ne v w with rfl | hne
    · simp [ha.symm]
    · simp [hne]
  have halone : ∀ v u, Function.update holds w .none v = .write →
      Function.update holds w .none u ≠ .none → v = u := by
    intro v u hv hu
    rcases eq_or_ne u w with rfl | hne
    · exact absurd (Function.update_self ..) hu
    · rw [Function.update_of_ne hne] at hu
      exact h.alone v u ((hother v .write nofun).mp hv).2 hu
  cases hw : holds w with
  | none =>
    rw [← hw, Function.update_eq_self, hw]
    exact h
  | read =>
    refine ⟨⟨ws.erase w, ?_, fun v => ?_⟩, ?_, halone⟩
    · rw [Finset.card_erase_of_mem ((hws w).mpr hw), hcard]
      rfl
    · rw [hother v .read nofun, Finset.mem_erase, hws]
    · change l.writer = true ↔ _
      rw [h.writer]
      refine exists_congr fun v => ?_
      rw [hother v .write nofun, iff_and_self]
      rintro hv rfl
      rw [hw] at hv
      cases hv
  | write =>
    refine ⟨⟨ws, hcard, fun v => ?_⟩, ?_, halone⟩
    · rw [hother v .read nofun, hws, iff_and_self]
      rintro hv rfl
      rw [hw] at hv
      cases hv
    · refine iff_of_false nofun ?_
      rintro ⟨v, hv⟩
      obtain ⟨hne, hv⟩ := (hother v .write nofun).mp hv
      exact hne (h.alone v w hv (by rw [hw]; exact nofun))

end RWLock

end SqlApi.Lib

import Mathlib.Tactic.Common

/-!
# Programs over an operation signature

A program is a tree of operations: it returns a value, or it performs one
operation on a shared state and continues with the answer. The same tree has
two readings:

- **Sequential** (`run`): the operations happen one after another, nothing in
  between. A handler may refuse an operation (`none`), which stands for
  undefined behaviour of the program.
- **Stepwise** (`step`): one operation at a time, so that the operations of
  several programs can be interleaved.

`Uses` restricts the operations a program may perform at all. A program that uses
only operations which leave the state alone does so at every single step, not only
when it has finished.
-/

namespace SqlApi.Lib

/-- A program with operations `Op`, answered in `Ans`, returning an `α`. -/
inductive Program (Op : Type) (Ans : Op → Type) (α : Type) where
  /-- Return a value. -/
  | ret (a : α) : Program Op Ans α
  /-- Perform one operation and continue with its answer. -/
  | call (o : Op) (k : Ans o → Program Op Ans α) : Program Op Ans α

/-- What an operation does to the state; `none` is undefined behaviour. -/
abbrev Handler (Op : Type) (Ans : Op → Type) (σ : Type) :=
  (o : Op) → σ → Option (Ans o × σ)

namespace Program

variable {Op : Type} {Ans : Op → Type} {α β γ σ : Type}

/-! ## Sequencing -/

/-- Sequencing: graft the continuation at every return. -/
protected def bind : Program Op Ans α → (α → Program Op Ans β) → Program Op Ans β
  | .ret a, f => f a
  | .call o k, f => .call o fun a => (k a).bind f

instance : Monad (Program Op Ans) where
  pure := .ret
  bind := Program.bind

/-- A single operation. -/
def perform (o : Op) : Program Op Ans (Ans o) := .call o .ret

@[simp] theorem ret_bind (a : α) (f : α → Program Op Ans β) :
    (Program.ret a : Program Op Ans α) >>= f = f a := rfl

@[simp] theorem call_bind (o : Op) (k : Ans o → Program Op Ans α)
    (f : α → Program Op Ans β) :
    Program.call o k >>= f = .call o fun a => k a >>= f := rfl

private theorem bind_ret (p : Program Op Ans α) : p >>= Program.ret = p := by
  induction p with
  | ret a => rfl
  | call o k ih =>
    rw [call_bind]
    congr 1
    funext a
    exact ih a

private theorem bind_bind (p : Program Op Ans α) (f : α → Program Op Ans β)
    (g : β → Program Op Ans γ) : p >>= f >>= g = p >>= fun a => f a >>= g := by
  induction p with
  | ret a => rfl
  | call o k ih =>
    simp only [call_bind]
    congr 1
    funext a
    exact ih a

instance : LawfulMonad (Program Op Ans) :=
  LawfulMonad.mk' _ bind_ret (fun _ _ => rfl) bind_bind

/-! ## Sequential reading -/

/-- Run a program to its end. -/
def run (h : Handler Op Ans σ) : Program Op Ans α → σ → Option (α × σ)
  | .ret a, s => some (a, s)
  | .call o k, s => (h o s).bind fun r => run h (k r.1) r.2

@[simp] theorem run_ret (h : Handler Op Ans σ) (a : α) (s : σ) :
    run h (.ret a : Program Op Ans α) s = some (a, s) := rfl

@[simp] theorem run_pure (h : Handler Op Ans σ) (a : α) (s : σ) :
    run h (pure a : Program Op Ans α) s = some (a, s) := rfl

theorem run_call (h : Handler Op Ans σ) (o : Op) (k : Ans o → Program Op Ans α) (s : σ) :
    run h (.call o k) s = (h o s).bind fun r => run h (k r.1) r.2 := rfl

/-- Running a sequence is running its parts one after the other. -/
@[simp] theorem run_bind (h : Handler Op Ans σ) (p : Program Op Ans α)
    (f : α → Program Op Ans β) (s : σ) :
    run h (p >>= f) s = (run h p s).bind fun r => run h (f r.1) r.2 := by
  induction p generalizing s with
  | ret a => rfl
  | call o k ih =>
    simp only [call_bind, run_call, Option.bind_assoc]
    congr 1
    funext r
    exact ih r.1 r.2

@[simp] theorem run_map (h : Handler Op Ans σ) (f : α → β) (p : Program Op Ans α) (s : σ) :
    run h (f <$> p) s = (run h p s).map fun r => (f r.1, r.2) := by
  rw [← bind_pure_comp, run_bind]
  cases run h p s <;> rfl

@[simp] theorem run_perform (h : Handler Op Ans σ) (o : Op) (s : σ) :
    run h (perform o) s = h o s := by
  cases hs : h o s <;> simp [perform, run_call, hs]

/-- The run of a sequence whose first part is known. -/
theorem run_bind_of_eq {h : Handler Op Ans σ} {p : Program Op Ans α} {s s' : σ} {a : α}
    (hp : run h p s = some (a, s')) (f : α → Program Op Ans β) :
    run h (p >>= f) s = run h (f a) s' := by
  rw [run_bind, hp, Option.bind_some]

/-! ## Stepwise reading -/

/-- One operation of a program that has not returned yet. -/
def step (h : Handler Op Ans σ) : Program Op Ans α → σ → Option (Program Op Ans α × σ)
  | .ret _, _ => none
  | .call o k, s => (h o s).map fun r => (k r.1, r.2)

/-- An operation brings a program forward. -/
theorem apply_ne_call {o : Op} (k : Ans o → Program Op Ans α) (a : Ans o) : k a ≠ .call o k := by
  intro heq
  generalize hp : k a = p at heq
  -- a program is well founded: it cannot be its own continuation
  induction p generalizing o k a with
  | ret b => cases heq
  | call o' k' ih =>
    obtain ⟨rfl, hk⟩ := Program.call.inj heq
    obtain rfl := eq_of_heq hk
    exact ih a k' a rfl hp

/-- A step does not change what the rest of the run computes. -/
theorem run_step {h : Handler Op Ans σ} {p p' : Program Op Ans α} {s s' : σ}
    (hstep : step h p s = some (p', s')) : run h p s = run h p' s' := by
  cases p with
  | ret a => simp [step] at hstep
  | call o k =>
    simp only [step, Option.map_eq_some_iff, Prod.mk.injEq] at hstep
    obtain ⟨r, hr, rfl, rfl⟩ := hstep
    rw [run_call, hr, Option.bind_some]

/-! ## Restricted programs -/

/-- Every operation in the program is one of these. -/
def Uses (P : Op → Prop) : Program Op Ans α → Prop
  | .ret _ => True
  | .call o k => P o ∧ ∀ a, Uses P (k a)

variable {P : Op → Prop}

theorem uses_pure (a : α) : Uses P (pure a : Program Op Ans α) := trivial

theorem uses_perform {o : Op} (ho : P o) : Uses P (perform o : Program Op Ans (Ans o)) :=
  ⟨ho, fun _ => trivial⟩

theorem Uses.bind {p : Program Op Ans α} {f : α → Program Op Ans β} (hp : p.Uses P)
    (hf : ∀ a, (f a).Uses P) : Uses P (p >>= f) := by
  induction p with
  | ret a => exact hf a
  | call o k ih => exact ⟨hp.1, fun a => ih a (hp.2 a)⟩

theorem Uses.map {p : Program Op Ans α} (hp : p.Uses P) (f : α → β) : Uses P (f <$> p) := by
  rw [← bind_pure_comp]
  exact hp.bind fun a => uses_pure (f a)

/-- What every operation preserves, a run preserves. -/
theorem Uses.run {h : Handler Op Ans σ} {R : σ → σ → Prop} {p : Program Op Ans α} {s s' : σ}
    {a : α} (hp : p.Uses P) (hrefl : ∀ s, R s s) (htrans : ∀ s t u, R s t → R t u → R s u)
    (hstep : ∀ o s r, P o → h o s = some r → R s r.2) (hrun : p.run h s = some (a, s')) :
    R s s' := by
  -- the induction is on the program: one operation, then what follows its answer
  induction p generalizing s with
  | ret b =>
    obtain ⟨-, rfl⟩ : b = a ∧ s = s' := by simpa using hrun
    exact hrefl s
  | call o k ih =>
    rw [run_call, Option.bind_eq_some_iff] at hrun
    obtain ⟨r, hr, hrest⟩ := hrun
    exact htrans s r.2 s' (hstep o s r hp.1 hr) (ih r.1 (hp.2 r.1) hrest)

/-- A step of a restricted program performs one of its operations. -/
theorem Uses.step {h : Handler Op Ans σ} {p p' : Program Op Ans α} {s s' : σ} (hp : p.Uses P)
    (hstep : p.step h s = some (p', s')) : p'.Uses P ∧ ∃ o r, P o ∧ h o s = some r ∧ r.2 = s' := by
  cases p with
  | ret a => simp [Program.step] at hstep
  | call o k =>
    simp only [Program.step, Option.map_eq_some_iff, Prod.mk.injEq] at hstep
    obtain ⟨r, hr, rfl, rfl⟩ := hstep
    exact ⟨hp.2 r.1, o, r, hp.1, hr, rfl⟩

/-! ## Paths with given answers -/

/-- On every path whose answers are among these, every operation is one of these and the
returned value is too. -/
def Obeys (P : Op → Prop) (A : (o : Op) → Ans o → Prop) (Q : α → Prop) : Program Op Ans α → Prop
  | .ret a => Q a
  | .call o k => P o ∧ ∀ a, A o a → Obeys P A Q (k a)

variable {A : (o : Op) → Ans o → Prop} {Q : α → Prop} {R : β → Prop}

theorem obeys_pure {a : α} (ha : Q a) : Obeys P A Q (pure a : Program Op Ans α) := ha

theorem obeys_perform {o : Op} (ho : P o) : Obeys P A (A o) (perform o : Program Op Ans (Ans o)) :=
  ⟨ho, fun _ ha => ha⟩

theorem Obeys.bind {p : Program Op Ans α} {f : α → Program Op Ans β} (hp : p.Obeys P A Q)
    (hf : ∀ a, Q a → (f a).Obeys P A R) : Obeys P A R (p >>= f) := by
  induction p with
  | ret a => exact hf a hp
  | call o k ih => exact ⟨hp.1, fun a ha => ih a (hp.2 a ha)⟩

theorem Obeys.imp {p : Program Op Ans α} {Q' : α → Prop} (hp : p.Obeys P A Q)
    (hQ : ∀ a, Q a → Q' a) : p.Obeys P A Q' := by
  induction p with
  | ret a => exact hQ a hp
  | call o k ih => exact ⟨hp.1, fun a ha => ih a (hp.2 a ha)⟩

theorem Obeys.map {p : Program Op Ans α} (hp : p.Obeys P A Q) {f : α → β}
    (hf : ∀ a, Q a → R (f a)) : Obeys P A R (f <$> p) := by
  rw [← bind_pure_comp]
  exact hp.bind fun a ha => obeys_pure (hf a ha)

/-- A program without other operations has none on any path. -/
theorem Uses.obeys {P' : Op → Prop} {p : Program Op Ans α} (hp : p.Uses P')
    (hP : ∀ o, P' o → P o) : p.Obeys P A fun _ => True := by
  induction p with
  | ret a => trivial
  | call o k ih => exact ⟨hP o hp.1, fun a _ => ih a (hp.2 a)⟩

/-- A step performs one of the operations, and stays on the paths when its answer is among
those expected. -/
theorem Obeys.step {h : Handler Op Ans σ} {p p' : Program Op Ans α} {s s' : σ}
    (hp : p.Obeys P A Q) (hstep : p.step h s = some (p', s')) :
    ∃ o r, P o ∧ h o s = some r ∧ r.2 = s' ∧ (A o r.1 → p'.Obeys P A Q) := by
  cases p with
  | ret a => simp [Program.step] at hstep
  | call o k =>
    simp only [Program.step, Option.map_eq_some_iff, Prod.mk.injEq] at hstep
    obtain ⟨r, hr, rfl, rfl⟩ := hstep
    exact ⟨o, r, hp.1, hr, rfl, hp.2 r.1⟩

/-- What the operations preserve and their answers need, a run preserves. -/
theorem Obeys.run {h : Handler Op Ans σ} {I : σ → Prop} {p : Program Op Ans α} {s s' : σ} {a : α}
    (hp : p.Obeys P A Q) (hop : ∀ o s r, P o → I s → h o s = some r → I r.2 ∧ A o r.1) (hs : I s)
    (hrun : p.run h s = some (a, s')) : I s' ∧ Q a := by
  -- the induction is on the program; the answer of each operation is admitted before it goes on
  induction p generalizing s with
  | ret b =>
    obtain ⟨rfl, rfl⟩ : b = a ∧ s = s' := by simpa using hrun
    exact ⟨hs, hp⟩
  | call o k ih =>
    rw [run_call, Option.bind_eq_some_iff] at hrun
    obtain ⟨r, hr, hrest⟩ := hrun
    obtain ⟨hs', ha⟩ := hop o s r hp.1 hs hr
    exact ih r.1 (hp.2 r.1 ha) hs' hrest

/-! ## Runs that agree -/

/-- A state that gives the same answers to every operation gives the same value. -/
theorem Uses.run_agree {h : Handler Op Ans σ} {S : σ → σ → Prop} {p : Program Op Ans α}
    {s s' t : σ} {a : α} (hp : p.Uses P)
    (hop : ∀ o s t r, P o → S s t → h o s = some r → ∃ t', h o t = some (r.1, t') ∧ S r.2 t')
    (hst : S s t) (hrun : p.run h s = some (a, s')) : ∃ t', p.run h t = some (a, t') ∧ S s' t' := by
  -- the induction is on the program: both states give each operation the same answer
  induction p generalizing s t with
  | ret b =>
    obtain ⟨rfl, rfl⟩ : b = a ∧ s = s' := by simpa using hrun
    exact ⟨t, rfl, hst⟩
  | call o k ih =>
    rw [run_call, Option.bind_eq_some_iff] at hrun
    obtain ⟨r, hr, hrest⟩ := hrun
    obtain ⟨t', ht, hst'⟩ := hop o s t r hp.1 hst hr
    rw [run_call, ht]
    exact ih r.1 (hp.2 r.1) hst' hrest

/-! ## Programs in an environment -/

/-- The program performs operations only where `C` allows them; and whatever the environment
answers, and however it changes its state with each answer, as far as `F` allows it, the value
returned and the state then are as `Q` says. -/
def Ensures (C : Op → σ → Prop) (F : (o : Op) → σ → Ans o → σ → Prop) (Q : α → σ → Prop) :
    Program Op Ans α → σ → Prop
  | .ret a, s => Q a s
  | .call o k, s => C o s ∧ ∀ a s', F o s a s' → Ensures C F Q (k a) s'

section Ensures

variable {C : Op → σ → Prop} {F : (o : Op) → σ → Ans o → σ → Prop} {Q' : α → σ → Prop}
  {R' : β → σ → Prop} {s s' : σ}

/-- One operation, and what follows it. -/
theorem ensures_perform_bind {o : Op} {f : Ans o → Program Op Ans α} (ho : C o s)
    (hf : ∀ a s', F o s a s' → Ensures C F Q' (f a) s') : Ensures C F Q' (perform o >>= f) s :=
  ⟨ho, hf⟩

theorem ensures_perform {o : Op} {Q' : Ans o → σ → Prop} (ho : C o s)
    (hQ : ∀ a s', F o s a s' → Q' a s') : Ensures C F Q' (perform o) s := ⟨ho, hQ⟩

theorem Ensures.imp {p : Program Op Ans α} {Q'' : α → σ → Prop} (hp : p.Ensures C F Q' s)
    (hQ : ∀ a s, Q' a s → Q'' a s) : p.Ensures C F Q'' s := by
  induction p generalizing s with
  | ret a => exact hQ a s hp
  | call o k ih => exact ⟨hp.1, fun a s' ha => ih a (hp.2 a s' ha)⟩

theorem Ensures.bind {p : Program Op Ans α} {f : α → Program Op Ans β} (hp : p.Ensures C F Q' s)
    (hf : ∀ a s, Q' a s → (f a).Ensures C F R' s) : Ensures C F R' (p >>= f) s := by
  induction p generalizing s with
  | ret a => exact hf a s hp
  | call o k ih => exact ⟨hp.1, fun a s' ha => ih a (hp.2 a s' ha)⟩

/-- The operation that is next is allowed. -/
theorem Ensures.allowed {o : Op} {k : Ans o → Program Op Ans α}
    (hp : (Program.call o k).Ensures C F Q' s) : C o s := hp.1

/-- One step of the environment. -/
theorem Ensures.answer {o : Op} {k : Ans o → Program Op Ans α} {a : Ans o}
    (hp : (Program.call o k).Ensures C F Q' s) (ha : F o s a s') : (k a).Ensures C F Q' s' :=
  hp.2 a s' ha

end Ensures

/-! ## Counting operations -/

/-- On every path there are exactly `n` of these operations. -/
def Exactly (P : Op → Prop) : Nat → Program Op Ans α → Prop
  | n, .ret _ => n = 0
  | n, .call o k => (P o ∧ ∃ m, n = m + 1 ∧ ∀ a, Exactly P m (k a)) ∨ ¬ P o ∧ ∀ a, Exactly P n (k a)

/-- One of them, and a program without more. -/
theorem Exactly.count {n : Nat} {o : Op} {k : Ans o → Program Op Ans α} (ho : P o)
    (h : Exactly P n (.call o k)) : ∃ m, n = m + 1 ∧ ∀ a, Exactly P m (k a) := by
  rcases h with ⟨-, h⟩ | ⟨hno, -⟩
  · exact h
  · exact absurd ho hno

/-- Another operation does not count. -/
theorem Exactly.other {n : Nat} {o : Op} {k : Ans o → Program Op Ans α} (ho : ¬ P o)
    (h : Exactly P n (.call o k)) (a : Ans o) : Exactly P n (k a) := by
  rcases h with ⟨hyes, -⟩ | ⟨-, h⟩
  · exact absurd hyes ho
  · exact h a

theorem exactly_perform {o : Op} (ho : P o) :
    Exactly P 1 (perform o : Program Op Ans (Ans o)) :=
  .inl ⟨ho, 0, rfl, fun _ => rfl⟩

theorem exactly_perform_bind {n : Nat} {o : Op} {f : Ans o → Program Op Ans α} (ho : ¬ P o)
    (hf : ∀ a, Exactly P n (f a)) : Exactly P n (perform o >>= f) :=
  .inr ⟨ho, hf⟩

end Program

end SqlApi.Lib

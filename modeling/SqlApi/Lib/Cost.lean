import SqlApi.Lib.Program
import Mathlib.Algebra.Order.Ring.Int

/-!
# The cost of programs

Every operation has a price, and a run costs what its operations cost.

`Pays` is a triple with a budget and a potential of the states. The budget is what
a run may cost, given the value it returns, beyond the growth of the potential: a
program that leaves something behind may pay for its work with it. Budgets may be
negative; the budget of a sequence is the sum of the budgets of its parts.
-/

namespace SqlApi.Lib.Program

variable {Op : Type} {Ans : Op → Type} {α β σ : Type}

/-! ## The cost of a run -/

/-- What a run costs when every operation it gets to costs what `w` says. -/
def cost (w : Op → Nat) (h : Handler Op Ans σ) : Program Op Ans α → σ → Nat
  | .ret _, _ => 0
  | .call o k, s => w o + (h o s).elim 0 fun r => cost w h (k r.1) r.2

section Cost

variable {w : Op → Nat} {h : Handler Op Ans σ}

@[simp] theorem cost_ret (a : α) (s : σ) : cost w h (.ret a : Program Op Ans α) s = 0 := rfl

@[simp] theorem cost_pure (a : α) (s : σ) : cost w h (pure a : Program Op Ans α) s = 0 := rfl

theorem cost_call (o : Op) (k : Ans o → Program Op Ans α) (s : σ) :
    cost w h (.call o k) s = w o + (h o s).elim 0 fun r => cost w h (k r.1) r.2 := rfl

@[simp] theorem cost_perform (o : Op) (s : σ) : cost w h (perform o) s = w o := by
  cases hs : h o s <;> simp [perform, cost_call, hs]

/-- A sequence costs what its parts cost. -/
theorem cost_bind (p : Program Op Ans α) (f : α → Program Op Ans β) (s : σ) :
    cost w h (p >>= f) s =
      cost w h p s + (run h p s).elim 0 fun r => cost w h (f r.1) r.2 := by
  -- the induction is on the first program, whose operations are all paid before the second
  induction p generalizing s with
  | ret a => simp
  | call o k ih =>
    rw [call_bind, cost_call, cost_call, run_call]
    cases hs : h o s with
    | none => rfl
    | some r =>
      simp only [Option.elim_some, Option.bind_some]
      rw [ih r.1 r.2, Nat.add_assoc]

/-- The cost of a sequence whose first part is known. -/
theorem cost_bind_of_eq {p : Program Op Ans α} {s s' : σ} {a : α}
    (hp : run h p s = some (a, s')) (f : α → Program Op Ans β) :
    cost w h (p >>= f) s = cost w h p s + cost w h (f a) s' := by
  rw [cost_bind, hp, Option.elim_some]

@[simp] theorem cost_map (f : α → β) (p : Program Op Ans α) (s : σ) :
    cost w h (f <$> p) s = cost w h p s := by
  rw [← bind_pure_comp, cost_bind]
  cases run h p s <;> rfl

end Cost

/-! ## Budgets -/

/-- From a state with `P`, a run that returns `a` ends in a state with `Q a` and costs at most
`b a` more than the potential has grown. -/
def Pays (w : Op → Nat) (h : Handler Op Ans σ) (pot : σ → Int) (P : σ → Prop) (b : α → Int)
    (Q : α → σ → Prop) (p : Program Op Ans α) : Prop :=
  ∀ s a s', P s → run h p s = some (a, s') → Q a s' ∧ cost w h p s + pot s ≤ b a + pot s'

section Pays

variable {w : Op → Nat} {h : Handler Op Ans σ} {pot : σ → Int} {P : σ → Prop} {b : α → Int}
  {Q : α → σ → Prop} {R : β → σ → Prop} {c : β → Int}

theorem pays_pure {a : α} (hQ : ∀ s, P s → Q a s) (hb : 0 ≤ b a) :
    Pays w h pot P b Q (pure a) := by
  intro s a' s' hs hrun
  obtain ⟨rfl, rfl⟩ : a = a' ∧ s = s' := by simpa using hrun
  refine ⟨hQ s hs, ?_⟩
  rw [cost_pure]
  simpa using hb

/-- An operation, from what it answers and does to the state. -/
theorem pays_perform {o : Op} {b : Ans o → Int} {Q : Ans o → σ → Prop}
    (ho : ∀ s a s', P s → h o s = some (a, s') → Q a s' ∧ w o + pot s ≤ b a + pot s') :
    Pays w h pot P b Q (perform o) := by
  intro s a s' hs hrun
  rw [run_perform] at hrun
  rw [cost_perform]
  exact ho s a s' hs hrun

/-- What the first part leaves of the budget is the budget of the second. -/
theorem Pays.bind {p : Program Op Ans α} {f : α → Program Op Ans β}
    (hp : Pays w h pot P b Q p) (hf : ∀ a, Pays w h pot (Q a) (fun r => c r - b a) R (f a)) :
    Pays w h pot P c R (p >>= f) := by
  intro s r s'' hs hrun
  rw [run_bind, Option.bind_eq_some_iff] at hrun
  obtain ⟨⟨a, s'⟩, hfirst, hrest⟩ := hrun
  obtain ⟨hQ, hcost⟩ := hp s a s' hs hfirst
  obtain ⟨hR, hcost'⟩ := hf a s' r s'' hQ hrest
  -- the credit that the first part leaves pays for the second
  refine ⟨hR, ?_⟩
  rw [cost_bind_of_eq hfirst]
  dsimp only at hcost hcost'
  push_cast
  omega

theorem Pays.map {p : Program Op Ans α} {f : α → β} (hp : Pays w h pot P (fun a => c (f a)) Q p)
    (hR : ∀ a s, Q a s → R (f a) s) : Pays w h pot P c R (f <$> p) := by
  rw [← bind_pure_comp]
  exact hp.bind fun a => pays_pure (hR a) (by omega)

/-- A larger budget, from fewer states and with less known afterwards. -/
theorem Pays.imp {p : Program Op Ans α} {P' : σ → Prop} {b' : α → Int} {Q' : α → σ → Prop}
    (hp : Pays w h pot P b Q p) (hP : ∀ s, P' s → P s) (hb : ∀ a, b a ≤ b' a)
    (hQ : ∀ a s, Q a s → Q' a s) : Pays w h pot P' b' Q' p := by
  intro s a s' hs hrun
  obtain ⟨hQs, hcost⟩ := hp s a s' (hP s hs) hrun
  exact ⟨hQ a s' hQs, hcost.trans (Int.add_le_add_right (hb a) _)⟩

/-- A larger budget. -/
theorem Pays.mono {p : Program Op Ans α} {b' : α → Int} (hp : Pays w h pot P b Q p)
    (hb : ∀ a, b a ≤ b' a) : Pays w h pot P b' Q p :=
  hp.imp (fun _ hs => hs) hb fun _ _ hQ => hQ

end Pays

end SqlApi.Lib.Program

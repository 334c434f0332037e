import Mathlib.Data.List.Perm.Basic
import Mathlib.Logic.Function.Basic
import Mathlib.Tactic.Common

/-!
# Life cycles

Items are received, may wait in a queue, are served by one agent, who counts them once and
releases them; after that the same item can be received again. What has happened to an item
is then a number of complete lives and the part of one that its stage says.
-/

namespace SqlApi.Lib

/-- Where an item is in its life. -/
inductive Stage (Θ : Type) where
  | closed
  | received
  | queued
  | served (agent : Θ) (counted : Bool)

/-- What happens to an item. -/
inductive LifeEvent (ι Θ : Type) where
  | receive (i : ι)
  | serve (agent : Θ) (i : ι)
  | count (agent : Θ) (i : ι)
  | release (agent : Θ) (i : ι)

variable {ι Θ : Type}

/-- The item of an event. -/
def LifeEvent.item : LifeEvent ι Θ → ι
  | .receive i | .serve _ i | .count _ i | .release _ i => i

/-- Whether an event starts a life. -/
def LifeEvent.isReceive : LifeEvent ι Θ → Bool
  | .receive _ => true
  | _ => false

/-- Whether an event counts an item. -/
def LifeEvent.isCount : LifeEvent ι Θ → Bool
  | .count _ _ => true
  | _ => false

/-- A complete life, with one agent. -/
def life (i : ι) (agent : Θ) : List (LifeEvent ι Θ) :=
  [.receive i, .serve agent i, .count agent i, .release agent i]

/-- The part of a life up to a stage. -/
def Stage.part (i : ι) : Stage Θ → List (LifeEvent ι Θ)
  | .closed => []
  | .received | .queued => [.receive i]
  | .served agent false => [.receive i, .serve agent i]
  | .served agent true => [.receive i, .serve agent i, .count agent i]

/-! ## Steps -/

variable [DecidableEq ι]

/-- What can happen to one of the items; moving to the queue is no event. -/
inductive LifeStep (stage : ι → Stage Θ) : Option (LifeEvent ι Θ) → (ι → Stage Θ) → Prop
  | receive (i : ι) : stage i = .closed →
      LifeStep stage (some (.receive i)) (Function.update stage i .received)
  | enqueue (i : ι) : stage i = .received →
      LifeStep stage none (Function.update stage i .queued)
  | serve (agent : Θ) (i : ι) : stage i = .received ∨ stage i = .queued →
      LifeStep stage (some (.serve agent i)) (Function.update stage i (.served agent false))
  | count (agent : Θ) (i : ι) : stage i = .served agent false →
      LifeStep stage (some (.count agent i)) (Function.update stage i (.served agent true))
  | release (agent : Θ) (i : ι) : stage i = .served agent true →
      LifeStep stage (some (.release agent i)) (Function.update stage i .closed)

/-- What happens to all items, none of which was there at first. -/
inductive LifeRun : List (LifeEvent ι Θ) → (ι → Stage Θ) → Prop
  | init : LifeRun [] fun _ => .closed
  | step {t : List (LifeEvent ι Θ)} {stage stage' : ι → Stage Θ} {e : Option (LifeEvent ι Θ)} :
      LifeRun t stage → LifeStep stage e stage' → LifeRun (t ++ e.toList) stage'

/-- What happened to one item. -/
def historyOf (i : ι) (t : List (LifeEvent ι Θ)) : List (LifeEvent ι Θ) :=
  t.filter fun e => e.item = i

variable {t : List (LifeEvent ι Θ)} {stage stage' : ι → Stage Θ} {e : Option (LifeEvent ι Θ)}

/-- A step of one item: its part of a life goes on, or ends. -/
theorem LifeStep.part (h : LifeStep stage e stage') (i : ι) :
    (stage i).part i ++ historyOf i e.toList = (stage' i).part i ∨
      ∃ agent, (stage i).part i ++ historyOf i e.toList = life i agent ∧ stage' i = .closed := by
  -- an event of another item is no part of this one's history
  have hother {j : ι} {new : Stage Θ} {e : LifeEvent ι Θ} (hij : i ≠ j) (he : e.item = j) :
      (stage i).part i ++ historyOf i [e] = (Function.update stage j new i).part i := by
    have hne : ¬ e.item = i := he.symm ▸ hij.symm
    rw [Function.update_of_ne hij, historyOf, List.filter_cons_of_neg (by simpa using hne),
      List.filter_nil, List.append_nil]
  have hself {e : LifeEvent ι Θ} (he : e.item = i) : historyOf i [e] = [e] := by
    rw [historyOf, List.filter_cons_of_pos (by simpa using he), List.filter_nil]
  cases h with
  | receive j hj =>
    by_cases hij : i = j
    · subst hij
      rw [hj, Function.update_self, Option.toList_some, hself rfl]
      exact .inl rfl
    · exact .inl (hother hij rfl)
  | enqueue j hj =>
    by_cases hij : i = j
    · subst hij
      rw [hj, Function.update_self]
      exact .inl rfl
    · rw [Function.update_of_ne hij]
      exact .inl (List.append_nil _)
  | serve agent j hj =>
    by_cases hij : i = j
    · subst hij
      rw [Function.update_self, Option.toList_some, hself rfl]
      rcases hj with hj | hj <;> rw [hj] <;> exact .inl rfl
    · exact .inl (hother hij rfl)
  | count agent j hj =>
    by_cases hij : i = j
    · subst hij
      rw [hj, Function.update_self, Option.toList_some, hself rfl]
      exact .inl rfl
    · exact .inl (hother hij rfl)
  | release agent j hj =>
    by_cases hij : i = j
    · subst hij
      rw [hj, Option.toList_some, hself rfl]
      exact .inr ⟨agent, rfl, Function.update_self ..⟩
    · exact .inl (hother hij rfl)

/-- What happened to an item: complete lives, and the part of one that its stage says. -/
theorem LifeRun.history (h : LifeRun t stage) (i : ι) :
    ∃ agents : List Θ, historyOf i t = agents.flatMap (life i) ++ (stage i).part i := by
  induction h with
  | init => exact ⟨[], rfl⟩
  | @step t stage stage' e _ hstep ih =>
    obtain ⟨agents, ih⟩ := ih
    have hsplit : historyOf i (t ++ e.toList) = historyOf i t ++ historyOf i e.toList :=
      List.filter_append ..
    rcases hstep.part i with hpart | ⟨agent, hlife, hclosed⟩
    · exact ⟨agents, by rw [hsplit, ih, List.append_assoc, hpart]⟩
    · refine ⟨agents ++ [agent], ?_⟩
      rw [hsplit, ih, List.append_assoc, hlife, hclosed, List.flatMap_append]
      simp [Stage.part]

/-! ## Counting -/

/-- When no item is there any more, as many were counted as were received. -/
theorem LifeRun.count_eq (h : LifeRun t stage) (hclosed : ∀ i, stage i = .closed) :
    (t.filter LifeEvent.isCount).length = (t.filter LifeEvent.isReceive).length := by
  -- item by item, as a life has one of each
  have hitem (i : ι) : (historyOf i t).countP LifeEvent.isCount =
      (historyOf i t).countP LifeEvent.isReceive := by
    obtain ⟨agents, hhistory⟩ := h.history i
    rw [hhistory, hclosed, Stage.part, List.append_nil, List.countP_flatMap, List.countP_flatMap]
    rfl
  have hkeys (p : LifeEvent ι Θ → Bool) (i : ι) :
      ((t.filter p).map LifeEvent.item).count i = (historyOf i t).countP p := by
    rw [List.count, List.countP_map, List.countP_filter, historyOf, List.countP_filter]
    refine List.countP_congr fun e _ => ?_
    simp [and_comm]
  have hperm : ((t.filter LifeEvent.isCount).map LifeEvent.item).Perm
      ((t.filter LifeEvent.isReceive).map LifeEvent.item) :=
    List.perm_iff_count.mpr fun i => by rw [hkeys, hkeys, hitem]
  simpa using hperm.length_eq

end SqlApi.Lib

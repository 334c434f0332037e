import SqlApi.Core.BPTreeSpec

/-!
# Runs of insertions

A sequence of `bptree_insert` calls on a fresh tree, with memory for every node.
The step lemma says what one call does to the entries of the index, the run lemma
what all of them do. The index then is a finite map: the first insertion of a key
counts, later ones are refused.
-/

namespace SqlApi.Core

open SqlApi.Lib

/-- `bptree_create`: no nodes yet, and every allocation will succeed. -/
def bptreeCreate : Memory where
  nodes := []
  root := none
  records := []
  table := ⟨1, [], 0, 0⟩
  allocs := []

/-- `bptree_insert` for each pair in turn, with the values returned. -/
def bptreeInsertAll : List (Int × RecPtr) → Prog (List Bool)
  | [] => pure []
  | (key, value) :: rest => do
    let result ← bptreeInsert key value
    let results ← bptreeInsertAll rest
    pure (result :: results)

/-- The pairs whose insertion returned 1. -/
def accepted (ops : List (Int × RecPtr)) (results : List Bool) : List (Int × RecPtr) :=
  (ops.zip results).filterMap fun p => if p.2 then some p.1 else none

theorem bptreeCreate_indexed : Indexed bptreeCreate [] := .inl ⟨rfl, rfl⟩

section Runs

variable {m : Memory} {es : List (Int × RecPtr)}

/-- Which keys a list of entries binds. -/
theorem mem_keys_iff_lookup (es : List (Int × RecPtr)) (key : Int) :
    key ∈ es.map Prod.fst ↔ es.lookup key ≠ none := by
  rw [ne_eq, List.lookup_eq_none_iff]
  simp

/-- One call: refused when the key is bound, otherwise one more entry. -/
theorem Indexed.step_bptreeInsert (hm : Indexed m es) (hok : m.NoFailure) (key : Int)
    (value : RecPtr) :
    ∃ m', (bptreeInsert key value).run m = some (decide (key ∉ es.map Prod.fst), m') ∧
      (key ∈ es.map Prod.fst → m' = m) ∧ m'.NoFailure ∧
      Indexed m' (if key ∈ es.map Prod.fst then es else Tree.insertEntry key value es) := by
  by_cases hkey : key ∈ es.map Prod.fst
  · refine ⟨m, ?_, fun _ => rfl, hok, by rwa [if_pos hkey]⟩
    rw [hm.run_bptreeInsert_of_mem hkey, decide_eq_false (not_not_intro hkey)]
  · obtain ⟨nodes', root', hrun, -, hm'⟩ := hm.run_bptreeInsert hkey (hok.granted _) value
    refine ⟨_, ?_, fun h => absurd h hkey, ?_, by rwa [if_neg hkey]⟩
    · rw [hrun, decide_eq_true hkey]
    · rw [Memory.NoFailure, Memory.withIndex, show m.allocs = [] from hok]
      exact List.drop_nil

/-- All calls: the entries are the old ones and the accepted ones, and a key is
bound to the first value given for it. -/
theorem Indexed.run_bptreeInsertAll (hm : Indexed m es) (hok : m.NoFailure)
    (ops : List (Int × RecPtr)) :
    ∃ results m' es', (bptreeInsertAll ops).run m = some (results, m') ∧ m'.NoFailure ∧
      Indexed m' es' ∧ es'.Perm (es ++ accepted ops results) ∧
      ∀ key, es'.lookup key = (es ++ ops).lookup key := by
  induction ops generalizing m es with
  | nil => exact ⟨[], m, es, rfl, hok, hm, by simp [accepted], by simp⟩
  | cons op rest ih =>
    obtain ⟨key, value⟩ := op
    -- one call, then the rest from where it leads
    obtain ⟨m₁, hrun₁, -, hok₁, hm₁⟩ := hm.step_bptreeInsert hok key value
    obtain ⟨results, m', es', hrun, hok', hm', hperm, hlookup⟩ := ih hm₁ hok₁
    refine ⟨decide (key ∉ es.map Prod.fst) :: results, m', es', ?_, hok', hm', ?_, fun k => ?_⟩
    · rw [bptreeInsertAll, run_bind_of hrun₁, run_bind_of hrun]
      rfl
    · -- a refused call adds nothing, an accepted one its entry
      refine hperm.trans ?_
      by_cases hkey : key ∈ es.map Prod.fst
      · simp [accepted, hkey]
      · have hentry : (Tree.insertEntry key value es).Perm ((key, value) :: es) :=
          List.perm_orderedInsert _ _ _
        simp only [hkey, if_false, not_false_eq_true, decide_true, accepted, List.zip_cons_cons,
          List.filterMap_cons, if_true]
        exact (hentry.append_right _).trans List.perm_middle.symm
    · -- a key that is there already hides the later ones, in the index and in the list
      rw [hlookup k, List.lookup_append, List.lookup_append, Tree.lookup_cons_pair]
      by_cases hkey : key ∈ es.map Prod.fst
      · rw [if_pos hkey]
        by_cases hk : k = key
        · subst hk
          obtain ⟨v, hv⟩ := Option.ne_none_iff_exists'.mp ((mem_keys_iff_lookup es k).mp hkey)
          simp [hv]
        · rw [if_neg hk]
      · rw [if_neg hkey, Tree.lookup_insertEntry hkey]
        by_cases hk : k = key
        · subst hk
          have hnone : es.lookup k = none := by
            by_contra h
            exact hkey ((mem_keys_iff_lookup es k).mpr h)
          simp [hnone]
        · rw [if_neg hk, if_neg hk]

end Runs

/-! ## The map -/

/-- The index is a finite map: after any insertions, another one is accepted
exactly when its key is new and otherwise changes nothing, and a search returns
the value of the first insertion of its key. -/
theorem bptree_refines_map (ops : List (Int × RecPtr)) :
    ∃ results m, (bptreeInsertAll ops).run bptreeCreate = some (results, m) ∧
      (∀ key value, ∃ m', (bptreeInsert key value).run m =
          some (decide (key ∉ ops.map Prod.fst), m') ∧
        (key ∈ ops.map Prod.fst → m' = m)) ∧
      ∀ key, (bptreeSearch key).run m = some (ops.lookup key, m) := by
  obtain ⟨results, m, es, hrun, hok, hm, -, hlookup⟩ :=
    bptreeCreate_indexed.run_bptreeInsertAll rfl ops
  have hkeys : ∀ key, key ∈ es.map Prod.fst ↔ key ∈ ops.map Prod.fst := fun key => by
    rw [mem_keys_iff_lookup, mem_keys_iff_lookup, hlookup, List.nil_append]
  refine ⟨results, m, hrun, fun key value => ?_, fun key => ?_⟩
  · obtain ⟨m', hstep, hsame, -, -⟩ := hm.step_bptreeInsert hok key value
    simp only [hkeys] at hstep hsame
    exact ⟨m', hstep, hsame⟩
  · rw [hm.run_bptreeSearch, hlookup, List.nil_append]

end SqlApi.Core

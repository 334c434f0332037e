import Mathlib.Data.List.Perm.Basic
import SqlApi.Core.BPTreeMap
import SqlApi.Core.TableSpec

/-!
# Queries by id, through the index and along the rows

Two ways to get a table: `table_insert` calls on an empty one, and rows whose ids
were entered into a fresh index in any order. On both the index answers every query
by id as a scan along the rows would.

The index lists the entries in the order of their keys (`selectById`), the rows stand in the order
of insertion. Ids are distinct, so the two lists are permutations of each other, and the one by key
is sorted.
-/

namespace SqlApi.Core

open SqlApi.Lib

/-! ## Tables -/

/-- `table_create` -/
def tableCreate : Memory := bptreeCreate

/-- `table_insert` for each name and age in turn, with the pointers returned. -/
def tableInsertAll : List (List UInt8 × Int) → Prog (List (Option RecPtr))
  | [] => pure []
  | (name, age) :: rest => do
    let result ← tableInsert name age
    let results ← tableInsertAll rest
    pure (result :: results)

/-- A table that `table_insert` calls lead to. -/
def InsertedTable (m : Memory) : Prop :=
  ∃ calls results, (tableInsertAll calls).run tableCreate = some (results, m)

/-- A table that holds some rows and whose index was built from their ids: one
accepted `bptree_insert` for each row, in some order. -/
def BuiltTable (m : Memory) : Prop :=
  ∃ rows order m₀, HoldsRows m rows ∧ order.Perm rows.entries ∧ m₀.root = none ∧ m₀.NoFailure ∧
    (bptreeInsertAll order).run m₀ = some (List.replicate order.length true, m)

theorem tableCreate_inv : TableInv tableCreate [] where
  size := rfl
  slots := rfl
  capacity := rfl
  live := fun _ hrow => nomatch hrow
  index := ⟨[], bptreeCreate_indexed, List.Perm.refl _⟩

section Runs

variable {m m' : Memory} {rows : Rows}

/-- One insertion keeps the invariant: a row more, or the rows as before when the
counter has come round to an id that is taken. -/
theorem TableInv.step_tableInsert (hm : TableInv m rows) (hok : m.NoFailure) (name : List UInt8)
    (age : Int) :
    ∃ result m' rows', (tableInsert name age).run m = some (result, m') ∧ TableInv m' rows' := by
  by_cases hfresh : m.table.nextId ∈ rows.map fun row => row.2.id
  · obtain ⟨m', hrun, hsame, -, -⟩ :=
      hm.run_tableInsert_refused (hok.granted _) (.inl hfresh) name age
    exact ⟨none, m', rows, hrun, hsame.inv⟩
  · obtain ⟨m', hrun, hm', -⟩ := hm.run_tableInsert hfresh (hok.granted _) name age
    exact ⟨_, m', _, hrun, hm'⟩

/-- Insertions never get stuck, and the invariant holds after them. -/
theorem TableInv.run_tableInsertAll (hm : TableInv m rows) (hok : m.NoFailure)
    (calls : List (List UInt8 × Int)) :
    ∃ results m' rows', (tableInsertAll calls).run m = some (results, m') ∧
      TableInv m' rows' := by
  induction calls generalizing m rows with
  | nil => exact ⟨[], m, rows, rfl, hm⟩
  | cons call rest ih =>
    obtain ⟨name, age⟩ := call
    obtain ⟨result, m₁, rows₁, hrun₁, hm₁⟩ := hm.step_tableInsert hok name age
    obtain ⟨results, m', rows', hrun, hm'⟩ := ih hm₁ (hok.run hrun₁)
    refine ⟨result :: results, m', rows', ?_, hm'⟩
    rw [tableInsertAll, run_bind_of hrun₁, run_bind_of hrun]
    rfl

theorem insertedTable_create : InsertedTable tableCreate := ⟨[], [], rfl⟩

theorem InsertedTable.inv (hm : InsertedTable m) : m.NoFailure ∧ ∃ rows, TableInv m rows := by
  obtain ⟨calls, results, hrun⟩ := hm
  have hok : tableCreate.NoFailure := rfl
  refine ⟨hok.run hrun, ?_⟩
  obtain ⟨results', m', rows, hrun', hm'⟩ := tableCreate_inv.run_tableInsertAll hok calls
  obtain ⟨-, rfl⟩ : results' = results ∧ m' = m := by simpa [hrun'] using hrun
  exact ⟨rows, hm'⟩

/-- Accepted by every call: all of them. -/
theorem accepted_replicate (ops : List (Int × RecPtr)) :
    accepted ops (List.replicate ops.length true) = ops := by
  induction ops with
  | nil => rfl
  | cons op rest ih =>
    have hcons : accepted (op :: rest) (List.replicate (op :: rest).length true) =
        op :: accepted rest (List.replicate rest.length true) := rfl
    rw [hcons, ih]

theorem BuiltTable.inv (hm : BuiltTable m) : m.NoFailure ∧ ∃ rows, TableInv m rows := by
  obtain ⟨rows, order, m₀, hrows, horder, hroot, hok, hrun⟩ := hm
  refine ⟨hok.run hrun, rows, { hrows with index := ?_ }⟩
  have hm₀ : Indexed m₀ [] := .inl ⟨hroot, rfl⟩
  obtain ⟨results, m', es, hrun', -, hes, hperm, -⟩ := hm₀.run_bptreeInsertAll hok order
  obtain ⟨rfl, rfl⟩ : results = List.replicate order.length true ∧ m' = m := by
    simpa [hrun'] using hrun
  rw [accepted_replicate, List.nil_append] at hperm
  exact ⟨es, hes, hperm.trans horder⟩

end Runs

/-! ## Agreement -/

section Agreement

variable {m : Memory} {rows : Rows}

/-- Entries and rows select the same records. -/
private theorem selectById_perm {es : List (Int × RecPtr)} (hes : es.Perm rows.entries)
    (comparison : TableComparison) (id : Int) :
    (es.filter fun e => tableCompareInt e.1 comparison id).Perm
      (Rows.entries (rows.filter fun row => tableCompareInt row.2.id comparison id)) := by
  refine (hes.filter _).trans ?_
  unfold Rows.entries
  rw [List.filter_map]
  exact List.Perm.refl _

/-- Any order of some entries is an order of the rows they belong to. -/
private theorem exists_rows_of_perm {es : List (Int × RecPtr)} (hes : es.Perm rows.entries) :
    ∃ found : Rows, found.Perm rows ∧ found.entries = es := by
  have hcomp : Relation.Comp (· = List.map (fun row : RecPtr × Record => (row.2.id, row.1)) ·)
      List.Perm es rows := by
    rw [List.eq_map_comp_perm]
    exact hes
  obtain ⟨found, hfound, hperm⟩ := hcomp
  exact ⟨found, hperm, hfound.symm⟩

/-- The answer to a query by id: the selected rows in id order, each once. -/
theorem TableInv.run_tableFindByIdCondition (hm : TableInv m rows) (hok : m.NoFailure)
    (comparison : TableComparison) (id : Int) :
    ∃ found : Rows, (tableFindByIdCondition comparison id).run m =
        some (some (found.map Prod.fst), m) ∧
      found.Perm (rows.filter fun row => tableCompareInt row.2.id comparison id) ∧
      (found.map fun row => row.2.id).Pairwise (· < ·) := by
  obtain ⟨es, hes, hperm⟩ := hm.index
  obtain ⟨found, hfound, hentries⟩ := exists_rows_of_perm (selectById_perm hperm comparison id)
  -- the index lists its keys in order, and a part of it is in order too
  have hsorted : ((es.filter fun e => tableCompareInt e.1 comparison id).map Prod.fst).Pairwise
      (· < ·) := hes.sorted.sublist (List.filter_sublist.map _)
  refine ⟨found, ?_, hfound, ?_⟩
  · rw [hes.run_tableFindByIdCondition hok, selectById, ← hentries, Rows.entries, List.map_map]
    rfl
  · rwa [← hentries, Rows.map_fst_entries] at hsorted

/-- At most one row has the id that is asked for: the one the scan stops at. -/
theorem TableInv.head_of_eq (hm : TableInv m rows) {found : Rows} {id : Int}
    (hfound : found.Perm (rows.filter fun row => tableCompareInt row.2.id .eq id)) :
    (rows.find? fun row => decide (row.2.id = id)).map Prod.fst = (found.map Prod.fst).head? := by
  have hids : ((rows.filter fun row => decide (row.2.id = id)).map fun row => row.2.id).Nodup :=
    hm.ids.sublist (List.filter_sublist.map _)
  have hsame : ∀ row ∈ rows.filter fun row => decide (row.2.id = id), row.2.id = id :=
    fun row hrow => of_decide_eq_true (List.mem_filter.mp hrow).2
  rw [← List.head?_filter]
  change found.Perm (rows.filter fun row => decide (row.2.id = id)) at hfound
  generalize rows.filter (fun row => decide (row.2.id = id)) = selected at *
  cases selected with
  | nil =>
    obtain rfl := List.perm_nil.mp hfound
    rfl
  | cons row rest =>
    -- a second selected row would have the same id
    have hrest : rest = [] := by
      refine List.eq_nil_iff_forall_not_mem.mpr fun other hother => ?_
      have hid : other.2.id = row.2.id := by
        rw [hsame other (List.mem_cons_of_mem _ hother), hsame row (List.mem_cons_self ..)]
      exact (List.nodup_cons.mp hids).1 (List.mem_map.mpr ⟨other, hother, hid⟩)
    subst hrest
    obtain rfl := List.perm_singleton.mp hfound
    rfl

/-- The index and the row array answer queries by id alike: the rows the comparison
selects, in id order and each once, for `=` the row `table_scan_by_id` finds, and
`table_find_by_id` finds what `table_scan_by_id` finds. -/
theorem tableFindByIdCondition_agrees (hm : InsertedTable m ∨ BuiltTable m)
    (comparison : TableComparison) (id : Int) :
    ∃ rows found : Rows, HoldsRows m rows ∧
      (tableFindByIdCondition comparison id).run m = some (some (found.map Prod.fst), m) ∧
      found.Perm (rows.filter fun row => tableCompareInt row.2.id comparison id) ∧
      (found.map fun row => row.2.id).Pairwise (· < ·) ∧
      (comparison = .eq → (tableScanById id).run m = some ((found.map Prod.fst).head?, m)) ∧
      ∃ result, (tableFindById id).run m = some (result, m) ∧
        (tableScanById id).run m = some (result, m) := by
  obtain ⟨hok, rows, hinv⟩ : m.NoFailure ∧ ∃ rows, TableInv m rows :=
    hm.elim InsertedTable.inv BuiltTable.inv
  obtain ⟨found, hrun, hfound, hsorted⟩ := hinv.run_tableFindByIdCondition hok comparison id
  -- the linear scan finds the first record of this id
  have hscan : (tableScanById id).run m =
      some ((rows.find? fun row => decide (row.2.id = id)).map Prod.fst, m) :=
    hinv.run_tableScanAll fun r => decide (r.id = id)
  refine ⟨rows, found, hinv.toHoldsRows, hrun, hfound, hsorted, ?_, _, ?_, hscan⟩
  · rintro rfl
    rw [hscan, hinv.head_of_eq hfound]
  · rw [hinv.run_tableFindById, hscan]

end Agreement

/-- The rows of a built index may be entered in any order; here the ids 9 and 4. -/
theorem tableFindByIdCondition_agrees_built :
    let m : Memory :=
      { tableCreate with
        nodes := [{ BPTreeNode.zero with
          isLeaf := true, numKeys := 2, keys := #v[4, 9, 0], values := #v[some 1, some 0, none] }]
        root := some 0
        records := [some ⟨9, [65, 0], 30⟩, some ⟨4, [66, 0], 40⟩]
        table := ⟨10, [some 0, some 1], 2, 2⟩ }
    ∃ rows found : Rows, HoldsRows m rows ∧
      (tableFindByIdCondition .ge 5).run m = some (some (found.map Prod.fst), m) ∧
      found.Perm (rows.filter fun row => tableCompareInt row.2.id .ge 5) ∧
      (found.map fun row => row.2.id).Pairwise (· < ·) ∧
      (TableComparison.ge = .eq → (tableScanById 5).run m = some ((found.map Prod.fst).head?, m)) ∧
      ∃ result, (tableFindById 5).run m = some (result, m) ∧
        (tableScanById 5).run m = some (result, m) := by
  intro m
  refine tableFindByIdCondition_agrees (.inr ⟨[(0, ⟨9, [65, 0], 30⟩), (1, ⟨4, [66, 0], 40⟩)],
    [(9, 0), (4, 1)], { m with nodes := [], root := none }, ?_, List.Perm.refl _, rfl, rfl, ?_⟩)
    .ge 5
  · exact {
      size := rfl
      slots := rfl
      capacity := rfl
      live := by decide }
  · decide

end SqlApi.Core

import SqlApi.Core.TableQueries

/-!
# The ids of a table

With memory for everything the `k`-th insertion gives its row the id `k`, as an `int`.
After `2 ^ 32` rows every id is taken and `table_insert` refuses all further rows.

`Numbered` says it of a table: the ids of its rows are the first ids of the counter, in order. The
representatives modulo `2 ^ 32` are those of `Int.bmod`, so the ids run through the negative values
after `2 ^ 31 - 1`.
-/

namespace SqlApi.Core

open SqlApi.Lib

/-! ## The counter -/

/-- A number in the range of `int` is not changed. -/
theorem wrapInt_eq_self {x : Int} (hmin : -2 ^ 31 ≤ x) (hmax : x < 2 ^ 31) : wrapInt x = x := by
  unfold wrapInt
  rw [Int.bmod_eq_iff (by decide)]
  omega

theorem wrapInt_add_one (x : Int) : wrapInt (wrapInt x + 1) = wrapInt (x + 1) := Int.bmod_add_bmod

/-- The ids of the first rows, in insertion order. -/
def rowIds (n : Nat) : List Int := (List.range n).map fun k : Nat => wrapInt (k + 1)

theorem rowIds_succ (n : Nat) : rowIds (n + 1) = rowIds n ++ [wrapInt (n + 1)] := by
  rw [rowIds, List.range_succ, List.map_append]
  rfl

/-- Below `2 ^ 31` rows the ids are 1, 2, 3 and so on. -/
theorem rowIds_eq {n : Nat} (hn : n < 2 ^ 31) :
    rowIds n = (List.range n).map fun k : Nat => (k : Int) + 1 := by
  refine List.map_congr_left fun k hk => ?_
  have hlt := List.mem_range.mp hk
  exact wrapInt_eq_self (by omega) (by omega)

/-- Two numbers wrap to the same `int` when they differ by a multiple of `2 ^ 32`. -/
private theorem wrapInt_eq_iff {x y : Int} :
    wrapInt x = wrapInt y ↔ x % 2 ^ 32 = y % 2 ^ 32 := by
  unfold wrapInt
  -- both reductions keep the residue modulo 2^32
  constructor
  · intro h
    have hx : Int.bmod x (2 ^ 32) % 2 ^ 32 = x % 2 ^ 32 := Int.bmod_emod
    have hy : Int.bmod y (2 ^ 32) % 2 ^ 32 = y % 2 ^ 32 := Int.bmod_emod
    rw [← hx, ← hy, h]
  · intro h
    have hx : Int.bmod (x % 2 ^ 32) (2 ^ 32) = Int.bmod x (2 ^ 32) := Int.emod_bmod x (2 ^ 32)
    have hy : Int.bmod (y % 2 ^ 32) (2 ^ 32) = Int.bmod y (2 ^ 32) := Int.emod_bmod y (2 ^ 32)
    rw [← hx, ← hy, h]

/-- An id below `2 ^ 32` rows is new. -/
theorem wrapInt_notMem_rowIds {n : Nat} (hn : n < 2 ^ 32) : wrapInt (n + 1) ∉ rowIds n := by
  intro h
  obtain ⟨k, hk, heq⟩ := List.mem_map.mp h
  have hlt := List.mem_range.mp hk
  rw [wrapInt_eq_iff] at heq
  omega

/-- Up to `2 ^ 32` rows no id is used twice. -/
theorem rowIds_nodup {n : Nat} (hn : n ≤ 2 ^ 32) : (rowIds n).Nodup := by
  induction n with
  | zero => exact List.nodup_nil
  | succ n ih =>
    have hnew : wrapInt (n + 1) ∉ rowIds n := wrapInt_notMem_rowIds (by omega)
    rw [rowIds_succ]
    refine (ih (by omega)).append (List.nodup_singleton _) ?_
    exact List.disjoint_singleton.mpr hnew

theorem length_rowIds (n : Nat) : (rowIds n).length = n := by simp [rowIds]

/-- `2 ^ 32` rows use up all ids. -/
theorem mem_rowIds {n : Nat} (hn : n = 2 ^ 32) (x : Int) : wrapInt x ∈ rowIds n := by
  unfold rowIds
  refine List.mem_map.mpr ⟨((x - 1) % 2 ^ 32).toNat, List.mem_range.mpr (by omega), ?_⟩
  rw [wrapInt_eq_iff]
  omega

/-! ## Tables whose ids come from the counter -/

/-- The rows were numbered by the counter, which stands at the next number. -/
structure Numbered (m : Memory) (rows : Rows) : Prop where
  ids : (rows.map fun row => row.2.id) = rowIds rows.length
  bound : rows.length ≤ 2 ^ 32
  next : rows.length < 2 ^ 32 → m.table.nextId = wrapInt (rows.length + 1)
  inRange : ∃ x, m.table.nextId = wrapInt x

theorem tableCreate_numbered : Numbered tableCreate [] where
  ids := rfl
  bound := by decide
  next := fun _ => rfl
  inRange := ⟨1, rfl⟩

section Numbered

variable {m : Memory} {rows : Rows}

/-- The numbering depends on the counter alone. -/
theorem Numbered.congr {m' : Memory} (hn : Numbered m rows)
    (hnext : m'.table.nextId = m.table.nextId) : Numbered m' rows where
  ids := hn.ids
  bound := hn.bound
  next := fun h => hnext.trans (hn.next h)
  inRange := hn.inRange.imp fun _ h => hnext.trans h

/-- The ids of a table that is not too large ascend. -/
theorem Numbered.ascending (hn : Numbered m rows) (hlen : rows.length < 2 ^ 31) :
    (rows.map fun row => row.2.id).Pairwise (· < ·) := by
  rw [hn.ids, rowIds_eq hlen, List.pairwise_map]
  refine List.pairwise_lt_range.imp fun {i j} hij => ?_
  omega

/-- `table_insert` below `2 ^ 32` rows: a row with the next number. -/
theorem TableInv.run_tableInsert_numbered (hm : TableInv m rows) (hn : Numbered m rows)
    (hok : m.NoFailure) (hroom : rows.length < 2 ^ 32) (name : List UInt8) (age : Int) :
    ∃ m', (tableInsert name age).run m = some (some m.records.length, m') ∧
      TableInv m' (rows ++ [(m.records.length, newRecord (wrapInt (rows.length + 1)) name age)]) ∧
      Numbered m'
        (rows ++ [(m.records.length, newRecord (wrapInt (rows.length + 1)) name age)]) := by
  have hnext := hn.next hroom
  -- fewer than 2^32 rows, so the next id is none of theirs
  have hfresh : m.table.nextId ∉ rows.map fun row => row.2.id := by
    rw [hnext, hn.ids]
    exact wrapInt_notMem_rowIds hroom
  obtain ⟨m', hrun, hm', hnext', -⟩ := hm.run_tableInsert hfresh (hok.granted _) name age
  rw [hnext] at hm' hnext'
  refine ⟨m', hrun, hm', ?_⟩
  have hlength : (rows ++ [(m.records.length, newRecord (wrapInt (rows.length + 1)) name age)]).length
      = rows.length + 1 := by simp
  exact {
    ids := by
      rw [hlength, rowIds_succ, List.map_append, hn.ids, List.map_cons, List.map_nil, newRecord]
    bound := by
      rw [hlength]
      omega
    next := fun _ => by
      rw [hnext', wrapInt_add_one, hlength, Nat.cast_add, Nat.cast_one]
    inRange := ⟨_, hnext'⟩ }

/-- `table_insert` with all ids taken: nothing but the counter changes. -/
theorem TableInv.run_tableInsert_full (hm : TableInv m rows) (hn : Numbered m rows)
    (hok : m.NoFailure) (hfull : rows.length = 2 ^ 32) (name : List UInt8) (age : Int) :
    ∃ m', (tableInsert name age).run m = some (none, m') ∧ TableInv m' rows ∧
      Numbered m' rows := by
  -- with 2^32 rows every int is taken, the next id too
  have htaken : m.table.nextId ∈ rows.map fun row => row.2.id := by
    obtain ⟨x, hx⟩ := hn.inRange
    rw [hn.ids, hx]
    exact mem_rowIds hfull x
  obtain ⟨m', hrun, hsame, -, hnext⟩ :=
    hm.run_tableInsert_refused (hok.granted _) (.inl htaken) name age
  refine ⟨m', hrun, hsame.inv, ?_⟩
  exact {
    ids := hn.ids
    bound := hn.bound
    next := fun h => absurd hfull (Nat.ne_of_lt h)
    inRange := ⟨_, hnext⟩ }

/-- Insertions keep the numbering, also when the counter has come round. -/
theorem TableInv.run_tableInsertAll_numbers (hm : TableInv m rows) (hn : Numbered m rows)
    (hok : m.NoFailure) (calls : List (List UInt8 × Int)) :
    ∃ results m' rows', (tableInsertAll calls).run m = some (results, m') ∧ TableInv m' rows' ∧
      Numbered m' rows' := by
  induction calls generalizing m rows with
  | nil => exact ⟨[], m, rows, rfl, hm, hn⟩
  | cons call rest ih =>
    obtain ⟨name, age⟩ := call
    obtain ⟨result, m₁, rows₁, hrun₁, hm₁, hn₁⟩ : ∃ result m₁ rows₁,
        (tableInsert name age).run m = some (result, m₁) ∧ TableInv m₁ rows₁ ∧
          Numbered m₁ rows₁ := by
      -- the call finds a free id or none, and the numbering is kept either way
      rcases lt_or_eq_of_le hn.bound with hroom | hfull
      · obtain ⟨m₁, hrun₁, hm₁, hn₁⟩ := hm.run_tableInsert_numbered hn hok hroom name age
        exact ⟨_, m₁, _, hrun₁, hm₁, hn₁⟩
      · obtain ⟨m₁, hrun₁, hm₁, hn₁⟩ := hm.run_tableInsert_full hn hok hfull name age
        exact ⟨_, m₁, _, hrun₁, hm₁, hn₁⟩
    obtain ⟨results, m', rows', hrun, hm', hn'⟩ := ih hm₁ hn₁ (hok.run hrun₁)
    refine ⟨result :: results, m', rows', ?_, hm', hn'⟩
    rw [tableInsertAll, run_bind_of hrun₁, run_bind_of hrun]
    rfl

/-- The rows of a table that `table_insert` calls lead to are numbered by the counter. -/
theorem InsertedTable.numbered (hm : InsertedTable m) :
    m.NoFailure ∧ ∃ rows, TableInv m rows ∧ Numbered m rows := by
  obtain ⟨calls, results, hrun⟩ := hm
  obtain ⟨results', m', rows, hrun', hm', hn'⟩ :=
    tableCreate_inv.run_tableInsertAll_numbers tableCreate_numbered rfl calls
  obtain ⟨-, rfl⟩ : results' = results ∧ m' = m := by simpa [hrun'] using hrun
  have hok : tableCreate.NoFailure := rfl
  exact ⟨hok.run hrun, rows, hm', hn'⟩

end Numbered

end SqlApi.Core

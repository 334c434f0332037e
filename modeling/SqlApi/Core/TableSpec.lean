import SqlApi.Core.TableScan

/-!
# The table between calls

`HoldsRows m rows`: the row array holds the pointers of `rows`, which point at live
records with these contents. `TableInv m rows`: moreover the index binds every id to
the pointer of its row, so the ids are pairwise different. Nothing is said about row
slots past the size, freed records, or nodes the index does not reach.

For each function of `table.c` there is one lemma that says what it does to a table with this
invariant; the statements of SQL use these lemmas and never look into the functions.
-/

namespace SqlApi.Core

open SqlApi.Lib

/-- The rows of a table: each record with its address. -/
abbrev Rows := List (RecPtr × Record)

/-- The entries of the index that belong to the rows. -/
def Rows.entries (rows : Rows) : List (Int × RecPtr) := rows.map fun row => (row.2.id, row.1)

/-- The row array of a table holds these rows. -/
structure HoldsRows (m : Memory) (rows : Rows) : Prop where
  size : m.table.size = rows.length
  slots : m.table.rows.take rows.length = rows.map fun row => some row.1
  capacity : m.table.rows.length = m.table.capacity
  live : ∀ row ∈ rows, m.record? row.1 = some row.2

/-- What holds of a table between calls. -/
structure TableInv (m : Memory) (rows : Rows) : Prop extends HoldsRows m rows where
  index : ∃ es, Indexed m es ∧ es.Perm rows.entries

section Inv

variable {m : Memory} {rows : Rows}

/-- The invariant does not depend on the counter or on the allocations to come. -/
theorem TableInv.congr {m' : Memory} (hm : TableInv m rows)
    (htable : { m'.table with nextId := m.table.nextId } = m.table)
    (hrecords : m'.records = m.records) (hnodes : m'.nodes = m.nodes) (hroot : m'.root = m.root) :
    TableInv m' rows := by
  have hsize : m'.table.size = m.table.size := by rw [← htable]
  have hslots : m'.table.rows = m.table.rows := by rw [← htable]
  have hcapacity : m'.table.capacity = m.table.capacity := by rw [← htable]
  obtain ⟨es, hes, hperm⟩ := hm.index
  exact {
    size := hsize.trans hm.size
    slots := by rw [hslots, hm.slots]
    capacity := by rw [hslots, hcapacity, hm.capacity]
    live := fun row hrow => by rw [Memory.record?, hrecords]; exact hm.live row hrow
    index := ⟨es, hes.congr hnodes hroot, hperm⟩ }

/-- There are at least as many row slots as rows. -/
theorem HoldsRows.length_le (hm : HoldsRows m rows) : rows.length ≤ m.table.rows.length := by
  have h := congrArg List.length hm.slots
  rw [List.length_take, List.length_map] at h
  omega

/-- The slot of a row. -/
theorem HoldsRows.slot (hm : HoldsRows m rows) {index : Nat} {row : RecPtr × Record}
    (hrow : rows[index]? = some row) : m.table.rows[index]? = some (some row.1) := by
  have hlt : index < rows.length := (List.getElem?_eq_some_iff.mp hrow).1
  rw [← List.getElem?_take_of_lt hlt, hm.slots, List.getElem?_map, hrow]
  rfl

/-- Reading a row slot. -/
theorem HoldsRows.run_row (hm : HoldsRows m rows) {index : Nat} {row : RecPtr × Record}
    (hrow : rows[index]? = some row) : (m.table.row index).run m = some (row.1, m) := by
  rw [Table.row, hm.slot hrow]
  rfl

/-- Reading the record of a row. -/
theorem HoldsRows.run_getRecord (hm : HoldsRows m rows) {row : RecPtr × Record}
    (hrow : row ∈ rows) : (getRecord row.1).run m = some (row.2, m) := by
  rw [SqlApi.Core.run_getRecord, hm.live row hrow]
  rfl

/-! ## Linear scans -/

/-- A scan finds the first row that satisfies the condition. -/
theorem HoldsRows.run_tableScan (hm : HoldsRows m rows) (p : Record → Bool) {index fuel : Nat}
    (hindex : index ≤ rows.length) (hfuel : rows.length < index + fuel) :
    (tableScan p fuel index).run m =
      some (((rows.drop index).find? fun row => p row.2).map Prod.fst, m) := by
  induction fuel generalizing index with
  | zero => omega
  | succ fuel ih =>
    rw [tableScan, run_bind_of (run_getTable m), hm.size]
    by_cases hlt : index < rows.length
    · have hrow : rows[index]? = some rows[index] := List.getElem?_eq_getElem hlt
      rw [if_pos hlt, run_bind_of (hm.run_row hrow),
        run_bind_of (hm.run_getRecord (List.getElem_mem hlt)), List.drop_eq_getElem_cons hlt,
        List.find?_cons]
      cases hp : p rows[index].2 with
      | true => rfl
      | false =>
        dsimp only
        exact ih hlt (by omega)
    · rw [if_neg hlt, List.drop_eq_nil_of_le (not_lt.mp hlt)]
      rfl

theorem HoldsRows.run_tableScanAll (hm : HoldsRows m rows) (p : Record → Bool) :
    (tableScanAll p).run m = some ((rows.find? fun row => p row.2).map Prod.fst, m) := by
  rw [tableScanAll, run_bind_of (run_getTable m), hm.size]
  exact hm.run_tableScan p (Nat.zero_le _) (by omega)

/-- A collecting scan appends the rows that satisfy the condition. -/
theorem HoldsRows.run_tableCollect (hm : HoldsRows m rows) (hok : m.NoFailure) (p : Record → Bool)
    (a : ResultArray) {index fuel : Nat} (hindex : index ≤ rows.length)
    (hfuel : rows.length < index + fuel) :
    ∃ capacity, (tableCollect p fuel index a).run m =
      some (some ⟨a.records ++ ((rows.drop index).filter fun row => p row.2).map Prod.fst,
        capacity⟩, m) := by
  -- the fuel counts the rows that are left, and one more for the last test
  induction fuel generalizing index a with
  | zero => omega
  | succ fuel ih =>
    rw [tableCollect, run_bind_of (run_getTable m), hm.size]
    by_cases hlt : index < rows.length
    · have hrow : rows[index]? = some rows[index] := List.getElem?_eq_getElem hlt
      rw [if_pos hlt, run_bind_of (hm.run_row hrow),
        run_bind_of (hm.run_getRecord (List.getElem_mem hlt)), List.drop_eq_getElem_cons hlt,
        List.filter_cons]
      cases hp : p rows[index].2 with
      -- the row is taken
      | true =>
        obtain ⟨c, happend⟩ := run_tableAppendRecord hok a rows[index].1
        obtain ⟨capacity, hrest⟩ := ih ⟨a.records ++ [rows[index].1], c⟩ hlt (by omega)
        refine ⟨capacity, ?_⟩
        rw [if_pos rfl, run_bind_of happend]
        dsimp only
        rw [hrest]
        simp
      | false => exact ih a hlt (by omega)
    · -- behind the last row
      refine ⟨a.capacity, ?_⟩
      rw [if_neg hlt, List.drop_eq_nil_of_le (not_lt.mp hlt)]
      simp

theorem HoldsRows.run_tableCollectMatches (hm : HoldsRows m rows) (hok : m.NoFailure)
    (p : Record → Bool) :
    (tableCollectMatches p).run m =
      some (some ((rows.filter fun row => p row.2).map Prod.fst), m) := by
  obtain ⟨capacity, hrun⟩ := hm.run_tableCollect hok p ⟨[], 0⟩ (Nat.zero_le _)
    (by omega : rows.length < 0 + (rows.length + 1))
  rw [tableCollectMatches, run_bind_of (run_getTable m), hm.size, run_map_of hrun]
  rfl

/-- `table_collect_all` returns every row. -/
theorem HoldsRows.run_tableCollectAll (hm : HoldsRows m rows) (hok : m.NoFailure) :
    tableCollectAll.run m = some (some (rows.map Prod.fst), m) := by
  rw [tableCollectAll, run_bind_of (run_getTable m), hm.size, tableCopyRecords]
  by_cases hzero : rows.length = 0
  · obtain rfl := List.eq_nil_of_length_eq_zero hzero
    rfl
  · have hslots : m.table.rows.take rows.length = (rows.map Prod.fst).map some := by
      rw [hm.slots, List.map_map]
      rfl
    rw [if_neg hzero, run_bind_of (run_malloc_of hok), if_pos rfl, hslots, run_bind_of (run_derefAll _)]
    rfl

/-! ## Searches by id -/

theorem lookup_eq_some_iff {es : List (Int × RecPtr)} (hes : (es.map Prod.fst).Nodup) {key : Int}
    {value : RecPtr} : es.lookup key = some value ↔ (key, value) ∈ es := by
  induction es with
  | nil => simp
  | cons e es ih =>
    obtain ⟨k, v⟩ := e
    obtain ⟨hk, hrest⟩ := List.nodup_cons.mp hes
    rw [Tree.lookup_cons_pair, List.mem_cons, Prod.mk.injEq]
    by_cases heq : key = k
    · subst heq
      have hout : (key, value) ∉ es := fun h => hk (List.mem_map.mpr ⟨_, h, rfl⟩)
      simp [hout, eq_comm]
    · simp [heq, ih hrest]

/-- With distinct keys the order of the entries does not matter. -/
theorem lookup_eq_of_perm {es es' : List (Int × RecPtr)} (hes : (es.map Prod.fst).Nodup)
    (hperm : es.Perm es') (key : Int) : es.lookup key = es'.lookup key := by
  have hes' := (hperm.map Prod.fst).nodup_iff.mp hes
  ext value
  rw [lookup_eq_some_iff hes, lookup_eq_some_iff hes', hperm.mem_iff]

theorem Rows.map_fst_entries (rows : Rows) :
    rows.entries.map Prod.fst = rows.map fun row => row.2.id := by
  rw [Rows.entries, List.map_map]
  rfl

/-- The ids are pairwise different: they are the keys of the index. -/
theorem TableInv.ids (hm : TableInv m rows) : (rows.map fun row => row.2.id).Nodup := by
  obtain ⟨es, hes, hperm⟩ := hm.index
  have hkeys : (es.map Prod.fst).Nodup := hes.sorted.imp fun h => h.ne
  rw [← Rows.map_fst_entries]
  exact (hperm.map Prod.fst).nodup_iff.mp hkeys

/-- The pointer bound to an id is the row with that id. -/
theorem TableInv.lookup_eq (hm : TableInv m rows) {es : List (Int × RecPtr)}
    (hes : es.Perm rows.entries) (id : Int) :
    es.lookup id = (rows.find? fun row => decide (row.2.id = id)).map Prod.fst := by
  have hids : (rows.entries.map Prod.fst).Nodup := by
    rw [Rows.map_fst_entries]
    exact hm.ids
  rw [lookup_eq_of_perm ((hes.map Prod.fst).nodup_iff.mpr hids) hes]
  clear hids hes hm
  induction rows with
  | nil => rfl
  | cons row rows ih =>
    have hcons : Rows.entries (row :: rows) = (row.2.id, row.1) :: Rows.entries rows := rfl
    rw [hcons, Tree.lookup_cons_pair, List.find?_cons, ih]
    by_cases heq : id = row.2.id
    · simp [heq]
    · simp [heq, Ne.symm heq]

/-- `table_find_by_id` and `table_scan_by_id` agree. -/
theorem TableInv.run_tableFindById (hm : TableInv m rows) (id : Int) :
    (tableFindById id).run m = (tableScanById id).run m := by
  obtain ⟨es, hes, hperm⟩ := hm.index
  rw [tableFindById, hes.run_bptreeSearch, hm.lookup_eq hperm, tableScanById,
    hm.run_tableScanAll]

end Inv

/-! ## Insertion -/

/-- The allocations `table_ensure_capacity` makes. -/
def Memory.rowAllocs (m : Memory) : Nat := if m.table.size < m.table.capacity then 0 else 1

/-- The same memory with other row slots. -/
def Memory.withSlots (m : Memory) (slots : List (Option RecPtr)) : Memory :=
  { m with
    table := { m.table with rows := slots, capacity := slots.length }
    allocs := m.allocs.drop m.rowAllocs }

/-- The memory when `table_insert` calls `bptree_insert`: the new record is there,
the counter has advanced and the slot past the rows is written. -/
def Memory.withRecord (m : Memory) (name : List UInt8) (age : Int) : Memory :=
  { m with
    records := m.records ++ [some (newRecord m.table.nextId name age)]
    table := { m.table with
      nextId := wrapInt (m.table.nextId + 1)
      rows := m.table.rows.set m.table.size (some m.records.length) }
    allocs := m.allocs.drop 1 }

section Insert

variable {m : Memory} {rows : Rows}

/-- Growing the row array keeps the invariant and makes room. -/
theorem TableInv.run_tableEnsureCapacity (hm : TableInv m rows) (hgranted : m.Granted m.rowAllocs) :
    ∃ slots, tableEnsureCapacity.run m = some (true, m.withSlots slots) ∧
      TableInv (m.withSlots slots) rows ∧ rows.length < slots.length := by
  unfold tableEnsureCapacity
  rw [run_bind_of (run_getTable m)]
  by_cases hroom : m.table.size < m.table.capacity
  · -- a slot is free, so nothing is allocated
    have hzero : m.rowAllocs = 0 := if_pos hroom
    have hsame : m.withSlots m.table.rows = m := by
      rw [Memory.withSlots, hzero, hm.capacity]
      rfl
    refine ⟨m.table.rows, ?_, hsame.symm ▸ hm, ?_⟩
    · rw [if_pos hroom, hsame]
      rfl
    · rw [hm.capacity, ← hm.size]
      exact hroom
  · -- all slots are used: one allocation grows the array
    have hone : m.rowAllocs = 1 := if_neg hroom
    rw [hone] at hgranted
    -- the array gets larger, so `realloc` keeps all slots
    have hgrow : m.table.rows.length ≤ grownCapacity m.table.capacity := by
      rw [hm.capacity, grownCapacity]
      split <;> omega
    set slots := m.table.rows ++
      List.replicate (grownCapacity m.table.capacity - m.table.rows.length) none with hslots
    have hlength : slots.length = grownCapacity m.table.capacity := by
      rw [hslots, List.length_append, List.length_replicate]
      omega
    have hle := hm.length_le
    refine ⟨slots, ?_, ?_, ?_⟩
    · have hmalloc : malloc.run m = some (true, { m with allocs := m.allocs.drop 1 }) := by
        rw [run_malloc, Memory.Granted.takeAlloc hgranted]
      rw [if_neg hroom, run_bind_of hmalloc, if_pos rfl, run_bind_of (run_setTable _ _), ← hslots,
        Memory.withSlots, hone, hlength]
      rfl
    · exact {
        size := hm.size
        slots := by
          rw [Memory.withSlots, hslots]
          dsimp only
          rw [List.take_append_of_le_length hle, hm.slots]
        capacity := rfl
        live := hm.live
        index := by
          obtain ⟨es, hes, hperm⟩ := hm.index
          exact ⟨es, hes.congr rfl rfl, hperm⟩ }
    · rw [hlength, grownCapacity]
      have hsize := hm.size
      have hcapacity := hm.capacity
      split <;> omega

/-- `table_insert` up to the call of `bptree_insert`. -/
theorem run_tableInsert_eq (hm : TableInv m rows) (hgranted : m.Granted (m.rowAllocs + 1))
    (name : List UInt8) (age : Int) :
    ∃ slots, TableInv (m.withSlots slots) rows ∧ rows.length < slots.length ∧
      (tableInsert name age).run m = Prog.run (do
        if ← bptreeInsert m.table.nextId m.records.length then
          let table ← getTable
          setTable { table with size := table.size + 1 }
          pure (some m.records.length)
        else
          freeRecord m.records.length
          pure none) ((m.withSlots slots).withRecord name age) := by
  obtain ⟨slots, hrun, hslots, hroom⟩ :=
    hm.run_tableEnsureCapacity (hgranted.mono (Nat.le_add_right _ _))
  refine ⟨slots, hslots, hroom, ?_⟩
  have hgranted' : (m.withSlots slots).Granted 1 := hgranted.drop rfl
  have hcalloc : callocRecord.run (m.withSlots slots) = some (some m.records.length,
      { m.withSlots slots with
        records := m.records ++ [some .zero]
        allocs := (m.withSlots slots).allocs.drop 1 }) := by
    rw [run_callocRecord, Memory.Granted.takeAlloc hgranted']
    rfl
  have hset : (m.records ++ [some Record.zero]).set m.records.length
      (some (newRecord m.table.nextId name age)) =
        m.records ++ [some (newRecord m.table.nextId name age)] := by
    rw [List.set_append_right _ _ le_rfl]
    simp
  -- the counter, then the fields of the record
  let table : Table := { (m.withSlots slots).table with nextId := wrapInt (m.table.nextId + 1) }
  let counted : Memory := { m.withSlots slots with
    records := m.records ++ [some .zero]
    table
    allocs := (m.withSlots slots).allocs.drop 1 }
  have hrecord : (setRecord m.records.length (newRecord m.table.nextId name age)).run counted =
      some ((), { counted with
        records := m.records ++ [some (newRecord m.table.nextId name age)] }) := by
    rw [run_setRecord, if_pos (by simp [counted, Memory.record?]), hset]
  have hsize : m.table.size < slots.length := hm.size ▸ hroom
  unfold tableInsert
  rw [run_bind_of hrun, if_pos rfl, run_bind_of hcalloc]
  dsimp only
  rw [run_bind_of (run_getTable _), run_bind_of (run_setTable _ _)]
  refine (run_bind_of hrecord _).trans ?_
  rw [run_bind_of (run_getTable _)]
  refine (congrArg (fun p => Prog.run p _) (if_pos hsize)).trans ?_
  rw [run_bind_of (run_setTable _ _)]
  rfl

/-- The written slot lies past the rows. -/
private theorem take_set_slot {slots : List (Option RecPtr)} {n : Nat} (hn : n < slots.length)
    (p : RecPtr) : (slots.set n (some p)).take n = slots.take n ∧
      (slots.set n (some p)).take (n + 1) = slots.take n ++ [some p] := by
  have htake : (slots.set n (some p)).take n = slots.take n := by
    rw [List.take_set, List.set_eq_of_length_le (by simp)]
  refine ⟨htake, ?_⟩
  rw [List.take_succ_eq_append_getElem (by simpa using hn), htake]
  simp

/-- Records of rows are below a new one, and it does not disturb them. -/
private theorem record?_append {m m' : Memory} {last : Option Record} {p : RecPtr} {r : Record}
    (hp : m.record? p = some r) (hm' : m'.records = m.records ++ [last]) :
    m'.record? p = some r := by
  obtain ⟨o, ho, hor⟩ : ∃ o, m.records[p]? = some o ∧ o = some r := by
    unfold Memory.record? at hp
    cases ho : m.records[p]? with
    | none => simp [ho] at hp
    | some o => exact ⟨o, rfl, by simpa [ho] using hp⟩
  have hlt := (List.getElem?_eq_some_iff.mp ho).1
  rw [Memory.record?, hm', List.getElem?_append_left hlt, ho, hor]
  rfl

/-- A key of the index is the id of a row. -/
theorem mem_keys_iff {es : List (Int × RecPtr)} (hes : es.Perm rows.entries) (id : Int) :
    id ∈ es.map Prod.fst ↔ id ∈ rows.map fun row => row.2.id := by
  rw [(hes.map Prod.fst).mem_iff, Rows.map_fst_entries]

/-- `table_insert` with memory for everything and a fresh id: one row more. -/
theorem TableInv.run_tableInsert (hm : TableInv m rows)
    (hfresh : m.table.nextId ∉ rows.map fun row => row.2.id)
    (hgranted : m.Granted (m.rowAllocs + 1 + m.insertAllocs m.table.nextId)) (name : List UInt8)
    (age : Int) :
    ∃ m', (tableInsert name age).run m = some (some m.records.length, m') ∧
      TableInv m' (rows ++ [(m.records.length, newRecord m.table.nextId name age)]) ∧
      m'.table.nextId = wrapInt (m.table.nextId + 1) ∧
      m'.allocs = m.allocs.drop (m.rowAllocs + 1 + m.insertAllocs m.table.nextId) ∧
      m'.records = m.records ++ [some (newRecord m.table.nextId name age)] := by
  obtain ⟨slots, hslots, hroom, hrun⟩ := run_tableInsert_eq hm
    (hgranted.mono (Nat.le_add_right _ _)) name age
  obtain ⟨es, hes, hperm⟩ := hm.index
  set written := (m.withSlots slots).withRecord name age with hwritten
  have hallocs : written.allocs = m.allocs.drop (m.rowAllocs + 1) := List.drop_drop
  have hkey : m.table.nextId ∉ es.map Prod.fst := mt (mem_keys_iff hperm _).mp hfresh
  have hes' : Indexed written es := hes.congr rfl rfl
  -- the index does not see the new record, and takes its id as a fresh key
  obtain ⟨nodes', root', hins, -, hindex⟩ :=
    hes'.run_bptreeInsert hkey (hgranted.drop hallocs) m.records.length
  have hsize : (m.withSlots slots).table.size < slots.length := hm.size ▸ hroom
  have htake := take_set_slot hsize m.records.length
  refine ⟨{ written.withIndex nodes' root' (written.insertAllocs m.table.nextId) with
    table := { written.table with size := written.table.size + 1 } }, ?_, ?_, rfl, ?_, rfl⟩
  · rw [hrun, run_bind_of hins, if_pos rfl, run_bind_of (run_getTable _),
      run_bind_of (run_setTable _ _)]
    rfl
  · exact {
      size := by
        rw [List.length_append, ← hm.size]
        rfl
      slots := by
        rw [List.length_append, List.map_append, ← hslots.slots, ← hslots.size]
        exact htake.2
      capacity := by
        show (slots.set _ _).length = slots.length
        exact List.length_set
      live := by
        intro row hrow
        rcases List.mem_append.mp hrow with hrow | hrow
        · exact record?_append (hm.live row hrow) rfl
        · obtain rfl := List.mem_singleton.mp hrow
          show (m.records ++ [some (newRecord m.table.nextId name age)])[m.records.length]?.join = _
          simp
      index := by
        refine ⟨_, hindex.congr rfl rfl, ?_⟩
        refine (List.perm_orderedInsert _ _ _).trans ?_
        rw [Rows.entries, List.map_append]
        exact (hperm.cons _).trans (List.perm_append_singleton _ _).symm }
  · show written.allocs.drop _ = _
    rw [hallocs, List.drop_drop]
    rfl

/-- What a failed `table_insert` leaves: the rows, the index and the live records
as before. -/
structure Unchanged (m m' : Memory) (rows : Rows) : Prop where
  inv : TableInv m' rows
  nodes : m'.nodes = m.nodes
  root : m'.root = m.root

/-- No memory for the row array or the record: nothing happens. -/
theorem TableInv.run_tableInsert_noMemory (hm : TableInv m rows)
    (hrefused : ¬ m.Granted (m.rowAllocs + 1)) (name : List UInt8) (age : Int) :
    ∃ m', (tableInsert name age).run m = some (none, m') ∧ Unchanged m m' rows := by
  unfold tableInsert
  by_cases hgranted : m.Granted m.rowAllocs
  · -- the record gets no memory
    obtain ⟨slots, hrun, hslots, -⟩ := hm.run_tableEnsureCapacity hgranted
    -- the array was granted, so the refusal is that of the record
    have hhead : (m.withSlots slots).allocs[0]? = some false := by
      by_contra hne
      refine hrefused (Memory.granted_succ_iff.mpr ⟨hgranted, fun h => hne ?_⟩)
      rw [Memory.withSlots, List.getElem?_drop]
      exact h
    have hcalloc : callocRecord.run (m.withSlots slots) =
        some (none, { m.withSlots slots with allocs := (m.withSlots slots).allocs.drop 1 }) := by
      rw [run_callocRecord, Memory.takeAlloc_of_head hhead]
    refine ⟨{ m.withSlots slots with allocs := (m.withSlots slots).allocs.drop 1 }, ?_, ?_⟩
    · rw [run_bind_of hrun, if_pos rfl, run_bind_of hcalloc]
      rfl
    · exact { inv := hslots.congr rfl rfl rfl rfl, nodes := rfl, root := rfl }
  · -- the row array gets no memory
    have hfull : ¬ m.table.size < m.table.capacity := fun h =>
      hgranted (by simp [Memory.Granted, Memory.rowAllocs, h])
    -- the refused call is the first
    have hone : m.rowAllocs = 1 := if_neg hfull
    have hhead : m.allocs[0]? = some false := by
      by_contra hne
      rw [hone] at hgranted
      exact hgranted (Memory.granted_succ_iff.mpr ⟨by simp [Memory.Granted], hne⟩)
    have hmalloc : malloc.run m = some (false, { m with allocs := m.allocs.drop 1 }) := by
      rw [run_malloc, Memory.takeAlloc_of_head hhead]
    have hensure : tableEnsureCapacity.run m =
        some (false, { m with allocs := m.allocs.drop 1 }) := by
      rw [tableEnsureCapacity, run_bind_of (run_getTable m), if_neg hfull, run_bind_of hmalloc]
      rfl
    refine ⟨{ m with allocs := m.allocs.drop 1 }, ?_, ?_⟩
    · rw [run_bind_of hensure]
      rfl
    · exact { inv := hm.congr rfl rfl rfl rfl, nodes := rfl, root := rfl }

/-- The index refuses the record: it is freed again. -/
theorem TableInv.run_tableInsert_refused (hm : TableInv m rows)
    (hgranted : m.Granted (m.rowAllocs + 1))
    (hrefused : m.table.nextId ∈ (rows.map fun row => row.2.id) ∨
      m.insertAllocs m.table.nextId ≠ 0 ∧ m.allocs[m.rowAllocs + 1]? = some false)
    (name : List UInt8) (age : Int) :
    ∃ m', (tableInsert name age).run m = some (none, m') ∧ Unchanged m m' rows ∧
      m'.record? m.records.length = none ∧
      m'.table.nextId = wrapInt (m.table.nextId + 1) := by
  obtain ⟨slots, hslots, hroom, hrun⟩ := run_tableInsert_eq hm hgranted name age
  obtain ⟨es, hes, hperm⟩ := hm.index
  set written := (m.withSlots slots).withRecord name age with hwritten
  have hallocs : written.allocs = m.allocs.drop (m.rowAllocs + 1) := List.drop_drop
  have hes' : Indexed written es := hes.congr rfl rfl
  have hsize : (m.withSlots slots).table.size < slots.length := hm.size ▸ hroom
  -- the index is left alone, whichever way it refuses
  obtain ⟨allocs', hins⟩ : ∃ allocs', (bptreeInsert m.table.nextId m.records.length).run written =
      some (false, { written with allocs := allocs' }) := by
    by_cases hkey : m.table.nextId ∈ es.map Prod.fst
    · exact ⟨written.allocs, hes'.run_bptreeInsert_of_mem hkey _⟩
    · obtain hid | ⟨hallocs', hhead⟩ := hrefused
      · exact absurd ((mem_keys_iff hperm _).mpr hid) hkey
      · refine ⟨written.allocs.drop 1, hes'.run_bptreeInsert_refused hkey hallocs' ?_ _⟩
        refine Memory.takeAlloc_of_head ?_
        rw [hallocs, List.getElem?_drop]
        exact hhead
  have hfree : ∀ r, (m.records ++ [some r]).set m.records.length none = m.records ++ [none] :=
    fun r => by
      rw [List.set_append_right _ _ le_rfl]
      simp
  refine ⟨{ written with records := m.records ++ [none], allocs := allocs' }, ?_, ?_, ?_, rfl⟩
  · have hlive : ({ written with allocs := allocs' } : Memory).record? m.records.length =
        some (newRecord m.table.nextId name age) := by
      show (m.records ++ [some (newRecord m.table.nextId name age)])[m.records.length]?.join = _
      simp
    have hfreed : (freeRecord m.records.length).run { written with allocs := allocs' } =
        some ((), { written with records := m.records ++ [none], allocs := allocs' }) := by
      rw [run_freeRecord, if_pos (by simp [hlive])]
      show some ((), { written with
        records := (m.records ++ [some (newRecord m.table.nextId name age)]).set _ none
        allocs := allocs' }) = _
      rw [hfree]
    rw [hrun, run_bind_of hins, if_neg (by simp), run_bind_of hfreed]
    rfl
  · exact {
      inv := {
        size := hm.size
        slots := by
          rw [← hslots.slots, ← hslots.size]
          exact (take_set_slot hsize m.records.length).1
        capacity := by
          show (slots.set _ _).length = slots.length
          exact List.length_set
        live := fun row hrow => record?_append (hm.live row hrow) rfl
        index := ⟨es, hes.congr rfl rfl, hperm⟩ }
      nodes := rfl
      root := rfl }
  · simp [Memory.record?]

end Insert

end SqlApi.Core

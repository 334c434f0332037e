import SqlApi.Core.TableIds

/-!
# Rows, index and counter agree

After any insertions the row array, the records, the index and the counter describe the
same rows, and no insertion touches a row that is already there.

The rows of the frame are those of any earlier moment of the run: their pointers, their contents and
their places in the array are the same at the end.
-/

namespace SqlApi.Core

open SqlApi.Lib

/-- The records of some insertions into a table that holds `start` rows. -/
def insertedRecords (start : Nat) : List (List UInt8 × Int) → List Record
  | [] => []
  | (name, age) :: rest =>
    newRecord (wrapInt (start + 1)) name age :: insertedRecords (start + 1) rest

theorem getElem?_insertedRecords (start : Nat) (calls : List (List UInt8 × Int)) (i : Nat) :
    (insertedRecords start calls)[i]? =
      calls[i]?.map fun call => newRecord (wrapInt ((start + i : Nat) + 1)) call.1 call.2 := by
  induction calls generalizing start i with
  | nil => rfl
  | cons call rest ih =>
    obtain ⟨name, age⟩ := call
    cases i with
    | zero => rfl
    | succ i =>
      rw [insertedRecords, List.getElem?_cons_succ, ih, List.getElem?_cons_succ,
        Nat.add_right_comm start 1 i]
      rfl

theorem length_insertedRecords (start : Nat) (calls : List (List UInt8 × Int)) :
    (insertedRecords start calls).length = calls.length := by
  induction calls generalizing start with
  | nil => rfl
  | cons call rest ih => exact congrArg (· + 1) (ih (start + 1))

theorem insertedRecords_append (start : Nat) (calls more : List (List UInt8 × Int)) :
    insertedRecords start (calls ++ more) =
      insertedRecords start calls ++ insertedRecords (start + calls.length) more := by
  induction calls generalizing start with
  | nil => rfl
  | cons call rest ih =>
    obtain ⟨name, age⟩ := call
    rw [List.cons_append, insertedRecords, ih, insertedRecords, List.length_cons,
      Nat.add_right_comm start 1 rest.length]
    rfl

/-- Everything a table holds is what was inserted, and agrees with everything else in it. -/
structure TableAgrees (calls : List (List UInt8 × Int)) (m : Memory) : Prop where
  size : m.table.size = calls.length
  capacity : m.table.size ≤ m.table.capacity
  nextId : m.table.nextId = m.table.size + 1
  /-- Row `i` has the id `i + 1` and what was inserted, the name cut off after 63 bytes. -/
  row : ∀ (i : Nat) (name : List UInt8) (age : Int), calls[i]? = some (name, age) →
    ∃ record r, m.table.rows[i]? = some (some record) ∧ m.record? record = some r ∧
      r.id = i + 1 ∧ r.age = age ∧ r.name.length = recordNameSize ∧ 0 ∈ r.name ∧
      cstr r.name = (cstr name).take (recordNameSize - 1)
  /-- The index binds exactly the ids from 1 on to the pointers of the rows. -/
  index : ∃ records : List RecPtr, m.table.rows.take m.table.size = records.map some ∧
    Indexed m (records.mapIdx fun i record => ((i : Int) + 1, record))
  search : ∀ key : Int, (bptreeSearch key).run m =
    some (if 1 ≤ key ∧ key ≤ m.table.size then m.table.rows[(key - 1).toNat]?.join else none, m)

section Agreement

variable {m : Memory} {rows : Rows}

/-- Insertions below `2 ^ 32` rows append their records. -/
theorem TableInv.run_tableInsertAll_numbered (hm : TableInv m rows) (hn : Numbered m rows)
    (hok : m.NoFailure) (calls : List (List UInt8 × Int))
    (hroom : rows.length + calls.length < 2 ^ 32) :
    ∃ (new : Rows) (m' : Memory),
      (tableInsertAll calls).run m = some (new.map fun row => some row.1, m') ∧
      new.map Prod.snd = insertedRecords rows.length calls ∧
      TableInv m' (rows ++ new) ∧ Numbered m' (rows ++ new) := by
  induction calls generalizing m rows with
  | nil => exact ⟨[], m, rfl, rfl, by rwa [List.append_nil], by rwa [List.append_nil]⟩
  | cons call rest ih =>
    obtain ⟨name, age⟩ := call
    have hlength : rows.length + rest.length + 1 < 2 ^ 32 := hroom
    -- the ids stay fresh as long as they do not wrap around
    obtain ⟨m₁, hrun₁, hm₁, hn₁⟩ := hm.run_tableInsert_numbered hn hok (by omega) name age
    have hroom₁ : (rows ++ [(m.records.length,
        newRecord (wrapInt (rows.length + 1)) name age)]).length + rest.length < 2 ^ 32 := by
      rw [List.length_append, List.length_singleton]
      omega
    obtain ⟨new, m', hrun, hnew, hm', hn'⟩ := ih hm₁ hn₁ (hok.run hrun₁) hroom₁
    refine ⟨(m.records.length, newRecord (wrapInt (rows.length + 1)) name age) :: new, m', ?_, ?_,
      ?_, ?_⟩
    · rw [tableInsertAll, run_bind_of hrun₁, run_bind_of hrun]
      rfl
    · rw [List.map_cons, hnew, List.length_append, List.length_singleton]
      rfl
    · rwa [List.append_cons]
    · rwa [List.append_cons]

/-- With ascending ids the entries of the index are those of the rows, in order. -/
theorem TableInv.indexed_entries (hm : TableInv m rows)
    (hids : (rows.map fun row => row.2.id).Pairwise (· < ·)) : Indexed m rows.entries := by
  obtain ⟨es, hes, hperm⟩ := hm.index
  have hsorted : es.Pairwise fun e e' => e.1 < e'.1 := List.pairwise_map.mp hes.sorted
  have hrows : rows.entries.Pairwise fun e e' => e.1 < e'.1 := by
    rw [← Rows.map_fst_entries] at hids
    exact List.pairwise_map.mp hids
  have heq : es = rows.entries :=
    hperm.eq_of_pairwise (fun e e' _ _ hlt hgt => absurd hlt (not_lt.mpr hgt.le)) hsorted hrows
  rwa [← heq]

/-- A search among entries that are numbered from 1 on. -/
private theorem lookup_mapIdx (records : List RecPtr) (key : Int) :
    (records.mapIdx fun i record => ((i : Int) + 1, record)).lookup key =
      if 1 ≤ key ∧ key ≤ records.length then records[(key - 1).toNat]? else none := by
  have hkeys : ((records.mapIdx fun i record => ((i : Int) + 1, record)).map Prod.fst).Nodup := by
    refine List.nodup_iff_getElem?_ne_getElem?.mpr fun i j hij hj => ?_
    rw [List.length_map, List.length_mapIdx] at hj
    simp only [List.getElem?_map, List.getElem?_mapIdx, List.getElem?_eq_getElem hj,
      List.getElem?_eq_getElem (hij.trans hj), Option.map_some]
    intro h
    have := Option.some.inj h
    omega
  ext value
  rw [lookup_eq_some_iff hkeys, List.mem_mapIdx]
  constructor
  · rintro ⟨i, hi, heq⟩
    obtain ⟨rfl, rfl⟩ := Prod.mk.inj heq
    have hindex : ((i : Int) + 1 - 1).toNat = i := by omega
    rw [if_pos (by omega), hindex, List.getElem?_eq_getElem hi]
  · intro h
    split at h
    · next hkey =>
      obtain ⟨hi, rfl⟩ := List.getElem?_eq_some_iff.mp h
      exact ⟨_, hi, Prod.ext (by omega) rfl⟩
    · cases h

/-- A table below `2 ^ 31 - 1` rows that holds what was inserted. -/
theorem TableInv.agrees (hm : TableInv m rows) (hn : Numbered m rows)
    {calls : List (List UInt8 × Int)} (hrows : rows.map Prod.snd = insertedRecords 0 calls)
    (hfew : calls.length < 2 ^ 31 - 1) : TableAgrees calls m := by
  have hlength : rows.length = calls.length := by
    have h := congrArg List.length hrows
    rwa [List.length_map, length_insertedRecords] at h
  -- the counter does not wrap below the bound
  have hid (i : Nat) (hi : i ≤ calls.length) : wrapInt ((i : Nat) + 1) = i + 1 :=
    wrapInt_eq_self (by omega) (by omega)
  have hrow (i : Nat) (name : List UInt8) (age : Int) (hcall : calls[i]? = some (name, age)) :
      ∃ record, rows[i]? = some (record, newRecord (i + 1) name age) := by
    have hsnd : rows[i]?.map Prod.snd = some (newRecord (i + 1) name age) := by
      have hi := (List.getElem?_eq_some_iff.mp hcall).1
      rw [← List.getElem?_map, hrows, getElem?_insertedRecords, Nat.zero_add, hcall,
        Option.map_some, hid i hi.le]
    obtain ⟨⟨record, r⟩, hsome, rfl⟩ := Option.map_eq_some_iff.mp hsnd
    exact ⟨record, hsome⟩
  -- so the index holds the ids 1, 2, … in the order of the rows
  have hentries : rows.entries =
      (rows.map Prod.fst).mapIdx fun i record => ((i : Int) + 1, record) := by
    refine List.ext_getElem? fun i => ?_
    rw [Rows.entries, List.getElem?_map, List.getElem?_mapIdx, List.getElem?_map]
    rcases lt_or_ge i calls.length with hi | hi
    · obtain ⟨record, hsome⟩ := hrow i _ _ (List.getElem?_eq_getElem hi)
      rw [hsome]
      rfl
    · rw [List.getElem?_eq_none (by omega)]
      rfl
  have hascending := hn.ascending (by omega)
  have hindex : Indexed m ((rows.map Prod.fst).mapIdx fun i record => ((i : Int) + 1, record)) :=
    hentries ▸ hm.indexed_entries hascending
  have hslots : m.table.rows.take m.table.size = (rows.map Prod.fst).map some := by
    rw [hm.size, hm.slots, List.map_map]
    rfl
  exact {
    size := hm.size.trans hlength
    capacity := by
      rw [hm.size, ← hm.capacity]
      exact hm.length_le
    nextId := by
      rw [hn.next (by omega), hlength, hid _ le_rfl, hm.size, hlength]
    row := fun i name age hcall => by
      obtain ⟨record, hsome⟩ := hrow i name age hcall
      refine ⟨record, _, hm.slot hsome, hm.live _ (List.mem_of_getElem? hsome), rfl, rfl, ?_, ?_,
        cstr_strncpy ..⟩
      · rw [newRecord, List.length_append, length_strncpy]
        rfl
      · exact List.mem_append_right _ (List.mem_singleton_self _)
    index := ⟨rows.map Prod.fst, hslots, hindex⟩
    search := fun key => by
      rw [hindex.run_bptreeSearch, lookup_mapIdx, List.length_map, hm.size]
      split
      · next hkey =>
        have hlt : (key - 1).toNat < rows.length := by omega
        rw [hm.slot (List.getElem?_eq_getElem hlt), List.getElem?_map,
          List.getElem?_eq_getElem hlt]
        rfl
      · rfl }

end Agreement

/-- Table and index stay in agreement. After any insertions, fewer than `2 ^ 31 - 1`, the
table holds what was inserted, row array, records, index and counter agree, and further
insertions leave every row and its record as they are. -/
theorem tableInsertAll_agrees (calls more : List (List UInt8 × Int))
    (hfew : calls.length + more.length < 2 ^ 31 - 1) :
    ∃ results m results' m', (tableInsertAll calls).run tableCreate = some (results, m) ∧
      (tableInsertAll more).run m = some (results', m') ∧
      TableAgrees calls m ∧ TableAgrees (calls ++ more) m' ∧
      ∀ i record, i < m.table.size → m.table.rows[i]? = some (some record) →
        m'.table.rows[i]? = some (some record) ∧ m'.record? record = m.record? record := by
  have hok : tableCreate.NoFailure := rfl
  obtain ⟨rows, m, hrun, hrows, hm, hn⟩ := tableCreate_inv.run_tableInsertAll_numbered
    tableCreate_numbered hok calls (by rw [List.length_nil]; omega)
  rw [List.length_nil] at hrows
  rw [List.nil_append] at hm hn
  have hlength : rows.length = calls.length := by
    have h := congrArg List.length hrows
    rwa [List.length_map, length_insertedRecords] at h
  -- the later calls start from where the earlier ones lead
  obtain ⟨new, m', hrun', hnew, hm', hn'⟩ :=
    hm.run_tableInsertAll_numbered hn (hok.run hrun) more (by omega)
  have hall : (rows ++ new).map Prod.snd = insertedRecords 0 (calls ++ more) := by
    rw [List.map_append, hrows, hnew, hlength, insertedRecords_append, Nat.zero_add]
  refine ⟨_, m, _, m', hrun, hrun', hm.agrees hn hrows (by omega),
    hm'.agrees hn' hall (by rw [List.length_append]; omega), fun i record hi hslot => ?_⟩
  rw [hm.size] at hi
  have hrow := List.getElem?_eq_getElem hi
  obtain rfl : (rows[i]).1 = record :=
    Option.some.inj (Option.some.inj ((hm.slot hrow).symm.trans hslot))
  -- a row stays where it is
  have hrow' : (rows ++ new)[i]? = some rows[i] := by
    rw [List.getElem?_append_left hi, hrow]
  refine ⟨hm'.slot hrow', ?_⟩
  rw [hm'.live _ (List.mem_of_getElem? hrow'), hm.live _ (List.getElem_mem hi)]

/-- Two insertions, and a third. -/
theorem tableInsertAll_agrees_three :
    ∃ results m results' m',
      (tableInsertAll [(bytes "Ann", 30), (bytes "Bob", 25)]).run tableCreate = some (results, m) ∧
      (tableInsertAll [(bytes "Eve", 41)]).run m = some (results', m') ∧
      TableAgrees [(bytes "Ann", 30), (bytes "Bob", 25)] m ∧
      TableAgrees ([(bytes "Ann", 30), (bytes "Bob", 25)] ++ [(bytes "Eve", 41)]) m' ∧
      ∀ i record, i < m.table.size → m.table.rows[i]? = some (some record) →
        m'.table.rows[i]? = some (some record) ∧ m'.record? record = m.record? record :=
  tableInsertAll_agrees _ _ (by decide)

end SqlApi.Core

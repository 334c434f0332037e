import SqlApi.Core.BPTree
import SqlApi.Lib.CString

/-!
# `table.c`: the users table

The row array, the auto-increment counter and the queries. A result array is a
value here: nothing but the call that builds it sees it, and the only effect of
growing it is the allocation that may fail. Loops over the rows and over the leaf
chain get fuel, as the walks in the index do.

The queries by id have a second implementation of the descent, in `table.c` itself; it is modelled
apart from the one of `bptree.c`, as the source has it.
-/

namespace SqlApi.Core

open SqlApi.Lib

/-- `enum TableComparison` -/
inductive TableComparison where
  | eq | lt | le | gt | ge
  deriving DecidableEq, Repr

/-- `table_compare_int` -/
def tableCompareInt (left : Int) (comparison : TableComparison) (right : Int) : Bool :=
  match comparison with
  | .eq => decide (left = right)
  | .lt => decide (left < right)
  | .le => decide (left ≤ right)
  | .gt => decide (left > right)
  | .ge => decide (left ≥ right)

/-- The value of an `int` after an operation that may leave its range: 32 bits,
two's complement. -/
def wrapInt (x : Int) : Int := x.bmod (2 ^ 32)

/-! ## Growable arrays -/

/-- `(capacity == 0) ? 8 : capacity * 2` -/
def grownCapacity (capacity : Nat) : Nat := if capacity = 0 then 8 else capacity * 2

/-- `table_ensure_capacity` -/
def tableEnsureCapacity : Prog Bool := do
  let table ← getTable
  if table.size < table.capacity then pure true
  else
    let newCapacity := grownCapacity table.capacity
    if ← malloc then
      -- realloc keeps the slots in use, the new ones are not initialised
      setTable { table with
        rows := table.rows ++ List.replicate (newCapacity - table.rows.length) none
        capacity := newCapacity }
      pure true
    else pure false

/-- A result array: `*records`, whose length is `*count`, and its capacity. -/
structure ResultArray where
  records : List RecPtr
  capacity : Nat

/-- `table_append_record`; `none` is the return value 0, after which every caller
frees the array. -/
def tableAppendRecord (a : ResultArray) (record : RecPtr) : Prog (Option ResultArray) := do
  if a.records.length < a.capacity then
    pure (some { a with records := a.records ++ [record] })
  else if ← malloc then
    pure (some ⟨a.records ++ [record], grownCapacity a.capacity⟩)
  else pure none

/-- Read an array slot that has to hold a record. -/
def derefAll : List (Option RecPtr) → Prog (List RecPtr)
  | [] => pure []
  | slot :: rest => do
    let record ← deref slot
    let records ← derefAll rest
    pure (record :: records)

/-- `table_copy_records`; `none` is the return value 0. -/
def tableCopyRecords (source : List (Option RecPtr)) (sourceCount : Nat) :
    Prog (Option (List RecPtr)) := do
  if sourceCount = 0 then pure (some [])
  else if ← malloc then
    let copy ← derefAll (source.take sourceCount)
    pure (some copy)
  else pure none

/-! ## Insertion -/

/-- The fields `table_insert` fills in: `strncpy` of `RECORD_NAME_SIZE - 1` bytes
and a terminator. -/
def newRecord (id : Int) (name : List UInt8) (age : Int) : Record where
  id
  name := strncpy name (recordNameSize - 1) ++ [0]
  age

/-- `table_insert`; `none` is `NULL`. -/
def tableInsert (name : List UInt8) (age : Int) : Prog (Option RecPtr) := do
  if ← tableEnsureCapacity then
    match ← callocRecord with
    | none => pure none
    | some record =>
      let table ← getTable
      -- the id is taken for good, also when the insertion fails later
      let id := table.nextId
      setTable { table with nextId := wrapInt (id + 1) }
      setRecord record (newRecord id name age)
      -- the slot is written before the index has accepted the key
      let table ← getTable
      if table.size < table.rows.length then
        setTable { table with rows := table.rows.set table.size (some record) }
        if ← bptreeInsert id record then
          let table ← getTable
          setTable { table with size := table.size + 1 }
          pure (some record)
        else
          freeRecord record
          pure none
      else undefined
  else pure none

/-! ## Linear scans -/

/-- The record in a row slot below `size`. -/
def Table.row (table : Table) (index : Nat) : Prog RecPtr := deref table.rows[index]?.join

/-- `for (index = 0; index < size; index++) if (p(rows[index])) return rows[index];` -/
def tableScan (p : Record → Bool) : (fuel : Nat) → (index : Nat) → Prog (Option RecPtr)
  | 0, _ => undefined
  | fuel + 1, index => do
    let table ← getTable
    if index < table.size then
      let row ← table.row index
      let record ← getRecord row
      if p record then pure (some row) else tableScan p fuel (index + 1)
    else pure none

/-- A scan from the first row. -/
def tableScanAll (p : Record → Bool) : Prog (Option RecPtr) := do
  let table ← getTable
  tableScan p (table.size + 1) 0

/-- `table_find_by_id` -/
def tableFindById (id : Int) : Prog (Option RecPtr) := bptreeSearch id

/-- `table_scan_by_id` -/
def tableScanById (id : Int) : Prog (Option RecPtr) := tableScanAll fun r => decide (r.id = id)

/-- `strcmp(record->name, name) == 0` -/
def Record.hasName (name : List UInt8) (r : Record) : Bool := cstr r.name == cstr name

/-- `table_find_by_name` -/
def tableFindByName (name : List UInt8) : Prog (Option RecPtr) := tableScanAll (Record.hasName name)

/-- `table_find_by_age` -/
def tableFindByAge (age : Int) : Prog (Option RecPtr) := tableScanAll fun r => decide (r.age = age)

/-- `table_collect_all` -/
def tableCollectAll : Prog (Option (List RecPtr)) := do
  let table ← getTable
  tableCopyRecords table.rows table.size

/-- `for (index = 0; index < size; index++) if (p(rows[index])) append;` -/
def tableCollect (p : Record → Bool) : (fuel : Nat) → (index : Nat) → ResultArray →
    Prog (Option ResultArray)
  | 0, _, _ => undefined
  | fuel + 1, index, a => do
    let table ← getTable
    if index < table.size then
      let row ← table.row index
      let record ← getRecord row
      if p record then
        match ← tableAppendRecord a row with
        | none => pure none
        | some a => tableCollect p fuel (index + 1) a
      else tableCollect p fuel (index + 1) a
    else pure (some a)

/-- Collect from the first row into an empty array. -/
def tableCollectMatches (p : Record → Bool) : Prog (Option (List RecPtr)) := do
  let table ← getTable
  Option.map ResultArray.records <$> tableCollect p (table.size + 1) 0 ⟨[], 0⟩

/-- `table_find_by_name_matches` -/
def tableFindByNameMatches (name : List UInt8) : Prog (Option (List RecPtr)) :=
  tableCollectMatches (Record.hasName name)

/-- `table_find_by_age_condition` -/
def tableFindByAgeCondition (comparison : TableComparison) (age : Int) :
    Prog (Option (List RecPtr)) :=
  tableCollectMatches fun r => tableCompareInt r.age comparison age

/-! ## Scans along the index -/

/-- `table_find_insert_index` -/
def tableFindInsertIndex (keys : Vector Int bptreeMaxKeys) (numKeys : Nat) (key : Int) : Nat :=
  firstIndex numKeys fun i => decide (keys[i]! < key)

/-- The descents of `table_find_leftmost_leaf` and `table_find_id_leaf`; `pick` is
the child they go to. -/
def tableDescend (pick : BPTreeNode → Nat) : (fuel : Nat) → NodePtr → Prog NodePtr
  | 0, _ => undefined
  | fuel + 1, node => do
    let n ← getNode node
    if n.isLeaf then pure node
    else
      let child ← deref n.children[pick n]!
      tableDescend pick fuel child

/-- A descent from the root; `none` is `NULL`. -/
def tableDescendFromRoot (pick : BPTreeNode → Nat) : Prog (Option NodePtr) := do
  match ← getRoot with
  | none => pure none
  | some root =>
    let fuel ← countNodes
    let leaf ← tableDescend pick fuel root
    pure (some leaf)

/-- `table_find_leftmost_leaf` -/
def tableFindLeftmostLeaf : Prog (Option NodePtr) := tableDescendFromRoot fun _ => 0

/-- `table_find_id_leaf`: `while (child_index < num_keys && id >= keys[child_index])`. -/
def tableFindIdLeaf (id : Int) : Prog (Option NodePtr) :=
  tableDescendFromRoot fun n => firstIndex n.numKeys fun i => decide (id ≥ n.keys[i]!)

/-- Append the values of a leaf from some slot on. -/
def tableAppendValues (a : ResultArray) : List (Option RecPtr) → Prog (Option ResultArray)
  | [] => pure (some a)
  | value :: rest => do
    let record ← deref value
    match ← tableAppendRecord a record with
    | none => pure none
    | some a => tableAppendValues a rest

/-- `table_collect_leaf_chain` -/
def tableCollectLeafChain : (fuel : Nat) → Option NodePtr → (startIndex : Nat) → ResultArray →
    Prog (Option ResultArray)
  | _, none, _, a => pure (some a)
  | 0, some _, _, _ => undefined
  | fuel + 1, some leaf, startIndex, a => do
    let n ← getNode leaf
    -- from the start index in the first leaf, from the first key in every later one
    match ← tableAppendValues a ((n.values.toList.take n.numKeys).drop startIndex) with
    | none => pure none
    | some a => tableCollectLeafChain fuel n.next 0 a

/-- The skip loop for `>`: over keys not above `id`, then to the next leaf. -/
def tableSkipGt (id : Int) : (fuel : Nat) → Option NodePtr → (index : Nat) →
    Prog (Option (NodePtr × Nat))
  | _, none, _ => pure none
  | 0, some _, _ => undefined
  | fuel + 1, some leaf, index => do
    let n ← getNode leaf
    let index := firstIndexFrom (fun i => decide (n.keys[i]! ≤ id)) (n.numKeys - index) index
    -- a leaf without a larger key is passed over as a whole
    if index < n.numKeys then pure (some (leaf, index))
    else tableSkipGt id fuel n.next 0

/-- The skip loop for `>=`: over leaves with no slot left. -/
def tableSkipGe : (fuel : Nat) → Option NodePtr → (index : Nat) → Prog (Option (NodePtr × Nat))
  | _, none, _ => pure none
  | 0, some _, _ => undefined
  | fuel + 1, some leaf, index => do
    let n ← getNode leaf
    if index ≥ n.numKeys then tableSkipGe fuel n.next 0
    else pure (some (leaf, index))

/-- Append values while their keys satisfy the comparison: whether a key did not,
and the array; `none` is a failed allocation. -/
def tableAppendWhile (comparison : TableComparison) (id : Int) (a : ResultArray) :
    List (Int × Option RecPtr) → Prog (Option (Bool × ResultArray))
  | [] => pure (some (false, a))
  | (key, value) :: rest => do
    if tableCompareInt key comparison id then
      let record ← deref value
      match ← tableAppendRecord a record with
      | none => pure none
      | some a => tableAppendWhile comparison id a rest
    -- the keys ascend, so the first that fails ends the whole walk
    else pure (some (true, a))

/-- The scan from the leftmost leaf, up to the first key that fails. -/
def tableCollectWhile (comparison : TableComparison) (id : Int) : (fuel : Nat) →
    Option NodePtr → ResultArray → Prog (Option ResultArray)
  | _, none, a => pure (some a)
  | 0, some _, _ => undefined
  | fuel + 1, some leaf, a => do
    let n ← getNode leaf
    match ← tableAppendWhile comparison id a
      ((n.keys.toList.zip n.values.toList).take n.numKeys) with
    | none => pure none
    | some (true, a) => pure (some a)
    | some (false, a) => tableCollectWhile comparison id fuel n.next a

/-- `table_find_by_id_condition` for `>` and `>=`; `skip` is the skip loop. -/
def tableCollectFrom (id : Int)
    (skip : Nat → Option NodePtr → Nat → Prog (Option (NodePtr × Nat))) :
    Prog (Option ResultArray) := do
  match ← tableFindIdLeaf id with
  -- an empty index
  | none => pure (some ⟨[], 0⟩)
  | some leaf =>
    let n ← getNode leaf
    let fuel ← countNodes
    match ← skip fuel (some leaf) (tableFindInsertIndex n.keys n.numKeys id) with
    -- no key passes the condition
    | none => pure (some ⟨[], 0⟩)
    | some (leaf, index) => tableCollectLeafChain fuel (some leaf) index ⟨[], 0⟩

/-- `table_find_by_id_condition` for `<` and `<=`. -/
def tableCollectUpTo (comparison : TableComparison) (id : Int) : Prog (Option ResultArray) := do
  let leaf ← tableFindLeftmostLeaf
  let fuel ← countNodes
  tableCollectWhile comparison id fuel leaf ⟨[], 0⟩

/-- `table_find_by_id_condition` for `=`. -/
def tableCollectEq (id : Int) : Prog (Option ResultArray) := do
  match ← tableFindById id with
  | none => pure (some ⟨[], 0⟩)
  | some record => tableAppendRecord ⟨[], 0⟩ record

/-- `table_find_by_id_condition` -/
def tableFindByIdCondition (comparison : TableComparison) (id : Int) :
    Prog (Option (List RecPtr)) :=
  Option.map ResultArray.records <$> match comparison with
    | .eq => tableCollectEq id
    | .gt => tableCollectFrom id (tableSkipGt id)
    | .ge => tableCollectFrom id tableSkipGe
    | .lt | .le => tableCollectUpTo comparison id

end SqlApi.Core

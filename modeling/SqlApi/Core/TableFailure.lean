import SqlApi.Core.TableQueries

/-!
# Insertions that run out of memory

`table_insert` asks for memory in this order: the row array when it is full, the
record, then a sibling for every split the index needs and a new root when the
splits reach it. A split is done in place before the next one asks for its memory,
so only the first node may be refused without harm. `Memory.TornSplit` says that a
later one is; in every run that avoids it a failed call leaves the table as it was.

## How the proof goes

A failed call is a failure at one of the allocations above. When the index is reached, the counter
and the slot behind the last row have changed, and no query reads them. In the index, a refusal at
the first node leaves every node as it was. So what a caller can see is the same (`SameTable`): the
rows with their records, and the answer to every query (`TableQuery`).
-/

namespace SqlApi.Core

open SqlApi.Lib

/-! ## Calls with failing allocations -/

/-- A call of `table_insert`. `allocs` says which of its allocations succeed; past
the end of the list they all do. -/
structure InsertCall where
  name : List UInt8
  age : Int
  allocs : List Bool

/-- The memory a call starts in. -/
def InsertCall.start (call : InsertCall) (m : Memory) : Memory := { m with allocs := call.allocs }

/-- The call; outcomes it does not use are dropped. -/
def InsertCall.run (call : InsertCall) (m : Memory) : Option (Option RecPtr × Memory) :=
  ((tableInsert call.name call.age).run (call.start m)).map fun r => (r.1, { r.2 with allocs := [] })

/-- No row has the id `table_insert` gives out next. -/
def Memory.FreshId (m : Memory) : Prop :=
  ∀ p r, some p ∈ m.table.rows.take m.table.size → m.record? p = some r → r.id ≠ m.table.nextId

/-- The insertion splits a leaf, but memory runs out further up: the sibling of the
leaf is granted and a later node of the cascade is not. -/
def Memory.TornSplit (m : Memory) : Prop :=
  m.FreshId ∧ m.Granted (m.rowAllocs + 1 + 1) ∧
    ¬ m.Granted (m.rowAllocs + 1 + m.insertAllocs m.table.nextId)

/-- The tables that calls without a torn split lead to. -/
inductive IntactRun : Memory → Prop
  | create : IntactRun tableCreate
  | insert {m m' : Memory} (call : InsertCall) (result : Option RecPtr) : IntactRun m →
      ¬ (call.start m).TornSplit → call.run m = some (result, m') → IntactRun m'

/-! ## What a caller can see of a table -/

/-- The lookups and scans of `table.h`. -/
inductive TableQuery where
  | findById (id : Int)
  | scanById (id : Int)
  | findByName (name : List UInt8)
  | findByAge (age : Int)
  | collectAll
  | findByNameMatches (name : List UInt8)
  | findByIdCondition (comparison : TableComparison) (id : Int)
  | findByAgeCondition (comparison : TableComparison) (age : Int)

/-- The records a query returns; a lookup that returns `NULL` returns none. -/
def TableQuery.prog : TableQuery → Prog (Option (List RecPtr))
  | findById id => (fun r => some r.toList) <$> tableFindById id
  | scanById id => (fun r => some r.toList) <$> tableScanById id
  | findByName name => (fun r => some r.toList) <$> tableFindByName name
  | findByAge age => (fun r => some r.toList) <$> tableFindByAge age
  | collectAll => tableCollectAll
  | findByNameMatches name => tableFindByNameMatches name
  | findByIdCondition comparison id => tableFindByIdCondition comparison id
  | findByAgeCondition comparison age => tableFindByAgeCondition comparison age

/-- The answer in terms of the index and the rows. -/
def TableQuery.answer (es : List (Int × RecPtr)) (rows : Rows) : TableQuery → List RecPtr
  | findById id => (es.lookup id).toList
  | scanById id => ((rows.find? fun row => decide (row.2.id = id)).map Prod.fst).toList
  | findByName name => ((rows.find? fun row => row.2.hasName name).map Prod.fst).toList
  | findByAge age => ((rows.find? fun row => decide (row.2.age = age)).map Prod.fst).toList
  | collectAll => rows.map Prod.fst
  | findByNameMatches name => (rows.filter fun row => row.2.hasName name).map Prod.fst
  | findByIdCondition comparison id => selectById comparison id es
  | findByAgeCondition comparison age =>
    (rows.filter fun row => tableCompareInt row.2.age comparison age).map Prod.fst

/-- Two tables no caller can tell apart: the same row array with the same records in
it, and the same answer to every query. -/
structure SameTable (m m' : Memory) : Prop where
  size : m'.table.size = m.table.size
  rows : m'.table.rows.take m.table.size = m.table.rows.take m.table.size
  records : ∀ p, some p ∈ m.table.rows.take m.table.size → m'.record? p = m.record? p
  queries : ∀ query : TableQuery, ∃ found,
    query.prog.run m = some (some found, m) ∧ query.prog.run m' = some (some found, m')

/-- The index is well formed, its leaves are those of the chain, and every value in
them points to a live record. -/
structure IntactIndex (m : Memory) : Prop where
  shape : ∀ root, m.root = some root → BPTreeShape m.nodes root
  live : ∀ root, m.root = some root → ∃ leaves,
    leavesBelow m.nodes m.nodes.length root = some leaves ∧
    leafChain m.nodes m.nodes.length (leftmostLeaf m.nodes m.nodes.length root) = some leaves ∧
    ∀ e ∈ leaves.flatMap (fun p => (m.nodes[p]?.map BPTreeNode.pairs).getD []),
      ∃ p r, e.2 = some p ∧ m.record? p = some r

section Visible

variable {m m' : Memory} {rows : Rows}

/-- Every query is answered from the index and the rows. -/
theorem HoldsRows.run_query (hm : HoldsRows m rows) {es : List (Int × RecPtr)}
    (hes : Indexed m es) (hok : m.NoFailure) (query : TableQuery) :
    query.prog.run m = some (some (query.answer es rows), m) := by
  cases query with
  | findById id => exact run_map_of (hes.run_bptreeSearch id) _
  | scanById id => exact run_map_of (hm.run_tableScanAll fun r => decide (r.id = id)) _
  | findByName name => exact run_map_of (hm.run_tableScanAll (Record.hasName name)) _
  | findByAge age => exact run_map_of (hm.run_tableScanAll fun r => decide (r.age = age)) _
  | collectAll => exact hm.run_tableCollectAll hok
  | findByNameMatches name => exact hm.run_tableCollectMatches hok (Record.hasName name)
  | findByIdCondition comparison id => exact hes.run_tableFindByIdCondition hok comparison id
  | findByAgeCondition comparison age =>
    exact hm.run_tableCollectMatches hok fun r => tableCompareInt r.age comparison age

/-- Tables with the same rows and the same index look the same. -/
theorem Unchanged.sameTable (hsame : Unchanged m m' rows) (hm : TableInv m rows)
    (hok : m.NoFailure) (hok' : m'.NoFailure) : SameTable m m' where
  size := hsame.inv.size.trans hm.size.symm
  rows := by rw [hm.size, hsame.inv.slots, hm.slots]
  records := by
    intro p hp
    rw [hm.size, hm.slots] at hp
    obtain ⟨row, hrow, hp⟩ := List.mem_map.mp hp
    obtain rfl : row.1 = p := Option.some.inj hp
    rw [hm.live row hrow, hsame.inv.live row hrow]
  queries := by
    intro query
    obtain ⟨es, hes, -⟩ := hm.index
    have hes' : Indexed m' es := hes.congr hsame.nodes hsame.root
    exact ⟨_, hm.run_query hes hok query, hsame.inv.run_query hes' hok' query⟩

/-- The invariant makes the index intact. -/
theorem TableInv.intactIndex (hm : TableInv m rows) : IntactIndex m := by
  obtain ⟨es, hes, hperm⟩ := hm.index
  rcases hes with ⟨hnone, -⟩ | ⟨h, t, ht, rfl⟩
  · exact {
      shape := fun root hroot => by simp [hnone] at hroot
      live := fun root hroot => by simp [hnone] at hroot }
  · have hroot : ∀ root, m.root = some root → root = t.addr := fun root hroot =>
      Option.some.inj (hroot.symm.trans ht.root)
    refine { shape := fun root h => hroot root h ▸ ht.shape, live := fun root h => ?_ }
    obtain rfl := hroot root h
    obtain ⟨hbelow, hchain, hpairs⟩ := ht.leafChain_eq
    refine ⟨_, hbelow, hchain, fun e he => ?_⟩
    rw [hpairs] at he
    obtain ⟨entry, hentry, rfl⟩ := List.mem_map.mp he
    -- an entry belongs to a row, and the record of a row is live
    obtain ⟨row, hrow, rfl⟩ := List.mem_map.mp (hperm.mem_iff.mp hentry)
    exact ⟨row.1, row.2, rfl, hm.live row hrow⟩

theorem TableInv.freshId_iff (hm : TableInv m rows) :
    m.FreshId ↔ m.table.nextId ∉ rows.map fun row => row.2.id := by
  unfold Memory.FreshId
  rw [hm.size, hm.slots]
  constructor
  · intro hfresh hmem
    obtain ⟨row, hrow, hid⟩ := List.mem_map.mp hmem
    exact hfresh row.1 row.2 (List.mem_map.mpr ⟨row, hrow, rfl⟩) (hm.live row hrow) hid
  · intro hout p r hp hr hid
    obtain ⟨row, hrow, hp⟩ := List.mem_map.mp hp
    obtain rfl : row.1 = p := Option.some.inj hp
    obtain rfl : row.2 = r := Option.some.inj ((hm.live row hrow).symm.trans hr)
    exact hout (List.mem_map.mpr ⟨row, hrow, hid⟩)

end Visible

/-! ## Runs without a torn split -/

section Runs

variable {m : Memory} {rows : Rows}

/-- Without a torn split `table_insert` adds a row or changes nothing. -/
theorem TableInv.run_tableInsert_cases (hm : TableInv m rows) (htorn : ¬ m.TornSplit)
    (name : List UInt8) (age : Int) :
    (∃ m', (tableInsert name age).run m = some (some m.records.length, m') ∧
      TableInv m' (rows ++ [(m.records.length, newRecord m.table.nextId name age)])) ∨
    ∃ m', (tableInsert name age).run m = some (none, m') ∧ Unchanged m m' rows := by
  by_cases hrecord : m.Granted (m.rowAllocs + 1)
  · by_cases hfresh : m.table.nextId ∈ rows.map fun row => row.2.id
    · obtain ⟨m', hrun, hsame, -, -⟩ :=
        hm.run_tableInsert_refused hrecord (.inl hfresh) name age
      exact .inr ⟨m', hrun, hsame⟩
    · by_cases hall : m.Granted (m.rowAllocs + 1 + m.insertAllocs m.table.nextId)
      · obtain ⟨m', hrun, hm', -⟩ := hm.run_tableInsert hfresh hall name age
        exact .inl ⟨m', hrun, hm'⟩
      · -- some node is refused, and without a torn split it is the first
        have hfirst : m.allocs[m.rowAllocs + 1]? = some false := by
          by_contra hne
          exact htorn ⟨hm.freshId_iff.mpr hfresh, Memory.granted_succ_iff.mpr ⟨hrecord, hne⟩, hall⟩
        have hneeds : m.insertAllocs m.table.nextId ≠ 0 := fun h => hall (by rwa [h])
        obtain ⟨m', hrun, hsame, -, -⟩ :=
          hm.run_tableInsert_refused hrecord (.inr ⟨hneeds, hfirst⟩) name age
        exact .inr ⟨m', hrun, hsame⟩
  · obtain ⟨m', hrun, hsame⟩ := hm.run_tableInsert_noMemory hrecord name age
    exact .inr ⟨m', hrun, hsame⟩

/-- The outcomes of allocations are no part of the invariant. -/
theorem TableInv.withAllocs (hm : TableInv m rows) (allocs : List Bool) :
    TableInv { m with allocs } rows := hm.congr rfl rfl rfl rfl

/-- One call without a torn split. -/
theorem TableInv.run_call (hm : TableInv m rows) (hok : m.NoFailure) (call : InsertCall)
    (htorn : ¬ (call.start m).TornSplit) :
    ∃ result m', call.run m = some (result, m') ∧ m'.NoFailure ∧
      ((∃ p, result = some p ∧
          TableInv m' (rows ++ [(p, newRecord m.table.nextId call.name call.age)])) ∨
        (result = none ∧ TableInv m' rows ∧ SameTable m m')) := by
  have hstart : TableInv (call.start m) rows := hm.withAllocs _
  rcases hstart.run_tableInsert_cases htorn call.name call.age with
    ⟨m', hrun, hm'⟩ | ⟨m', hrun, hsame⟩
  · refine ⟨some m.records.length, { m' with allocs := [] }, ?_, rfl,
      .inl ⟨_, rfl, hm'.withAllocs []⟩⟩
    rw [InsertCall.run, hrun]
    rfl
  · have hsame' : Unchanged m { m' with allocs := [] } rows :=
      { inv := hsame.inv.withAllocs [], nodes := hsame.nodes, root := hsame.root }
    refine ⟨none, { m' with allocs := [] }, ?_, rfl,
      .inr ⟨rfl, hsame'.inv, hsame'.sameTable hm hok rfl⟩⟩
    rw [InsertCall.run, hrun]
    rfl

theorem IntactRun.inv (hm : IntactRun m) : m.NoFailure ∧ ∃ rows, TableInv m rows := by
  induction hm with
  | create => exact ⟨rfl, [], tableCreate_inv⟩
  | insert call result _ htorn hrun ih =>
    obtain ⟨hok, rows, hm⟩ := ih
    obtain ⟨result', m', hrun', hok', hcases⟩ := hm.run_call hok call htorn
    obtain ⟨-, rfl⟩ : result' = result ∧ m' = _ := by simpa [hrun'] using hrun
    rcases hcases with ⟨p, -, hm'⟩ | ⟨-, hm', -⟩
    · exact ⟨hok', _, hm'⟩
    · exact ⟨hok', rows, hm'⟩

/-- A call that gets all its memory tears no split. -/
theorem InsertCall.not_tornSplit {call : InsertCall} (hallocs : call.allocs = []) (m : Memory) :
    ¬ (call.start m).TornSplit := fun htorn =>
  have hok : (call.start m).NoFailure := hallocs
  htorn.2.2 (hok.granted _)

/-- Calls that all get their memory are such a run. -/
theorem IntactRun.insertAll {m m' : Memory} {people : List (List UInt8 × Int)}
    {results : List (Option RecPtr)} (hm : IntactRun m)
    (hrun : (tableInsertAll people).run m = some (results, m')) : IntactRun m' := by
  induction people generalizing m results with
  | nil =>
    obtain ⟨-, rfl⟩ := Prod.mk.inj (Option.some.inj hrun)
    exact hm
  | cons person people ih =>
    have hok : m.NoFailure := hm.inv.1
    rw [tableInsertAll, Prog.run, Program.run_bind, Option.bind_eq_some_iff] at hrun
    obtain ⟨⟨result, m₁⟩, hinsert, hrun⟩ := hrun
    rw [Program.run_bind, Option.bind_eq_some_iff] at hrun
    obtain ⟨⟨results', m₂⟩, hrest, hrun⟩ := hrun
    obtain ⟨-, rfl⟩ := Prod.mk.inj (Option.some.inj hrun)
    -- no outcome is listed before the call and none is left behind it
    have hok₁ : m₁.NoFailure := hok.run hinsert
    have hstart : (InsertCall.mk person.1 person.2 []).start m = m := by
      rw [InsertCall.start, ← show m.allocs = [] from hok]
    have hcall : (InsertCall.mk person.1 person.2 []).run m = some (result, m₁) := by
      rw [InsertCall.run, hstart, Prog.run, hinsert, ← show m₁.allocs = [] from hok₁]
      rfl
    exact ih (hm.insert _ result (InsertCall.not_tornSplit rfl m) hcall) hrest

/-- In a run without torn splits the index is intact all along, a call that returns
a record has appended it, and a call that returns `NULL` has left the table as it
was for every caller. -/
theorem tableInsert_failed_unchanged (hm : IntactRun m) (call : InsertCall)
    (htorn : ¬ (call.start m).TornSplit) :
    IntactIndex m ∧ ∃ rows result m', HoldsRows m rows ∧ call.run m = some (result, m') ∧
      IntactIndex m' ∧
      (result = none → SameTable m m') ∧
      (∀ p, result = some p →
        HoldsRows m' (rows ++ [(p, newRecord m.table.nextId call.name call.age)])) := by
  obtain ⟨hok, rows, hinv⟩ := hm.inv
  obtain ⟨result, m', hrun, -, ⟨p, rfl, hm'⟩ | ⟨rfl, hm', hsame⟩⟩ := hinv.run_call hok call htorn
  · refine ⟨hinv.intactIndex, rows, some p, m', hinv.toHoldsRows, hrun, hm'.intactIndex,
      (fun h => nomatch h), ?_⟩
    intro q hq
    obtain rfl : p = q := Option.some.inj hq
    exact hm'.toHoldsRows
  · exact ⟨hinv.intactIndex, rows, none, m', hinv.toHoldsRows, hrun, hm'.intactIndex,
      fun _ => hsame, fun q hq => nomatch hq⟩

end Runs

/-- Three rows fill a leaf, the fourth gets its record, the right half of the leaf is refused. -/
theorem tableInsert_failed_unchanged_fullLeaf :
    let call : InsertCall := ⟨bytes "Dan", 4, [true, false]⟩
    ∃ results m, (tableInsertAll [(bytes "Ann", 1), (bytes "Bob", 2), (bytes "Cat", 3)]).run
        tableCreate = some (results, m) ∧
      (m.nodes.map BPTreeNode.pairs) = [[(1, some 0), (2, some 1), (3, some 2)]] ∧
      IntactIndex m ∧ ∃ rows m', HoldsRows m rows ∧ call.run m = some (none, m') ∧
        IntactIndex m' ∧ SameTable m m' := by
  intro call
  obtain ⟨results, m, rows, hinsert, hm⟩ := tableCreate_inv.run_tableInsertAll rfl
    [(bytes "Ann", 1), (bytes "Bob", 2), (bytes "Cat", 3)]
  have hfull : ((tableInsertAll [(bytes "Ann", 1), (bytes "Bob", 2), (bytes "Cat", 3)]).run
      tableCreate).map (fun built => (built.2.nodes.map BPTreeNode.pairs,
        decide ((call.start built.2).rowAllocs = 0), (call.run built.2).map Prod.fst)) =
      some ([[(1, some 0), (2, some 1), (3, some 2)]], true, some none) := by decide
  rw [hinsert, Option.map_some, Option.some.injEq, Prod.mk.injEq, Prod.mk.injEq] at hfull
  obtain ⟨hleaf, hrows, hnone⟩ := hfull
  have htorn : ¬ (call.start m).TornSplit := by
    rintro ⟨-, hgranted, -⟩
    rw [of_decide_eq_true hrows] at hgranted
    exact absurd (hgranted false (by decide : false ∈ [true, false].take 2)) (by decide)
  obtain ⟨hindex, rows, result, m', hholds, hcall, hindex', hsame, -⟩ :=
    tableInsert_failed_unchanged (IntactRun.create.insertAll hinsert) call htorn
  rw [hcall, Option.map_some, Option.some.injEq] at hnone
  subst hnone
  exact ⟨results, m, hinsert, hleaf, hindex, rows, m', hholds, hcall, hindex', hsame rfl⟩

/-- A torn split: three rows fill a leaf, the fourth gets its record and the sibling
of the leaf, the new root is refused. The call returns `NULL`, the row with id 3 is
lost to the index, and the leaf chain ends in the freed record. -/
theorem tableInsert_torn_split :
    ∃ m m', (tableInsertAll [([65], 1), ([66], 2), ([67], 3)]).run tableCreate =
        some ([some 0, some 1, some 2], m) ∧
      (InsertCall.mk [68] 4 [true, true, false]).run m = some (none, m') ∧
      (tableFindById 3).run m = some (some 2, m) ∧ (tableFindById 3).run m' = some (none, m') ∧
      (m'.nodes[1]?.map BPTreeNode.pairs) = some [(3, some 2), (4, some 3)] ∧
      leafChain m'.nodes m'.nodes.length m'.root = some [0, 1] ∧ m'.record? 3 = none :=
  ⟨_, _, rfl, rfl, rfl, rfl, rfl, rfl, rfl⟩

end SqlApi.Core

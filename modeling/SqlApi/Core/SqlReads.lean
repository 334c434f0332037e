import SqlApi.Core.SqlSpec

/-!
# SELECT only reads

No query performs an operation that writes a node, a record, the root or the table.
This is a property of the code, before any run: it holds of every table, well formed
or not, whatever allocations fail, and at every single step of a query.

The property is `Program.Uses` for a set of operations (`Op.Reads`). Each function of the query path
has its lemma, proved by the rule for sequencing; loops go by induction on their fuel. What a run of
such a program leaves alone is then one lemma for all of them (`exec_of_reads`).
-/

namespace SqlApi.Core

open SqlApi.Lib

/-- The operations that write nothing a table owns. -/
def Op.Reads : Op → Prop
  | .setNode .. | .callocNode | .setRoot _ | .setRecord .. | .callocRecord | .freeRecord _
  | .setTable _ => False
  | _ => True

/-- The same table: nodes, root, records, row array, size and counter. -/
structure SameStore (m m' : Memory) : Prop where
  nodes : m'.nodes = m.nodes
  root : m'.root = m.root
  records : m'.records = m.records
  table : m'.table = m.table

theorem SameStore.refl (m : Memory) : SameStore m m := ⟨rfl, rfl, rfl, rfl⟩

theorem SameStore.trans {m₁ m₂ m₃ : Memory} (h : SameStore m₁ m₂) (h' : SameStore m₂ m₃) :
    SameStore m₁ m₃ where
  nodes := h'.nodes.trans h.nodes
  root := h'.root.trans h.root
  records := h'.records.trans h.records
  table := h'.table.trans h.table

/-- Reading operations leave the table alone, and the memory too when no allocation
fails. -/
theorem exec_of_reads {o : Op} {m : Memory} {r : Op.Ans o × Memory} (ho : o.Reads)
    (hr : exec o m = some r) : SameStore m r.2 ∧ (m.NoFailure → r.2 = m) := by
  cases o with
  | getNode p =>
    obtain ⟨n, -, rfl⟩ := Option.map_eq_some_iff.mp hr
    exact ⟨.refl m, fun _ => rfl⟩
  | getRecord p =>
    obtain ⟨n, -, rfl⟩ := Option.map_eq_some_iff.mp hr
    exact ⟨.refl m, fun _ => rfl⟩
  | countNodes | getRoot | getTable =>
    obtain rfl := Option.some.inj hr
    exact ⟨.refl m, fun _ => rfl⟩
  -- a failed allocation is the one trace a reader leaves
  | malloc =>
    obtain rfl := Option.some.inj hr
    rw [m.takeAlloc_snd]
    refine ⟨⟨rfl, rfl, rfl, rfl⟩, fun hok => ?_⟩
    obtain ⟨nodes, root, records, table, allocs⟩ := m
    obtain rfl : allocs = [] := hok
    rfl
  | undefined => cases hr
  | _ => exact ho.elim

/-- Code that only reads. -/
abbrev Prog.ReadOnly {α : Type} (p : Prog α) : Prop := Program.Uses Op.Reads p

section ReadOnly

variable {α β : Type}

/-- A run of such code leaves everything but the list of allocations. -/
theorem Prog.ReadOnly.run {p : Prog α} {m m' : Memory} {a : α} (hp : p.ReadOnly)
    (hrun : p.run m = some (a, m')) : SameStore m m' :=
  Program.Uses.run hp SameStore.refl (fun _ _ _ => SameStore.trans)
    (fun _ _ _ ho hr => (exec_of_reads ho hr).1) hrun

/-- The operations that read. -/
theorem readOnly_getNode (p : NodePtr) : (getNode p).ReadOnly := Program.uses_perform trivial

theorem readOnly_getRecord (p : RecPtr) : (getRecord p).ReadOnly := Program.uses_perform trivial

theorem readOnly_getTable : getTable.ReadOnly := Program.uses_perform trivial

theorem readOnly_getRoot : getRoot.ReadOnly := Program.uses_perform trivial

theorem readOnly_countNodes : countNodes.ReadOnly := Program.uses_perform trivial

theorem readOnly_malloc : malloc.ReadOnly := Program.uses_perform trivial

theorem readOnly_undefined : (undefined : Prog α).ReadOnly := ⟨trivial, fun a => a.elim⟩

theorem readOnly_pure (a : α) : (pure a : Prog α).ReadOnly := Program.uses_pure a

/-- A dereferenced pointer is read, `NULL` is undefined. -/
theorem readOnly_deref (p : Option Nat) : (deref p).ReadOnly := by
  cases p with
  | none => exact readOnly_undefined
  | some p => exact readOnly_pure p

/-! ## Result arrays -/

/-- The array of a result is no part of the table, so to append to it changes nothing. -/
theorem readOnly_tableAppendRecord (a : ResultArray) (record : RecPtr) :
    (tableAppendRecord a record).ReadOnly := by
  unfold tableAppendRecord
  split
  · exact readOnly_pure _
  · refine readOnly_malloc.bind fun ok => ?_
    cases ok <;> exact readOnly_pure _

/-- An append, and what the caller does unless it fails. -/
private theorem readOnly_append {a : ResultArray} {record : RecPtr}
    {next : ResultArray → Prog (Option β)} (hnext : ∀ a, (next a).ReadOnly) :
    Prog.ReadOnly (do
      match ← tableAppendRecord a record with
      | none => pure none
      | some a => next a) := by
  refine (readOnly_tableAppendRecord a record).bind fun appended => ?_
  cases appended with
  | none => exact readOnly_pure _
  | some a => exact hnext a

theorem readOnly_derefAll (slots : List (Option RecPtr)) : (derefAll slots).ReadOnly := by
  induction slots with
  | nil => exact readOnly_pure _
  | cons slot rest ih => exact (readOnly_deref slot).bind fun _ => ih.bind fun _ => readOnly_pure _

/-- A copy reads the rows only. -/
theorem readOnly_tableCopyRecords (source : List (Option RecPtr)) (sourceCount : Nat) :
    (tableCopyRecords source sourceCount).ReadOnly := by
  unfold tableCopyRecords
  split
  · exact readOnly_pure _
  · refine readOnly_malloc.bind fun ok => ?_
    cases ok with
    | true => exact (readOnly_derefAll _).bind fun _ => readOnly_pure _
    | false => exact readOnly_pure _

theorem readOnly_tableCollectAll : tableCollectAll.ReadOnly :=
  readOnly_getTable.bind fun _ => readOnly_tableCopyRecords _ _

/-- The loop of the scans over all rows. -/
theorem readOnly_tableCollect (p : Record → Bool) (fuel index : Nat) (a : ResultArray) :
    (tableCollect p fuel index a).ReadOnly := by
  induction fuel generalizing index a with
  | zero => exact readOnly_undefined
  | succ fuel ih =>
    unfold tableCollect
    refine readOnly_getTable.bind fun table => ?_
    split
    · refine (readOnly_deref _).bind fun row => (readOnly_getRecord row).bind fun record => ?_
      split
      · exact readOnly_append fun a => ih _ a
      · exact ih _ a
    · exact readOnly_pure _

theorem readOnly_tableCollectMatches (p : Record → Bool) : (tableCollectMatches p).ReadOnly :=
  readOnly_getTable.bind fun _ => (readOnly_tableCollect p _ _ _).map _

/-! ## The index -/

/-- The descent to a leaf; the induction is on its fuel. -/
theorem readOnly_tableDescend (pick : BPTreeNode → Nat) (fuel : Nat) (node : NodePtr) :
    (tableDescend pick fuel node).ReadOnly := by
  induction fuel generalizing node with
  | zero => exact readOnly_undefined
  | succ fuel ih =>
    unfold tableDescend
    refine (readOnly_getNode node).bind fun n => ?_
    split
    · exact readOnly_pure _
    · exact (readOnly_deref _).bind fun child => ih child

theorem readOnly_tableDescendFromRoot (pick : BPTreeNode → Nat) :
    (tableDescendFromRoot pick).ReadOnly := by
  refine readOnly_getRoot.bind fun root => ?_
  cases root with
  | none => exact readOnly_pure _
  | some root =>
    exact readOnly_countNodes.bind fun _ =>
      (readOnly_tableDescend pick _ root).bind fun _ => readOnly_pure _

theorem readOnly_tableAppendValues (a : ResultArray) (values : List (Option RecPtr)) :
    (tableAppendValues a values).ReadOnly := by
  induction values generalizing a with
  | nil => exact readOnly_pure _
  | cons value rest ih => exact (readOnly_deref value).bind fun _ => readOnly_append ih

/-- The walk along the leaves. -/
theorem readOnly_tableCollectLeafChain (fuel : Nat) (leaf : Option NodePtr) (startIndex : Nat)
    (a : ResultArray) : (tableCollectLeafChain fuel leaf startIndex a).ReadOnly := by
  -- the induction is on the fuel, leaf by leaf
  induction fuel generalizing leaf startIndex a with
  | zero => cases leaf <;> first | exact readOnly_pure _ | exact readOnly_undefined
  | succ fuel ih =>
    cases leaf with
    | none => exact readOnly_pure _
    | some leaf =>
      unfold tableCollectLeafChain
      refine (readOnly_getNode leaf).bind fun n => ?_
      refine (readOnly_tableAppendValues a _).bind fun appended => ?_
      cases appended with
      | none => exact readOnly_pure _
      | some a => exact ih n.next 0 a

/-- Both skips walk without collecting. -/
theorem readOnly_tableSkipGt (id : Int) (fuel : Nat) (leaf : Option NodePtr) (index : Nat) :
    (tableSkipGt id fuel leaf index).ReadOnly := by
  -- the induction is on the fuel, leaf by leaf
  induction fuel generalizing leaf index with
  | zero => cases leaf <;> first | exact readOnly_pure _ | exact readOnly_undefined
  | succ fuel ih =>
    cases leaf with
    | none => exact readOnly_pure _
    | some leaf =>
      unfold tableSkipGt
      refine (readOnly_getNode leaf).bind fun n => ?_
      dsimp only
      split
      · exact readOnly_pure _
      · exact ih n.next 0

theorem readOnly_tableSkipGe (fuel : Nat) (leaf : Option NodePtr) (index : Nat) :
    (tableSkipGe fuel leaf index).ReadOnly := by
  induction fuel generalizing leaf index with
  | zero => cases leaf <;> first | exact readOnly_pure _ | exact readOnly_undefined
  | succ fuel ih =>
    cases leaf with
    | none => exact readOnly_pure _
    | some leaf =>
      unfold tableSkipGe
      refine (readOnly_getNode leaf).bind fun n => ?_
      split
      · exact ih n.next 0
      · exact readOnly_pure _

/-- The loop over the entries of one leaf. -/
theorem readOnly_tableAppendWhile (comparison : TableComparison) (id : Int) (a : ResultArray)
    (pairs : List (Int × Option RecPtr)) : (tableAppendWhile comparison id a pairs).ReadOnly := by
  induction pairs generalizing a with
  | nil => exact readOnly_pure _
  | cons pair rest ih =>
    unfold tableAppendWhile
    split
    · exact (readOnly_deref _).bind fun _ => readOnly_append ih
    · exact readOnly_pure _

/-- The walk that stops at the first entry that does not compare. -/
theorem readOnly_tableCollectWhile (comparison : TableComparison) (id : Int) (fuel : Nat)
    (leaf : Option NodePtr) (a : ResultArray) :
    (tableCollectWhile comparison id fuel leaf a).ReadOnly := by
  -- the induction is on the fuel, leaf by leaf
  induction fuel generalizing leaf a with
  | zero => cases leaf <;> first | exact readOnly_pure _ | exact readOnly_undefined
  | succ fuel ih =>
    cases leaf with
    | none => exact readOnly_pure _
    | some leaf =>
      unfold tableCollectWhile
      refine (readOnly_getNode leaf).bind fun n => ?_
      refine (readOnly_tableAppendWhile comparison id a _).bind fun appended => ?_
      cases appended with
      | none => exact readOnly_pure _
      | some pair =>
        obtain ⟨ended, a⟩ := pair
        cases ended with
        | true => exact readOnly_pure _
        | false => exact ih n.next a

/-- A descent, a skip and a walk. -/
theorem readOnly_tableCollectFrom (id : Int)
    {skip : Nat → Option NodePtr → Nat → Prog (Option (NodePtr × Nat))}
    (hskip : ∀ fuel leaf index, (skip fuel leaf index).ReadOnly) :
    (tableCollectFrom id skip).ReadOnly := by
  refine (readOnly_tableDescendFromRoot _).bind fun leaf => ?_
  cases leaf with
  | none => exact readOnly_pure _
  | some leaf =>
    refine (readOnly_getNode leaf).bind fun n => readOnly_countNodes.bind fun fuel => ?_
    refine (hskip _ _ _).bind fun start => ?_
    cases start with
    | none => exact readOnly_pure _
    | some start => exact readOnly_tableCollectLeafChain _ _ _ _

/-- The descent of `bptree_find_leaf`. -/
theorem readOnly_bptreeDescend (key : Int) (fuel : Nat) (node : NodePtr) :
    (bptreeDescend key fuel node).ReadOnly := by
  induction fuel generalizing node with
  | zero => exact readOnly_undefined
  | succ fuel ih =>
    unfold bptreeDescend
    refine (readOnly_getNode node).bind fun n => ?_
    split
    · exact readOnly_pure _
    · exact (readOnly_deref _).bind fun child => ih child

theorem readOnly_bptreeFindLeaf (key : Int) : (bptreeFindLeaf key).ReadOnly := by
  refine readOnly_getRoot.bind fun root => ?_
  cases root with
  | none => exact readOnly_pure _
  | some root =>
    exact readOnly_countNodes.bind fun _ =>
      (readOnly_bptreeDescend key _ root).bind fun _ => readOnly_pure _

/-- A search never writes to a node. -/
theorem readOnly_bptreeSearch (key : Int) : (bptreeSearch key).ReadOnly := by
  refine (readOnly_bptreeFindLeaf key).bind fun leaf => ?_
  cases leaf with
  | none => exact readOnly_pure _
  | some leaf =>
    refine (readOnly_getNode leaf).bind fun n => ?_
    split <;> exact readOnly_pure _

/-! ## Statements -/

/-- So none of the comparisons changes the table. -/
theorem readOnly_tableFindByIdCondition (comparison : TableComparison) (id : Int) :
    (tableFindByIdCondition comparison id).ReadOnly := by
  have hupTo : (tableCollectUpTo comparison id).ReadOnly :=
    (readOnly_tableDescendFromRoot _).bind fun _ => readOnly_countNodes.bind fun _ =>
      readOnly_tableCollectWhile comparison id _ _ _
  unfold tableFindByIdCondition
  refine Program.Uses.map ?_ _
  -- equality goes through the search, the other four through the leaves
  cases comparison with
  | eq =>
    refine (readOnly_bptreeSearch id).bind fun found => ?_
    cases found with
    | none => exact readOnly_pure _
    | some record => exact readOnly_tableAppendRecord _ record
  | gt => exact readOnly_tableCollectFrom id (readOnly_tableSkipGt id)
  | ge => exact readOnly_tableCollectFrom id readOnly_tableSkipGe
  | lt => exact hupTo
  | le => exact hupTo

/-- A SELECT only reads. -/
theorem readOnly_select (query : SqlSelect) : query.exec.ReadOnly := by
  cases query with
  | all => exact readOnly_tableCollectAll.map _
  | byId comparison id => exact (readOnly_tableFindByIdCondition comparison id).map _
  | byName name => exact (readOnly_tableCollectMatches _).map _
  | byAge comparison age => exact (readOnly_tableCollectMatches _).map _

/-- A text without an INSERT only reads. -/
theorem readOnly_sqlExecute {input : Cursor}
    (hinsert : ∀ name age, sqlParse input ≠ .ok (.insert name age)) :
    (sqlExecute input).ReadOnly := by
  rw [sqlExecute_eq]
  cases hparse : sqlParse input with
  | error result => exact readOnly_pure result
  | ok statement =>
    cases statement with
    | insert name age => exact absurd hparse (hinsert name age)
    | select query => exact readOnly_select query

end ReadOnly

end SqlApi.Core

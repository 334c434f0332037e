import SqlApi.Core.SqlReads

/-!
# Statements and the records before them

Two properties of the code of a statement, at every single step of it:

- no statement writes or frees a record that was there when it began. Only an INSERT
  writes records at all, and only the one it allocated itself;
- a SELECT that returns rows has allocated their array itself. No path hands out an
  array that was there before, in particular not the row array of the table.
-/

namespace SqlApi.Core

open SqlApi.Lib

/-! ## The index keeps no records -/

/-- The operations on the nodes of the index. -/
def Op.OnIndex : Op → Prop
  | .getNode _ | .setNode .. | .callocNode | .countNodes | .getRoot | .setRoot _ | .undefined =>
    True
  | _ => False

/-- Code that works on the index only. -/
abbrev Prog.OnIndex {α : Type} (p : Prog α) : Prop := Program.Uses Op.OnIndex p

section OnIndex

variable {α : Type}

private theorem onIndex_pure (a : α) : (pure a : Prog α).OnIndex := Program.uses_pure a

private theorem onIndex_undefined : (undefined : Prog α).OnIndex := ⟨trivial, fun a => a.elim⟩

private theorem onIndex_getNode (p : NodePtr) : (getNode p).OnIndex := Program.uses_perform trivial

private theorem onIndex_getRoot : getRoot.OnIndex := Program.uses_perform trivial

private theorem onIndex_countNodes : countNodes.OnIndex := Program.uses_perform trivial

private theorem onIndex_setRoot (root : Option NodePtr) : (setRoot root).OnIndex :=
  Program.uses_perform trivial

private theorem onIndex_setNode (p : NodePtr) (n : BPTreeNode) : (setNode p n).OnIndex :=
  Program.uses_perform trivial

private theorem onIndex_deref (p : Option Nat) : (deref p).OnIndex := by
  cases p with
  | none => exact onIndex_undefined
  | some p => exact onIndex_pure p

private theorem onIndex_modifyNode (p : NodePtr) (f : BPTreeNode → BPTreeNode) :
    (modifyNode p f).OnIndex :=
  (onIndex_getNode p).bind fun _ => onIndex_setNode p _

/-- The functions of `bptree.c` from here on work on nodes and on the root only. -/
theorem onIndex_bptreeCreateNode (isLeaf : Bool) : (bptreeCreateNode isLeaf).OnIndex := by
  have hcalloc : callocNode.OnIndex := Program.uses_perform trivial
  refine hcalloc.bind fun node => ?_
  cases node with
  | none => exact onIndex_pure _
  | some node => exact (onIndex_modifyNode node _).bind fun _ => onIndex_pure _

theorem onIndex_bptreeDescend (key : Int) (fuel : Nat) (node : NodePtr) :
    (bptreeDescend key fuel node).OnIndex := by
  induction fuel generalizing node with
  | zero => exact onIndex_undefined
  | succ fuel ih =>
    unfold bptreeDescend
    refine (onIndex_getNode node).bind fun n => ?_
    split
    · exact onIndex_pure _
    · exact (onIndex_deref _).bind fun child => ih child

theorem onIndex_bptreeFindLeaf (key : Int) : (bptreeFindLeaf key).OnIndex := by
  refine onIndex_getRoot.bind fun root => ?_
  cases root with
  | none => exact onIndex_pure _
  | some root =>
    exact onIndex_countNodes.bind fun _ =>
      (onIndex_bptreeDescend key _ root).bind fun _ => onIndex_pure _

theorem onIndex_bptreeCreateNewRoot (left : NodePtr) (key : Int) (right : NodePtr) :
    (bptreeCreateNewRoot left key right).OnIndex := by
  refine (onIndex_bptreeCreateNode false).bind fun root => ?_
  cases root with
  | none => exact onIndex_pure _
  | some root =>
    refine (onIndex_modifyNode root _).bind fun _ => (onIndex_modifyNode left _).bind fun _ => ?_
    exact (onIndex_modifyNode right _).bind fun _ =>
      (onIndex_setRoot _).bind fun _ => onIndex_pure _

theorem onIndex_bptreeInsertIntoInternal (parent : NodePtr) (insertIndex : Nat) (key : Int)
    (rightChild : NodePtr) :
    (bptreeInsertIntoInternal parent insertIndex key rightChild).OnIndex :=
  (onIndex_getNode parent).bind fun _ => (onIndex_setNode parent _).bind fun _ =>
    (onIndex_modifyNode rightChild _).bind fun _ => onIndex_modifyNode parent _

/-- The loop that gives the children of a node their parent. -/
theorem onIndex_bptreeSetParents (parent : NodePtr) (children : List (Option NodePtr)) :
    (bptreeSetParents parent children).OnIndex := by
  induction children with
  | nil => exact onIndex_pure _
  | cons child rest ih =>
    cases child with
    | none => exact ih
    | some child => exact (onIndex_modifyNode child _).bind fun _ => ih

/-- A split calls `bptree_insert_into_parent`, which is an argument here. -/
theorem onIndex_bptreeSplitInternalAndInsert
    {insertIntoParent : NodePtr → Int → NodePtr → Prog Bool}
    (hparent : ∀ left key right, (insertIntoParent left key right).OnIndex) (parent : NodePtr)
    (insertIndex : Nat) (key : Int) (rightChild : NodePtr) :
    (bptreeSplitInternalAndInsert insertIntoParent parent insertIndex key rightChild).OnIndex := by
  refine (onIndex_bptreeCreateNode false).bind fun rightParent => ?_
  cases rightParent with
  | none => exact onIndex_pure _
  | some rightParent =>
    refine (onIndex_getNode parent).bind fun n => (onIndex_setNode parent _).bind fun _ => ?_
    refine (onIndex_bptreeSetParents parent _).bind fun _ => ?_
    refine (onIndex_modifyNode rightParent _).bind fun _ => ?_
    exact (onIndex_bptreeSetParents rightParent _).bind fun _ => hparent _ _ _

/-- The climb; the induction is on its fuel, and ties that knot. -/
theorem onIndex_bptreeInsertIntoParent (fuel : Nat) (left : NodePtr) (key : Int)
    (right : NodePtr) : (bptreeInsertIntoParent fuel left key right).OnIndex := by
  -- the induction is on the fuel of the climb
  induction fuel generalizing left key right with
  | zero => exact onIndex_undefined
  | succ fuel ih =>
    unfold bptreeInsertIntoParent
    refine (onIndex_getNode left).bind fun l => ?_
    split
    · exact onIndex_bptreeCreateNewRoot left key right
    · refine (onIndex_getNode _).bind fun n => ?_
      dsimp only
      split
      · exact (onIndex_bptreeInsertIntoInternal _ _ _ _).bind fun _ => onIndex_pure _
      · exact onIndex_bptreeSplitInternalAndInsert ih _ _ _ _

theorem onIndex_bptreeSplitLeafAndInsert (fuel : Nat) (leaf : NodePtr) (key : Int)
    (value : RecPtr) : (bptreeSplitLeafAndInsert fuel leaf key value).OnIndex := by
  refine (onIndex_bptreeCreateNode true).bind fun rightLeaf => ?_
  cases rightLeaf with
  | none => exact onIndex_pure _
  | some rightLeaf =>
    refine (onIndex_getNode leaf).bind fun n => (onIndex_setNode leaf _).bind fun _ => ?_
    refine (onIndex_modifyNode rightLeaf _).bind fun _ => ?_
    exact (onIndex_getNode rightLeaf).bind fun r => onIndex_bptreeInsertIntoParent _ _ _ _

/-- An insertion into the index never touches a record. -/
theorem onIndex_bptreeInsert (key : Int) (value : RecPtr) : (bptreeInsert key value).OnIndex := by
  refine onIndex_getRoot.bind fun root => ?_
  cases root with
  -- an empty tree: only the new root is touched
  | none =>
    refine (onIndex_bptreeCreateNode true).bind fun root => (onIndex_setRoot root).bind fun _ => ?_
    cases root with
    | none => exact onIndex_pure _
    | some root => exact (onIndex_modifyNode root _).bind fun _ => onIndex_pure _
  | some root =>
    refine (onIndex_bptreeFindLeaf key).bind fun found => (onIndex_deref found).bind fun leaf => ?_
    refine (onIndex_getNode leaf).bind fun n => ?_
    split
    · exact onIndex_pure _
    · split
      · refine Program.Uses.bind ?_ fun _ => onIndex_pure _
        exact (onIndex_getNode leaf).bind fun _ => onIndex_setNode leaf _
      · exact onIndex_countNodes.bind fun _ => onIndex_bptreeSplitLeafAndInsert _ _ _ _

/-- An operation on the index leaves table and records alone. -/
private theorem exec_of_onIndex {o : Op} {m : Memory} {r : Op.Ans o × Memory} (ho : o.OnIndex)
    (hr : exec o m = some r) : r.2.table = m.table ∧ r.2.records = m.records := by
  have halloc := m.takeAlloc_snd
  cases o with
  | getNode p =>
    obtain ⟨node, -, rfl⟩ := Option.map_eq_some_iff.mp hr
    exact ⟨rfl, rfl⟩
  | setNode p node =>
    simp only [exec, Option.ite_none_right_eq_some, Option.some.injEq] at hr
    obtain ⟨-, rfl⟩ := hr
    exact ⟨rfl, rfl⟩
  -- the allocation changes the nodes and the list of answers
  | callocNode =>
    simp only [exec] at hr
    split at hr
    all_goals
      next m' heq =>
        rw [heq] at halloc
        obtain rfl := Option.some.inj hr
        obtain rfl : m' = _ := halloc
        exact ⟨rfl, rfl⟩
  | countNodes | getRoot | setRoot root =>
    obtain rfl := Option.some.inj hr
    exact ⟨rfl, rfl⟩
  | undefined => cases hr
  | getRecord | setRecord | callocRecord | freeRecord | getTable | setTable | malloc => cases ho

/-- So does code that works on the index only. -/
theorem Prog.OnIndex.run {p : Prog α} {m m' : Memory} {a : α} (hp : p.OnIndex)
    (hrun : p.run m = some (a, m')) : m'.table = m.table ∧ m'.records = m.records := by
  let Kept (m m' : Memory) : Prop := m'.table = m.table ∧ m'.records = m.records
  have htrans (m₁ m₂ m₃ : Memory) (h : Kept m₁ m₂) (h' : Kept m₂ m₃) : Kept m₁ m₃ :=
    ⟨h'.1.trans h.1, h'.2.trans h.2⟩
  exact Program.Uses.run (R := Kept) hp (fun _ => ⟨rfl, rfl⟩) htrans
    (fun _ _ _ ho hr => exec_of_onIndex ho hr) hrun

end OnIndex

/-! ## Records that were there before -/

/-- The operation writes and frees no record below `n`. -/
def Op.Spares (n : Nat) : Op → Prop
  | .setRecord p _ | .freeRecord p => n ≤ p
  | _ => True

/-- A record that is allocated is not below `n`. -/
def Op.Beyond (n : Nat) : (o : Op) → Op.Ans o → Prop
  | .callocRecord, answer => ∀ p, answer = some p → n ≤ p
  | _, _ => True

/-- Code that writes and frees only records it allocated itself. -/
abbrev Prog.Spares {α : Type} (n : Nat) (p : Prog α) : Prop :=
  Program.Obeys (Op.Spares n) (Op.Beyond n) (fun _ => True) p

/-- The first `n` records are the same. -/
structure SameRecords (n : Nat) (m m' : Memory) : Prop where
  length : n ≤ m'.records.length
  same : ∀ p < n, m'.record? p = m.record? p

theorem SameRecords.refl (m : Memory) : SameRecords m.records.length m m := ⟨le_rfl, fun _ _ => rfl⟩

/-- From step to step the same records are kept. -/
theorem SameRecords.trans {n : Nat} {m₁ m₂ m₃ : Memory} (h : SameRecords n m₁ m₂)
    (h' : SameRecords n m₂ m₃) : SameRecords n m₁ m₃ :=
  ⟨h'.length, fun p hp => (h'.same p hp).trans (h.same p hp)⟩

/-- A write behind the first `n` records. -/
private theorem sameRecords_set {n p : Nat} {m : Memory} (hn : n ≤ m.records.length) (hp : n ≤ p)
    (r : Option Record) : SameRecords n m { m with records := m.records.set p r } := by
  refine ⟨by simpa using hn, fun q hq => ?_⟩
  have hne : p ≠ q := by omega
  unfold Memory.record?
  rw [List.getElem?_set_ne hne]

/-- An operation that spares the first records leaves them alone, and a record it
allocates is not among them. -/
theorem exec_of_spares {n : Nat} {o : Op} {m : Memory} {r : Op.Ans o × Memory} (ho : o.Spares n)
    (hn : n ≤ m.records.length) (hr : exec o m = some r) : SameRecords n m r.2 ∧ o.Beyond n r.1 := by
  have hsame (m' : Memory) (h : m'.records = m.records) : SameRecords n m m' := by
    refine ⟨h ▸ hn, fun p _ => ?_⟩
    unfold Memory.record?
    rw [h]
  have halloc : m.takeAlloc.2.records = m.records := by rw [m.takeAlloc_snd]
  -- only `setRecord`, `freeRecord` and `callocRecord` touch the records
  cases o with
  | setRecord p record =>
    simp only [exec, Option.ite_none_right_eq_some, Option.some.injEq] at hr
    obtain ⟨-, rfl⟩ := hr
    exact ⟨sameRecords_set hn ho _, trivial⟩
  | freeRecord p =>
    simp only [exec, Option.ite_none_right_eq_some, Option.some.injEq] at hr
    obtain ⟨-, rfl⟩ := hr
    exact ⟨sameRecords_set hn ho _, trivial⟩
  | callocRecord =>
    simp only [exec] at hr
    split at hr
    next m' heq =>
      rw [heq] at halloc
      obtain rfl := Option.some.inj hr
      dsimp only at halloc ⊢
      -- the new record is behind all others
      refine ⟨⟨?_, fun p hp => ?_⟩, ?_⟩
      · rw [List.length_append, halloc]
        omega
      · have hp' : p < m'.records.length := by
          rw [halloc]
          omega
        unfold Memory.record?
        rw [List.getElem?_append_left hp', halloc]
      · rintro p ⟨⟩
        rw [halloc]
        exact hn
    next m' heq =>
      rw [heq] at halloc
      obtain rfl := Option.some.inj hr
      refine ⟨hsame m' halloc, ?_⟩
      rintro p ⟨⟩
  | callocNode =>
    simp only [exec] at hr
    split at hr
    all_goals
      next m' heq =>
        rw [heq] at halloc
        obtain rfl := Option.some.inj hr
        exact ⟨hsame _ halloc, trivial⟩
  | malloc =>
    obtain rfl := Option.some.inj hr
    exact ⟨hsame _ halloc, trivial⟩
  | getNode p =>
    obtain ⟨node, -, rfl⟩ := Option.map_eq_some_iff.mp hr
    exact ⟨hsame m rfl, trivial⟩
  | getRecord p =>
    obtain ⟨record, -, rfl⟩ := Option.map_eq_some_iff.mp hr
    exact ⟨hsame m rfl, trivial⟩
  | setNode p node =>
    simp only [exec, Option.ite_none_right_eq_some, Option.some.injEq] at hr
    obtain ⟨-, rfl⟩ := hr
    exact ⟨hsame _ rfl, trivial⟩
  | undefined => cases hr
  | countNodes | getRoot | setRoot _ | getTable | setTable _ =>
    obtain rfl := Option.some.inj hr
    exact ⟨hsame _ rfl, trivial⟩

/-- A step of code that spares the first records does so, and so does the rest. -/
theorem Prog.Spares.step {α : Type} {n : Nat} {p p' : Prog α} {m m' : Memory} (hp : p.Spares n)
    (hn : n ≤ m.records.length) (hstep : p.step exec m = some (p', m')) :
    p'.Spares n ∧ SameRecords n m m' := by
  obtain ⟨o, r, ho, hr, rfl, hrest⟩ := Program.Obeys.step hp hstep
  obtain ⟨hsame, hbeyond⟩ := exec_of_spares ho hn hr
  exact ⟨hrest hbeyond, hsame⟩

section Spares

variable {α β : Type} {n : Nat}

/-- What works on the index only spares the records, and so does what only reads. -/
theorem Prog.OnIndex.spares {p : Prog α} (hp : p.OnIndex) : p.Spares n :=
  hp.obeys fun o ho => by cases o <;> trivial

theorem Prog.ReadOnly.spares {p : Prog α} (hp : p.ReadOnly) : p.Spares n :=
  hp.obeys fun o ho => by cases o <;> trivial

/-- Any result will do for the rest. -/
private theorem Prog.Spares.andThen {p : Prog α} {f : α → Prog β} (hp : p.Spares n)
    (hf : ∀ a, (f a).Spares n) : Prog.Spares n (p >>= f) := hp.bind fun a _ => hf a

private theorem spares_pure (a : α) : Prog.Spares n (pure a) := Program.obeys_pure trivial

private theorem spares_setTable (table : Table) : (setTable table).Spares n :=
  ⟨trivial, fun _ _ => trivial⟩

/-- The row array is no record. -/
theorem spares_tableEnsureCapacity : tableEnsureCapacity.Spares n := by
  refine readOnly_getTable.spares.andThen fun table => ?_
  split
  · exact spares_pure _
  · refine readOnly_malloc.spares.andThen fun ok => ?_
    cases ok with
    | true => exact (spares_setTable _).andThen fun _ => spares_pure _
    | false => exact spares_pure _

/-- `table_insert` fills in the record it allocated, and frees no other. -/
theorem spares_tableInsert (name : List UInt8) (age : Int) : (tableInsert name age).Spares n := by
  refine spares_tableEnsureCapacity.andThen fun ok => ?_
  cases ok with
  | false => exact spares_pure _
  | true =>
    refine Program.Obeys.bind (Program.obeys_perform trivial) fun found hfound => ?_
    cases found with
    | none => exact spares_pure _
    | some record =>
      -- the new record lies behind every record that was there
      have hrecord : n ≤ record := hfound record rfl
      refine readOnly_getTable.spares.andThen fun table => (spares_setTable _).andThen fun _ => ?_
      have hset : (setRecord record (newRecord table.nextId name age)).Spares n :=
        ⟨hrecord, fun _ _ => trivial⟩
      refine hset.andThen fun _ => readOnly_getTable.spares.andThen fun table' => ?_
      split
      · refine (spares_setTable _).andThen fun _ => ?_
        refine (onIndex_bptreeInsert _ _).spares.andThen fun inserted => ?_
        cases inserted with
        | true =>
          exact readOnly_getTable.spares.andThen fun _ =>
            (spares_setTable _).andThen fun _ => spares_pure _
        | false =>
          have hfree : (freeRecord record).Spares n := ⟨hrecord, fun _ _ => trivial⟩
          exact hfree.andThen fun _ => spares_pure _
      · exact readOnly_undefined.spares

/-- No statement writes or frees a record that was there before it. -/
theorem spares_sqlExecute (input : Cursor) : (sqlExecute input).Spares n := by
  rw [sqlExecute_eq]
  cases hparse : sqlParse input with
  | error result => exact spares_pure result
  | ok statement =>
    cases statement with
    | select query => exact (readOnly_select query).spares
    | insert name age =>
      refine (spares_tableInsert name age).andThen fun inserted => ?_
      cases inserted with
      | none => exact spares_pure _
      | some record => exact (readOnly_getRecord record).spares.andThen fun _ => spares_pure _

end Spares

/-! ## The array of a result -/

/-- Every array that is asked for is refused. -/
def Op.Refused : (o : Op) → Op.Ans o → Prop
  | .malloc, ok => ok = false
  | _, _ => True

/-- On every path without an array of its own the code returns one of these. -/
abbrev Prog.Bare {α : Type} (Q : α → Prop) (p : Prog α) : Prop :=
  Program.Obeys (fun _ => True) Op.Refused Q p

section Bare

variable {α β : Type}

/-- What only reads works also without memory. -/
private theorem Prog.ReadOnly.bare {p : Prog α} (hp : p.ReadOnly) : p.Bare fun _ => True :=
  hp.obeys fun _ _ => trivial

private theorem bare_pure {Q : α → Prop} {a : α} (ha : Q a) : Prog.Bare Q (pure a) :=
  Program.obeys_pure ha

private theorem bare_undefined {Q : α → Prop} : (undefined : Prog α).Bare Q :=
  ⟨trivial, fun a => a.elim⟩

/-- Without memory `malloc` is refused. -/
private theorem bare_malloc : malloc.Bare fun ok => ok = false :=
  ⟨trivial, fun _ hok => hok⟩

/-- `*records = NULL`, `*count = 0`. -/
def ResultArray.null : ResultArray := ⟨[], 0⟩

/-- Nothing was put into the array. -/
def StaysNull (r : Option ResultArray) : Prop := ∀ a, r = some a → a = .null

/-- There are no rows. -/
def NoRows (r : Option (List RecPtr)) : Prop := ∀ records, r = some records → records = []

/-- An array that stays empty holds no rows. -/
private theorem StaysNull.noRows {r : Option ResultArray} (h : StaysNull r) :
    NoRows (r.map ResultArray.records) := by
  intro records hrecords
  obtain ⟨a, ha, rfl⟩ := Option.map_eq_some_iff.mp hrecords
  rw [h a ha]
  rfl

private theorem staysNull_none : StaysNull none := nofun

private theorem staysNull_null : StaysNull (some .null) := fun _ h => (Option.some.inj h).symm

/-- Without memory nothing is appended. -/
theorem bare_tableAppendRecord (record : RecPtr) :
    (tableAppendRecord .null record).Bare fun r => r = none := by
  unfold tableAppendRecord
  rw [if_neg (by decide)]
  refine bare_malloc.bind fun ok hok => ?_
  obtain rfl : ok = false := hok
  exact bare_pure rfl

/-- To append the first row needs memory, so nothing comes behind it. -/
private theorem bare_append {Q : Option β → Prop} (hQ : Q none) (record : RecPtr)
    (next : ResultArray → Prog (Option β)) : Prog.Bare Q (do
      match ← tableAppendRecord .null record with
      | none => pure none
      | some a => next a) := by
  refine (bare_tableAppendRecord record).bind fun appended happended => ?_
  obtain rfl : appended = none := happended
  exact bare_pure hQ

/-- The array of a copy is refused too. -/
theorem bare_tableCopyRecords (source : List (Option RecPtr)) (sourceCount : Nat) :
    (tableCopyRecords source sourceCount).Bare NoRows := by
  unfold tableCopyRecords
  split
  · exact bare_pure fun _ h => (Option.some.inj h).symm
  · refine bare_malloc.bind fun ok hok => ?_
    obtain rfl : ok = false := hok
    exact bare_pure nofun

/-- The scans find nothing, or fail at the first row they find. -/
theorem bare_tableCollect (p : Record → Bool) (fuel index : Nat) :
    (tableCollect p fuel index .null).Bare StaysNull := by
  -- the induction is on the fuel: the array stays NULL until the first match
  induction fuel generalizing index with
  | zero => exact bare_undefined
  | succ fuel ih =>
    unfold tableCollect
    refine readOnly_getTable.bare.bind fun table _ => ?_
    split
    · refine (readOnly_deref _).bare.bind fun row _ => ?_
      refine (readOnly_getRecord row).bare.bind fun record _ => ?_
      split
      · exact bare_append staysNull_none row _
      · exact ih _
    · exact bare_pure staysNull_null

theorem bare_tableAppendValues (values : List (Option RecPtr)) :
    (tableAppendValues .null values).Bare StaysNull := by
  cases values with
  | nil => exact bare_pure staysNull_null
  | cons value rest =>
    exact (readOnly_deref value).bare.bind fun record _ => bare_append staysNull_none record _

/-- So do the walks along the leaves. -/
theorem bare_tableCollectLeafChain (fuel : Nat) (leaf : Option NodePtr) (startIndex : Nat) :
    (tableCollectLeafChain fuel leaf startIndex .null).Bare StaysNull := by
  -- the induction is on the fuel: the array stays NULL from leaf to leaf
  induction fuel generalizing leaf startIndex with
  | zero => cases leaf <;> first | exact bare_pure staysNull_null | exact bare_undefined
  | succ fuel ih =>
    cases leaf with
    | none => exact bare_pure staysNull_null
    | some leaf =>
      unfold tableCollectLeafChain
      refine (readOnly_getNode leaf).bare.bind fun n _ => ?_
      refine (bare_tableAppendValues _).bind fun appended happended => ?_
      cases appended with
      | none => exact bare_pure staysNull_none
      | some a =>
        obtain rfl := happended a rfl
        exact ih n.next 0

theorem bare_tableAppendWhile (comparison : TableComparison) (id : Int)
    (pairs : List (Int × Option RecPtr)) :
    (tableAppendWhile comparison id .null pairs).Bare fun r =>
      ∀ ended a, r = some (ended, a) → a = .null := by
  cases pairs with
  | nil =>
    refine bare_pure fun ended a h => ?_
    exact (Prod.mk.inj (Option.some.inj h)).2.symm
  | cons pair rest =>
    unfold tableAppendWhile
    split
    · -- a match asks for the array at once
      refine (readOnly_deref _).bare.bind fun record _ => bare_append ?_ record _
      rintro ended a ⟨⟩
    · refine bare_pure fun ended a h => ?_
      exact (Prod.mk.inj (Option.some.inj h)).2.symm

theorem bare_tableCollectWhile (comparison : TableComparison) (id : Int) (fuel : Nat)
    (leaf : Option NodePtr) : (tableCollectWhile comparison id fuel leaf .null).Bare StaysNull := by
  -- the induction is on the fuel: the array stays NULL from leaf to leaf
  induction fuel generalizing leaf with
  | zero => cases leaf <;> first | exact bare_pure staysNull_null | exact bare_undefined
  | succ fuel ih =>
    cases leaf with
    | none => exact bare_pure staysNull_null
    | some leaf =>
      unfold tableCollectWhile
      refine (readOnly_getNode leaf).bare.bind fun n _ => ?_
      refine (bare_tableAppendWhile comparison id _).bind fun appended happended => ?_
      cases appended with
      | none => exact bare_pure staysNull_none
      | some pair =>
        obtain ⟨ended, a⟩ := pair
        obtain rfl := happended ended a rfl
        cases ended with
        | true => exact bare_pure staysNull_null
        | false => exact ih n.next

theorem bare_tableCollectFrom (id : Int)
    {skip : Nat → Option NodePtr → Nat → Prog (Option (NodePtr × Nat))}
    (hskip : ∀ fuel leaf index, (skip fuel leaf index).ReadOnly) :
    (tableCollectFrom id skip).Bare StaysNull := by
  refine (readOnly_tableDescendFromRoot _).bare.bind fun leaf _ => ?_
  cases leaf with
  | none => exact bare_pure staysNull_null
  | some leaf =>
    refine (readOnly_getNode leaf).bare.bind fun n _ => ?_
    refine readOnly_countNodes.bare.bind fun fuel _ => ?_
    refine (hskip _ _ _).bare.bind fun start _ => ?_
    cases start with
    | none => exact bare_pure staysNull_null
    | some start => exact bare_tableCollectLeafChain _ _ _

/-- So a SELECT without memory has no rows. -/
theorem bare_tableFindByIdCondition (comparison : TableComparison) (id : Int) :
    (tableFindByIdCondition comparison id).Bare NoRows := by
  have hupTo : (tableCollectUpTo comparison id).Bare StaysNull :=
    (readOnly_tableDescendFromRoot _).bare.bind fun _ _ =>
      readOnly_countNodes.bare.bind fun _ _ => bare_tableCollectWhile comparison id _ _
  unfold tableFindByIdCondition
  refine Program.Obeys.map (Q := StaysNull) ?_ fun r hr => hr.noRows
  -- equality goes through the search, the other four through the leaves
  cases comparison with
  | eq =>
    refine (readOnly_bptreeSearch id).bare.bind fun found _ => ?_
    cases found with
    | none => exact bare_pure staysNull_null
    | some record =>
      refine (bare_tableAppendRecord record).imp ?_
      rintro _ rfl
      exact staysNull_none
  | gt => exact bare_tableCollectFrom id (readOnly_tableSkipGt id)
  | ge => exact bare_tableCollectFrom id readOnly_tableSkipGe
  | lt => exact hupTo
  | le => exact hupTo

/-- A SELECT that returns rows has an array of its own for them. -/
theorem bare_select (query : SqlSelect) : query.exec.Bare fun result => result.records = [] := by
  have hresult : ∀ empty (found : Option (List RecPtr)), NoRows found →
      (sqlSelectResult empty found).records = [] := by
    intro empty found hfound
    cases found with
    | none => rfl
    | some records => exact hfound records rfl
  -- both linear scans are the same loop
  have hmatches : ∀ p, (tableCollectMatches p).Bare NoRows := fun p =>
    readOnly_getTable.bare.bind fun table _ =>
      Program.Obeys.map (bare_tableCollect p _ 0) fun r hr => hr.noRows
  cases query with
  | all =>
    refine Program.Obeys.map (Q := NoRows) ?_ (hresult _)
    exact readOnly_getTable.bare.bind fun table _ => bare_tableCopyRecords _ _
  | byId comparison id =>
    exact Program.Obeys.map (bare_tableFindByIdCondition comparison id) (hresult _)
  | byName name => exact Program.Obeys.map (hmatches _) (hresult _)
  | byAge comparison age => exact Program.Obeys.map (hmatches _) (hresult _)

/-- So does any text without an INSERT. -/
theorem bare_sqlExecute {input : Cursor}
    (hinsert : ∀ name age, sqlParse input ≠ .ok (.insert name age)) :
    (sqlExecute input).Bare fun result => result.records = [] := by
  rw [sqlExecute_eq]
  cases hparse : sqlParse input with
  | error result => exact bare_pure (sqlParse_error_noRows hparse).2.1
  | ok statement =>
    cases statement with
    | insert name age => exact absurd hparse (hinsert name age)
    | select query => exact bare_select query

end Bare

end SqlApi.Core

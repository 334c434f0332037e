import SqlApi.Lib.Program

/-!
# The memory of one database

The C structures behind one table, and the operations the code performs on
them. Heap objects live in lists and a pointer is an index; `NULL` is `none`.

- `nodes` are the `BPTreeNode`s of the index. Nothing in the code below frees
  one before the whole table is destroyed.
- `records` are the `Record`s; a freed record leaves `none` behind, so a
  dangling pointer can be told from a live one.
- `allocs` decides the allocations: its head answers the next one, and when it
  is empty every allocation succeeds.

A program step with no defined behaviour in C (a `NULL` or dangling
dereference, a read of a slot never written, a walk that never ends) has no
result.
-/

namespace SqlApi.Core

open SqlApi.Lib

/-! ## Data structures -/

/-- A `BPTreeNode *` that is not `NULL`. -/
abbrev NodePtr := Nat

/-- A `Record *` that is not `NULL`. -/
abbrev RecPtr := Nat

/-- `BPTREE_ORDER` -/
abbrev bptreeOrder : Nat := 4

/-- `BPTREE_MAX_KEYS` -/
abbrev bptreeMaxKeys : Nat := bptreeOrder - 1

/-- `RECORD_NAME_SIZE` -/
abbrev recordNameSize : Nat := 64

/-- `struct BPTreeNode`. Slots at or past `numKeys` (`numKeys + 1` for children)
hold whatever was last written there. -/
structure BPTreeNode where
  isLeaf : Bool
  numKeys : Nat
  keys : Vector Int bptreeMaxKeys
  values : Vector (Option RecPtr) bptreeMaxKeys
  children : Vector (Option NodePtr) bptreeOrder
  parent : Option NodePtr
  next : Option NodePtr
  deriving DecidableEq, Repr

/-- A node as `calloc` returns it. -/
def BPTreeNode.zero : BPTreeNode where
  isLeaf := false
  numKeys := 0
  keys := Vector.replicate _ 0
  values := Vector.replicate _ none
  children := Vector.replicate _ none
  parent := none
  next := none

/-- `struct Record`; `name` is the whole `char` array. -/
structure Record where
  id : Int
  name : List UInt8
  age : Int
  deriving DecidableEq, Repr

/-- A record as `calloc` returns it. -/
def Record.zero : Record := ⟨0, List.replicate recordNameSize 0, 0⟩

/-- `struct Table` without the index. `rows` are the slots of the allocated row
array, `none` where nothing was written yet. -/
structure Table where
  nextId : Int
  rows : List (Option RecPtr)
  size : Nat
  capacity : Nat
  deriving DecidableEq, Repr

/-- Everything one table owns; `root` is `pk_index->root`. -/
structure Memory where
  nodes : List BPTreeNode
  root : Option NodePtr
  records : List (Option Record)
  table : Table
  allocs : List Bool
  deriving DecidableEq, Repr

namespace Memory

/-- Ask for memory: whether the next allocation succeeds. -/
def takeAlloc (m : Memory) : Bool × Memory :=
  match m.allocs with
  | [] => (true, m)
  | ok :: rest => (ok, { m with allocs := rest })

/-- The record behind a pointer, unless it was freed or never allocated. -/
def record? (m : Memory) (p : RecPtr) : Option Record := m.records[p]?.join

theorem lt_of_record? {m : Memory} {p : RecPtr} {r : Record} (h : m.record? p = some r) :
    p < m.records.length := by
  unfold record? at h
  refine Decidable.byContradiction fun hlt => ?_
  rw [List.getElem?_eq_none (Nat.le_of_not_lt hlt)] at h
  cases h

/-- Overwrite a node. -/
def setNode (m : Memory) (p : NodePtr) (n : BPTreeNode) : Memory :=
  { m with nodes := m.nodes.set p n }

/-- Add a node; its address is the number of nodes before. -/
def pushNode (m : Memory) (n : BPTreeNode) : Memory :=
  { m with nodes := m.nodes ++ [n] }

/-- The next `k` allocations succeed. -/
def Granted (m : Memory) (k : Nat) : Prop := ∀ ok ∈ m.allocs.take k, ok = true

/-- No allocation fails from here on. -/
def NoFailure (m : Memory) : Prop := m.allocs = []

theorem NoFailure.granted {m : Memory} (hm : m.NoFailure) (k : Nat) : m.Granted k := by
  simp [Granted, show m.allocs = [] from hm]

/-- An allocation uses up one answer and touches nothing else. -/
theorem takeAlloc_snd (m : Memory) : m.takeAlloc.2 = { m with allocs := m.allocs.drop 1 } := by
  obtain ⟨nodes, root, records, table, allocs⟩ := m
  cases allocs <;> rfl

/-- A granted allocation succeeds. -/
theorem Granted.takeAlloc {m : Memory} {k : Nat} (hm : m.Granted (k + 1)) :
    m.takeAlloc = (true, { m with allocs := m.allocs.drop 1 }) := by
  obtain ⟨nodes, root, records, table, allocs⟩ := m
  cases allocs with
  | nil => rfl
  | cons ok rest =>
    obtain rfl : ok = true := hm ok (by simp)
    rfl

theorem Granted.mono {m : Memory} {j k : Nat} (hm : m.Granted k) (hjk : j ≤ k) : m.Granted j :=
  fun ok hok => hm ok (List.take_subset_take_left _ hjk hok)

/-- One more allocation is granted unless it is the one that fails. -/
theorem granted_succ_iff {m : Memory} {k : Nat} :
    m.Granted (k + 1) ↔ m.Granted k ∧ m.allocs[k]? ≠ some false := by
  unfold Granted
  rw [List.take_add_one]
  constructor
  · intro h
    refine ⟨fun ok hok => h ok (List.mem_append_left _ hok), fun hk => ?_⟩
    have := h false (List.mem_append_right _ (by simp [hk]))
    cases this
  · rintro ⟨hk, hne⟩ ok hok
    rcases List.mem_append.mp hok with hok | hok
    · exact hk ok hok
    · cases hok' : m.allocs[k]? with
      | none => simp [hok'] at hok
      | some b =>
        obtain rfl : ok = b := by simpa [hok'] using hok
        cases ok with
        | true => rfl
        | false => exact absurd hok' hne

/-- An allocation that fails. -/
theorem takeAlloc_of_head {m : Memory} (h : m.allocs[0]? = some false) :
    m.takeAlloc = (false, { m with allocs := m.allocs.drop 1 }) := by
  obtain ⟨nodes, root, records, table, allocs⟩ := m
  cases allocs with
  | nil => cases h
  | cons ok rest =>
    obtain rfl : ok = false := Option.some.inj h
    rfl

/-- What is left after some of the granted allocations is granted. -/
theorem Granted.drop {m m' : Memory} {j k : Nat} (hm : m.Granted (j + k))
    (hm' : m'.allocs = m.allocs.drop j) : m'.Granted k := by
  intro ok hok
  rw [hm', List.take_drop] at hok
  exact hm ok (List.mem_of_mem_drop hok)

end Memory

/-! ## Operations -/

/-- The operations of the code on the memory. -/
inductive Op where
  | getNode (p : NodePtr)
  | setNode (p : NodePtr) (n : BPTreeNode)
  | callocNode
  /-- How many nodes are allocated: the bound on every walk. -/
  | countNodes
  | getRoot
  | setRoot (root : Option NodePtr)
  | getRecord (p : RecPtr)
  | setRecord (p : RecPtr) (r : Record)
  | callocRecord
  | freeRecord (p : RecPtr)
  | getTable
  | setTable (t : Table)
  /-- `malloc` or `realloc` of an array only the caller sees: did it succeed. -/
  | malloc
  /-- Undefined behaviour. -/
  | undefined

/-- The answer of each operation. -/
abbrev Op.Ans : Op → Type
  | .getNode _ => BPTreeNode
  | .callocNode => Option NodePtr
  | .countNodes => Nat
  | .getRoot => Option NodePtr
  | .getRecord _ => Record
  | .callocRecord => Option RecPtr
  | .getTable => Table
  | .malloc => Bool
  | .undefined => Empty
  | .setNode .. | .setRoot _ | .setRecord .. | .freeRecord _ | .setTable _ => Unit

/-- The effect of each operation on the memory. -/
def exec : Handler Op Op.Ans Memory
  | .getNode p, m => m.nodes[p]?.map fun n => (n, m)
  -- a pointer that names no block has no behaviour
  | .setNode p n, m => if p < m.nodes.length then some ((), m.setNode p n) else none
  -- a block is appended, zeroed; the list of answers says which allocations fail
  | .callocNode, m =>
    match m.takeAlloc with
    | (true, m') => some (some m'.nodes.length, m'.pushNode .zero)
    | (false, m') => some (none, m')
  | .countNodes, m => some (m.nodes.length, m)
  | .getRoot, m => some (m.root, m)
  | .setRoot root, m => some ((), { m with root })
  | .getRecord p, m => (m.record? p).map fun r => (r, m)
  | .setRecord p r, m =>
    if (m.record? p).isSome then some ((), { m with records := m.records.set p (some r) })
    else none
  | .callocRecord, m =>
    match m.takeAlloc with
    | (true, m') =>
      some (some m'.records.length, { m' with records := m'.records ++ [some .zero] })
    | (false, m') => some (none, m')
  -- a freed block is never live again, and a second free has no behaviour
  | .freeRecord p, m =>
    if (m.record? p).isSome then some ((), { m with records := m.records.set p none }) else none
  | .getTable, m => some (m.table, m)
  | .setTable t, m => some ((), { m with table := t })
  | .malloc, m => some m.takeAlloc
  | .undefined, _ => none

/-- Code that works on the memory. -/
abbrev Prog (α : Type) := Program Op Op.Ans α

/-- Run code on its own: its value and the memory after it. -/
abbrev Prog.run {α : Type} (p : Prog α) (m : Memory) : Option (α × Memory) :=
  Program.run exec p m

section Operations

variable {α : Type}

/-- A single operation on the memory. -/
def perform (o : Op) : Prog (Op.Ans o) := Program.perform o

def getNode (p : NodePtr) : Prog BPTreeNode := perform (Op.getNode p)
def setNode (p : NodePtr) (n : BPTreeNode) : Prog Unit := perform (Op.setNode p n)
def callocNode : Prog (Option NodePtr) := perform Op.callocNode
def countNodes : Prog Nat := perform Op.countNodes
def getRoot : Prog (Option NodePtr) := perform Op.getRoot
def setRoot (root : Option NodePtr) : Prog Unit := perform (Op.setRoot root)
def getRecord (p : RecPtr) : Prog Record := perform (Op.getRecord p)
def setRecord (p : RecPtr) (r : Record) : Prog Unit := perform (Op.setRecord p r)
def callocRecord : Prog (Option RecPtr) := perform Op.callocRecord
def freeRecord (p : RecPtr) : Prog Unit := perform (Op.freeRecord p)
def getTable : Prog Table := perform Op.getTable
def setTable (t : Table) : Prog Unit := perform (Op.setTable t)
def malloc : Prog Bool := perform Op.malloc

/-- Undefined behaviour: no result. -/
def undefined : Prog α := Program.call Op.undefined Empty.elim

/-- Dereference: `NULL` has no object behind it. -/
def deref {β : Type} : Option β → Prog β
  | none => undefined
  | some p => pure p

/-- Assign to fields of a node. -/
def modifyNode (p : NodePtr) (f : BPTreeNode → BPTreeNode) : Prog Unit := do
  let n ← getNode p
  setNode p (f n)

end Operations

/-! ## What each operation does in a run -/

section Run

variable {α : Type} (m : Memory)

@[simp] theorem run_getNode (p : NodePtr) :
    (getNode p).run m = m.nodes[p]?.map fun n => (n, m) :=
  Program.run_perform exec (.getNode p) m

@[simp] theorem run_setNode (p : NodePtr) (n : BPTreeNode) :
    (setNode p n).run m = if p < m.nodes.length then some ((), m.setNode p n) else none :=
  Program.run_perform exec (.setNode p n) m

@[simp] theorem run_countNodes : countNodes.run m = some (m.nodes.length, m) :=
  Program.run_perform exec .countNodes m

@[simp] theorem run_getRoot : getRoot.run m = some (m.root, m) :=
  Program.run_perform exec .getRoot m

@[simp] theorem run_setRoot (root : Option NodePtr) :
    (setRoot root).run m = some ((), { m with root }) :=
  Program.run_perform exec (.setRoot root) m

@[simp] theorem run_getRecord (p : RecPtr) :
    (getRecord p).run m = (m.record? p).map fun r => (r, m) :=
  Program.run_perform exec (.getRecord p) m

@[simp] theorem run_setRecord (p : RecPtr) (r : Record) :
    (setRecord p r).run m = if (m.record? p).isSome then
      some ((), { m with records := m.records.set p (some r) }) else none :=
  Program.run_perform exec (.setRecord p r) m

@[simp] theorem run_freeRecord (p : RecPtr) :
    (freeRecord p).run m = if (m.record? p).isSome then
      some ((), { m with records := m.records.set p none }) else none :=
  Program.run_perform exec (.freeRecord p) m

@[simp] theorem run_getTable : getTable.run m = some (m.table, m) :=
  Program.run_perform exec .getTable m

@[simp] theorem run_setTable (t : Table) :
    (setTable t).run m = some ((), { m with table := t }) :=
  Program.run_perform exec (.setTable t) m

@[simp] theorem run_malloc : malloc.run m = some m.takeAlloc :=
  Program.run_perform exec .malloc m

@[simp] theorem run_undefined : (undefined : Prog α).run m = none := rfl

@[simp] theorem run_deref_some (p : Nat) : (deref (some p)).run m = some (p, m) := rfl

theorem run_callocNode : callocNode.run m = match m.takeAlloc with
    | (true, m') => some (some m'.nodes.length, m'.pushNode .zero)
    | (false, m') => some (none, m') := by
  rw [callocNode, Prog.run, perform, Program.run_perform, exec]

theorem run_callocRecord : callocRecord.run m = match m.takeAlloc with
    | (true, m') =>
      some (some m'.records.length, { m' with records := m'.records ++ [some .zero] })
    | (false, m') => some (none, m') := by
  rw [callocRecord, Prog.run, perform, Program.run_perform, exec]

/-- The run of a sequence whose first part is known. -/
theorem run_bind_of {β : Type} {p : Prog α} {m m' : Memory} {a : α}
    (hp : p.run m = some (a, m')) (f : α → Prog β) : Prog.run (p >>= f) m = (f a).run m' :=
  Program.run_bind_of_eq hp f

theorem run_map_of {β : Type} {p : Prog α} {m m' : Memory} {a : α}
    (hp : p.run m = some (a, m')) (f : α → β) : Prog.run (f <$> p) m = some (f a, m') := by
  have hp' : Program.run exec p m = some (a, m') := hp
  rw [Prog.run, Program.run_map, hp', Option.map_some]

theorem run_getNode_of {p : NodePtr} {n : BPTreeNode} (hn : m.nodes[p]? = some n) :
    (getNode p).run m = some (n, m) := by
  rw [run_getNode, hn, Option.map_some]

theorem run_setNode_of {p : NodePtr} (hp : p < m.nodes.length) (n : BPTreeNode) :
    (setNode p n).run m = some ((), m.setNode p n) := by
  rw [run_setNode, if_pos hp]

/-- Once no allocation fails, none ever will. -/
theorem Memory.NoFailure.run {p : Prog α} {m m' : Memory} {a : α} (hm : m.NoFailure)
    (hrun : p.run m = some (a, m')) : m'.NoFailure := by
  have hexec : ∀ (o : Op) (m : Memory) (r : Op.Ans o × Memory), m.NoFailure →
      exec o m = some r → r.2.NoFailure := by
    intro o m r hm hr
    have hm' : m.allocs = [] := hm
    unfold Memory.NoFailure
    cases o <;> simp only [exec, Memory.takeAlloc, hm', Option.map_eq_some_iff,
      Option.ite_none_right_eq_some, Option.some.injEq, reduceCtorEq] at hr
    case getNode p => obtain ⟨n, -, rfl⟩ := hr; exact hm
    case getRecord p => obtain ⟨n, -, rfl⟩ := hr; exact hm
    case setNode p n => obtain ⟨-, rfl⟩ := hr; exact hm
    case setRecord p n => obtain ⟨-, rfl⟩ := hr; rfl
    case freeRecord p => obtain ⟨-, rfl⟩ := hr; rfl
    all_goals
      subst hr
      first | exact hm | rfl
  induction p generalizing m with
  | ret b =>
    obtain ⟨rfl, rfl⟩ : b = a ∧ m = m' := by simpa [Prog.run] using hrun
    exact hm
  | call o k ih =>
    rw [Prog.run, Program.run_call, Option.bind_eq_some_iff] at hrun
    obtain ⟨r, hr, hrest⟩ := hrun
    exact ih r.1 (hexec o m r hm hr) hrest

theorem Memory.NoFailure.step {p p' : Prog α} {m m' : Memory} (hm : m.NoFailure)
    (hstep : p.step exec m = some (p', m')) : m'.NoFailure := by
  cases p with
  | ret a => cases hstep
  | call o k =>
    obtain ⟨r, hr, heq⟩ := Option.map_eq_some_iff.mp hstep
    obtain ⟨-, rfl⟩ := Prod.mk.inj heq
    exact hm.run ((Program.run_perform exec o m).trans hr)

/-- Assigning to fields of a node that is there. -/
theorem run_modifyNode {p : NodePtr} {n : BPTreeNode} (hn : m.nodes[p]? = some n)
    (f : BPTreeNode → BPTreeNode) : (modifyNode p f).run m = some ((), m.setNode p (f n)) := by
  obtain ⟨hp, rfl⟩ := List.getElem?_eq_some_iff.mp hn
  simp [modifyNode, hp]

end Run

end SqlApi.Core

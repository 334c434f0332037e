import SqlApi.Core.TableQueries

/-!
# `table_destroy`

What the code that frees a table does to its blocks. The contents of the memory stay
what they are; `Blocks` says which blocks have been freed. Reading a freed block and
freeing a block twice have no defined behaviour.

After any insertions `table_destroy` runs to its end and frees every node and every
live record exactly once: the index reaches all of its nodes, and the rows all records.
-/

namespace SqlApi.Core

open SqlApi.Lib

/-! ## Blocks -/

/-- The memory of a table and the blocks of it that were freed, oldest first. -/
structure Blocks where
  memory : Memory
  nodes : List NodePtr
  records : List RecPtr
  rows : Bool
  index : Bool
  table : Bool

/-- Nothing is freed yet. -/
def Memory.blocks (m : Memory) : Blocks := ⟨m, [], [], false, false, false⟩

/-- The operations of the code that frees a table. -/
inductive FreeOp where
  | getNode (p : NodePtr)
  | freeNode (p : NodePtr)
  /-- How many nodes were allocated: the bound on the recursion. -/
  | countNodes
  /-- `tree->root` -/
  | getRoot
  /-- `table->size` -/
  | getSize
  /-- `table->rows[index]` -/
  | getRow (index : Nat)
  | freeRecord (p : RecPtr)
  /-- `free(table->rows)` -/
  | freeRows
  /-- `free(tree)` -/
  | freeIndex
  | freeTable
  /-- Undefined behaviour. -/
  | undefined

/-- The answer of each operation. -/
abbrev FreeOp.Ans : FreeOp → Type
  | .getNode _ => BPTreeNode
  | .countNodes | .getSize => Nat
  | .getRoot => Option NodePtr
  | .getRow _ => Option RecPtr
  | .undefined => Empty
  | .freeNode _ | .freeRecord _ | .freeRows | .freeIndex | .freeTable => Unit

/-- The effect of each operation on the blocks. -/
def execFree : Handler FreeOp FreeOp.Ans Blocks
  | .getNode p, b =>
    if p ∈ b.nodes then none else b.memory.nodes[p]?.map fun n => (n, b)
  | .freeNode p, b =>
    if p < b.memory.nodes.length ∧ p ∉ b.nodes then some ((), { b with nodes := b.nodes ++ [p] })
    else none
  | .countNodes, b => some (b.memory.nodes.length, b)
  | .getRoot, b => if b.table || b.index then none else some (b.memory.root, b)
  | .getSize, b => if b.table then none else some (b.memory.table.size, b)
  | .getRow index, b =>
    if b.table || b.rows then none else b.memory.table.rows[index]?.map fun slot => (slot, b)
  | .freeRecord p, b =>
    if (b.memory.record? p).isSome ∧ p ∉ b.records then
      some ((), { b with records := b.records ++ [p] })
    else none
  | .freeRows, b => if b.table || b.rows then none else some ((), { b with rows := true })
  | .freeIndex, b => if b.index then none else some ((), { b with index := true })
  | .freeTable, b => if b.table then none else some ((), { b with table := true })
  | .undefined, _ => none

/-- Code that frees a table. -/
abbrev FreeProg (α : Type) := Program FreeOp FreeOp.Ans α

/-- Run it on its own. -/
abbrev FreeProg.run {α : Type} (p : FreeProg α) (b : Blocks) : Option (α × Blocks) :=
  Program.run execFree p b

namespace FreeProg

/-- A single operation. -/
def perform (o : FreeOp) : FreeProg o.Ans := Program.perform o

/-- Undefined behaviour: no result. -/
def undefined {α : Type} : FreeProg α := Program.call FreeOp.undefined Empty.elim

end FreeProg

/-! ## The code -/

/-- `for (index = 0; index <= node->num_keys; index++) bptree_destroy_node(node->children[index]);`
with the recursive call as a parameter. -/
def bptreeDestroyChildren (destroyNode : Option NodePtr → FreeProg Unit) (node : NodePtr) :
    (rounds : Nat) → (index : Nat) → FreeProg Unit
  | 0, _ => FreeProg.undefined
  | rounds + 1, index => do
    let n ← FreeProg.perform (.getNode node)
    -- the bound is read again in each round, from a node that must still be there
    if index ≤ n.numKeys then
      let n ← FreeProg.perform (.getNode node)
      destroyNode n.children[index]!
      bptreeDestroyChildren destroyNode node rounds (index + 1)
    else pure ()

/-- `bptree_destroy_node` -/
def bptreeDestroyNode : (fuel : Nat) → Option NodePtr → FreeProg Unit
  | _, none => pure ()
  | 0, some _ => FreeProg.undefined
  | fuel + 1, some node => do
    let n ← FreeProg.perform (.getNode node)
    if !n.isLeaf then
      bptreeDestroyChildren (bptreeDestroyNode fuel) node (bptreeOrder + 1) 0
    FreeProg.perform (.freeNode node)

/-- `bptree_destroy` -/
def bptreeDestroy : FreeProg Unit := do
  let root ← FreeProg.perform .getRoot
  let fuel ← FreeProg.perform .countNodes
  bptreeDestroyNode fuel root
  FreeProg.perform .freeIndex

/-- `for (index = 0; index < table->size; index++) free(table->rows[index]);` -/
def tableDestroyRows : (fuel : Nat) → (index : Nat) → FreeProg Unit
  | 0, _ => FreeProg.undefined
  | fuel + 1, index => do
    let size ← FreeProg.perform .getSize
    if index < size then
      match ← FreeProg.perform (.getRow index) with
      | none => FreeProg.undefined
      | some record =>
        FreeProg.perform (.freeRecord record)
        tableDestroyRows fuel (index + 1)
    else pure ()

/-- `table_destroy` -/
def tableDestroy : FreeProg Unit := do
  let size ← FreeProg.perform .getSize
  tableDestroyRows (size + 1) 0
  FreeProg.perform .freeRows
  bptreeDestroy
  FreeProg.perform .freeTable

/-! ## The nodes -/

section Nodes

variable {b : Blocks} {h : Nat} {t : IndexTree h} {parent out : Option NodePtr}

theorem run_freeOp {o : FreeOp} {r : o.Ans × Blocks} (ho : execFree o b = some r) :
    (FreeProg.perform o).run b = some r :=
  (Program.run_perform execFree o b).trans ho

theorem run_freeOp_bind {α : Type} {o : FreeOp} {a : o.Ans} {b' : Blocks}
    (ho : execFree o b = some (a, b')) (f : o.Ans → FreeProg α) :
    FreeProg.run (FreeProg.perform o >>= f) b = (f a).run b' :=
  Program.run_bind_of_eq (run_freeOp ho) f

/-- Blocks with more nodes freed. -/
def Blocks.freeing (b : Blocks) (nodes : List NodePtr) : Blocks :=
  { b with nodes := b.nodes ++ nodes }

theorem Blocks.freeing_freeing (b : Blocks) (xs ys : List NodePtr) :
    (b.freeing xs).freeing ys = b.freeing (xs ++ ys) := by
  simp only [Blocks.freeing, List.append_assoc]

theorem Blocks.notMem_freeing {p : NodePtr} {xs : List NodePtr} :
    p ∉ (b.freeing xs).nodes ↔ p ∉ b.nodes ∧ p ∉ xs := by
  rw [Blocks.freeing, List.mem_append, not_or]

theorem exec_getNode {p : NodePtr} {n : BPTreeNode} (hlive : p ∉ b.nodes)
    (hn : b.memory.nodes[p]? = some n) : execFree (.getNode p) b = some (n, b) := by
  rw [execFree, if_neg hlive, hn, Option.map_some]

theorem exec_freeNode {p : NodePtr} {n : BPTreeNode} (hlive : p ∉ b.nodes)
    (hn : b.memory.nodes[p]? = some n) : execFree (.freeNode p) b = some ((), b.freeing [p]) :=
  if_pos ⟨(List.getElem?_eq_some_iff.mp hn).1, hlive⟩

/-- Freeing subtrees one after another, when freeing each frees its nodes. -/
theorem run_bptreeDestroyChildren {destroyNode : Option NodePtr → FreeProg Unit} {node : NodePtr}
    {n : BPTreeNode} {m : Memory} (hn : m.nodes[node]? = some n) {us : List (IndexTree h)}
    {index rounds : Nat} (hrounds : us.length < rounds) (hcount : index + us.length = n.numKeys + 1)
    (hchildren : ∀ i (hi : i < us.length), n.children[index + i]! = some us[i].addr)
    (hdestroy : ∀ u ∈ us, ∀ b : Blocks, b.memory = m → (∀ p ∈ u.addrs, p ∉ b.nodes) →
      ∃ freed, (destroyNode (some u.addr)).run b = some ((), b.freeing freed) ∧
        freed.Perm u.addrs)
    (hnodup : (us.flatMap Tree.addrs).Nodup) (hnode : node ∉ us.flatMap Tree.addrs)
    (hm : b.memory = m) (hlive : node ∉ b.nodes)
    (hfresh : ∀ p ∈ us.flatMap Tree.addrs, p ∉ b.nodes) :
    ∃ freed, (bptreeDestroyChildren destroyNode node rounds index).run b =
        some ((), b.freeing freed) ∧ freed.Perm (us.flatMap Tree.addrs) := by
  induction us generalizing b rounds index with
  | nil =>
    -- the loop condition fails
    obtain ⟨rounds, rfl⟩ : ∃ r, rounds = r + 1 := ⟨rounds - 1, by omega⟩
    rw [List.length_nil] at hcount
    refine ⟨[], ?_, List.Perm.refl _⟩
    rw [bptreeDestroyChildren, run_freeOp_bind (exec_getNode hlive (hm ▸ hn)),
      if_neg (by omega)]
    simp [Blocks.freeing]
  | cons u us ih =>
    rw [List.flatMap_cons] at hnodup hnode hfresh ⊢
    rw [List.length_cons] at hrounds hcount
    obtain ⟨-, hrest, hdisj⟩ := List.nodup_append.mp hnodup
    obtain ⟨rounds, rfl⟩ : ∃ r, rounds = r + 1 := ⟨rounds - 1, by omega⟩
    obtain ⟨freed, hrun, hfreed⟩ := hdestroy u (List.mem_cons_self ..) b hm
      fun p hp => hfresh p (List.mem_append_left _ hp)
    -- the node is still there, and so are the subtrees that follow
    have hlive' : node ∉ (b.freeing freed).nodes := Blocks.notMem_freeing.mpr
      ⟨hlive, fun hmem => hnode (List.mem_append_left _ (hfreed.mem_iff.mp hmem))⟩
    have hfresh' : ∀ p ∈ us.flatMap Tree.addrs, p ∉ (b.freeing freed).nodes := fun p hp =>
      Blocks.notMem_freeing.mpr ⟨hfresh p (List.mem_append_right _ hp),
        fun hmem => hdisj p (hfreed.mem_iff.mp hmem) p hp rfl⟩
    have hchildren' : ∀ i (hi : i < us.length), n.children[index + 1 + i]! = some us[i].addr := by
      intro i hi
      rw [Nat.add_right_comm, Nat.add_assoc]
      exact hchildren (i + 1) (Nat.succ_lt_succ hi)
    obtain ⟨freed', hrun', hfreed'⟩ := ih (b := b.freeing freed)
      (Nat.lt_of_succ_lt_succ hrounds) (by omega) hchildren'
      (fun v hv => hdestroy v (List.mem_cons_of_mem _ hv)) hrest
      (fun hmem => hnode (List.mem_append_right _ hmem)) hm hlive' hfresh'
    have hchild : n.children[index]! = some u.addr := hchildren 0 (Nat.succ_pos _)
    refine ⟨freed ++ freed', ?_, hfreed.append hfreed'⟩
    rw [bptreeDestroyChildren, run_freeOp_bind (exec_getNode hlive (hm ▸ hn)),
      if_pos (by omega), run_freeOp_bind (exec_getNode hlive (hm ▸ hn)), hchild]
    refine (Program.run_bind_of_eq hrun _).trans ?_
    rw [← Blocks.freeing_freeing]
    exact hrun'

/-- `bptree_destroy_node` frees each node of its subtree once. -/
theorem Rep.run_bptreeDestroyNode {m : Memory} (ht : Rep m.nodes parent out t)
    (hnodup : t.addrs.Nodup) (hm : b.memory = m) (hfresh : ∀ p ∈ t.addrs, p ∉ b.nodes)
    {fuel : Nat} (hfuel : h < fuel) :
    ∃ freed, (bptreeDestroyNode fuel (some t.addr)).run b = some ((), b.freeing freed) ∧
      freed.Perm t.addrs := by
  induction t using Tree.induction generalizing parent out b fuel with
  | hleaf a es =>
    obtain ⟨fuel, rfl⟩ : ∃ f, fuel = f + 1 := ⟨fuel - 1, by omega⟩
    obtain ⟨n, hn, hleaf⟩ := rep_leaf.mp ht
    have hlive : a ∉ b.nodes := hfresh a (by simp)
    refine ⟨[a], ?_, List.Perm.refl _⟩
    rw [Tree.addr_leaf, bptreeDestroyNode, run_freeOp_bind (exec_getNode hlive (hm ▸ hn)),
      if_neg (by simp [hleaf.isLeaf])]
    exact run_freeOp (exec_freeNode hlive (hm ▸ hn))
  | hnode h a c ih =>
    obtain ⟨fuel, rfl⟩ : ∃ f, fuel = f + 1 := ⟨fuel - 1, by omega⟩
    obtain ⟨n, hn, hinner, hkids⟩ := rep_node.mp ht
    rw [Tree.addrs_node] at hnodup hfresh ⊢
    obtain ⟨hnode, hrest⟩ := List.nodup_cons.mp hnodup
    have hlive : a ∉ b.nodes := hfresh a (List.mem_cons_self ..)
    have hlength : c.trees.length = n.numKeys + 1 := by rw [c.length_trees, hinner.numKeys]
    -- the loop visits the children of the chain, which are the used slots
    have hrounds : c.trees.length < bptreeOrder + 1 := by
      have hle := hinner.length_le
      rw [c.length_trees]
      simp only [bptreeMaxKeys, bptreeOrder] at hle ⊢
      omega
    have hchildren : ∀ i (hi : i < c.trees.length), n.children[0 + i]! = some c.trees[i].addr := by
      intro i hi
      have hused : n.children.toList.take (n.numKeys + 1) = _ := hinner.children
      have hget : (n.children.toList.take (n.numKeys + 1))[0 + i]? = some (some c.trees[i].addr) := by
        rw [hused]
        simp [hi]
      exact getElem!_used hget
    obtain ⟨freed, hrun, hfreed⟩ := run_bptreeDestroyChildren hn hrounds (by omega) hchildren
      (fun u hu b hm hfresh => by
        obtain ⟨o, hrep⟩ := hkids.of_mem hu
        exact ih u hu hrep (hrest.sublist (List.sublist_flatten_of_mem (List.mem_map_of_mem hu)))
          hm hfresh (Nat.lt_of_succ_lt_succ hfuel))
      hrest hnode hm hlive fun p hp => hfresh p (List.mem_cons_of_mem _ hp)
    -- the node itself comes last
    have hlive' : a ∉ (b.freeing freed).nodes :=
      Blocks.notMem_freeing.mpr ⟨hlive, fun hmem => hnode (hfreed.mem_iff.mp hmem)⟩
    have hn' : (b.freeing freed).memory.nodes[a]? = some n := by rw [Blocks.freeing, hm, hn]
    refine ⟨freed ++ [a], ?_, (List.perm_append_singleton a freed).trans (hfreed.cons a)⟩
    rw [Tree.addr_node, bptreeDestroyNode, run_freeOp_bind (exec_getNode hlive (hm ▸ hn)),
      if_pos (by simp [hinner.isLeaf])]
    refine (Program.run_bind_of_eq hrun _).trans ?_
    rw [← Blocks.freeing_freeing]
    exact run_freeOp (exec_freeNode hlive' hn')

end Nodes

/-! ## The records -/

section Rows

variable {b : Blocks} {m : Memory} {rows : Rows}

/-- The loop over the rows frees the record of each row from some index on. -/
theorem HoldsRows.run_tableDestroyRows (hrows : HoldsRows m rows)
    (hnodup : (rows.map Prod.fst).Nodup) (hm : b.memory = m) (htable : b.table = false)
    (hslots : b.rows = false) {index fuel : Nat} (hindex : index ≤ rows.length)
    (hfuel : rows.length < index + fuel)
    (hfreed : b.records = (rows.take index).map Prod.fst) :
    (tableDestroyRows fuel index).run b =
      some ((), { b with records := rows.map Prod.fst }) := by
  induction fuel generalizing index b with
  | zero => omega
  | succ fuel ih =>
    have hsize : execFree .getSize b = some (rows.length, b) := by
      rw [execFree, htable, hm, hrows.size]
      rfl
    rw [tableDestroyRows, run_freeOp_bind hsize]
    by_cases hlt : index < rows.length
    · have hrow : rows[index]? = some rows[index] := List.getElem?_eq_getElem hlt
      have hslot : execFree (.getRow index) b = some (some rows[index].1, b) := by
        rw [execFree, htable, hslots, hm, hrows.slot hrow]
        rfl
      -- it is not among those of the rows before
      have hnew : rows[index].1 ∉ b.records := by
        rw [hfreed, List.map_take]
        intro hmem
        refine List.disjoint_take_drop hnodup le_rfl hmem ?_
        rw [List.drop_eq_getElem_cons (by simpa using hlt), List.getElem_map]
        exact List.mem_cons_self ..
      have hlive : (b.memory.record? rows[index].1).isSome := by
        rw [hm, hrows.live _ (List.getElem_mem hlt)]
        rfl
      have hfree : execFree (.freeRecord rows[index].1) b =
          some ((), { b with records := b.records ++ [rows[index].1] }) := if_pos ⟨hlive, hnew⟩
      rw [if_pos hlt, run_freeOp_bind hslot]
      dsimp only
      rw [run_freeOp_bind hfree]
      exact ih (b := { b with records := b.records ++ [rows[index].1] }) hm htable hslots hlt
        (by omega) (by
          rw [List.take_add_one, hrow, List.map_append, hfreed]
          rfl)
    · rw [if_neg hlt]
      have htake : rows.take index = rows := List.take_of_length_le (not_lt.mp hlt)
      rw [htake] at hfreed
      rw [← hfreed]
      rfl

end Rows

/-! ## Nothing is lost -/

/-- The index reaches every node that was allocated. -/
def ReachesNodes (m : Memory) : Prop :=
  (m.root = none ∧ m.nodes = []) ∨
    ∃ h, ∃ t : IndexTree h, IsIndex m t ∧ t.addrs.Perm (List.range m.nodes.length)

/-- The rows reach every live record. -/
def ReachesRecords (m : Memory) (rows : Rows) : Prop :=
  ∀ p, (m.record? p).isSome → p ∈ rows.map Prod.fst

section Reaches

variable {m m' : Memory} {rows : Rows}

theorem ReachesNodes.congr (hm : ReachesNodes m) (hnodes : m'.nodes = m.nodes)
    (hroot : m'.root = m.root) : ReachesNodes m' := by
  rcases hm with ⟨hnone, hempty⟩ | ⟨h, t, ht, haddrs⟩
  · exact .inl ⟨hroot.trans hnone, hnodes.trans hempty⟩
  · exact .inr ⟨h, t, { ht with root := hroot.trans ht.root, rep := hnodes ▸ ht.rep },
      hnodes ▸ haddrs⟩

/-- `bptree_insert` leaves no node outside the index. -/
theorem ReachesNodes.run_bptreeInsert (hm : ReachesNodes m) (hok : m.NoFailure) (key : Int)
    (value : RecPtr) :
    ∃ inserted m', (bptreeInsert key value).run m = some (inserted, m') ∧ ReachesNodes m' ∧
      m'.records = m.records ∧ m'.table = m.table := by
  rcases hm with ⟨hnone, hempty⟩ | ⟨h, t, ht, haddrs⟩
  · -- the new root is the only node
    obtain ⟨nodes', root', hrun, hlen, hindexed⟩ := Indexed.run_bptreeInsert (.inl ⟨hnone, rfl⟩)
      (List.not_mem_nil : key ∉ _) (hok.granted _) value
    have hone : m.insertAllocs key = 1 := by rw [Memory.insertAllocs, hnone]
    have hlen : nodes'.length = 1 := by simpa [hempty, hone] using hlen
    refine ⟨true, _, hrun, ?_, rfl, rfl⟩
    rcases hindexed with ⟨-, hnil⟩ | ⟨h, t, ht, -⟩
    · cases hnil
    · refine .inr ⟨h, t, ht, ?_⟩
      have hlt : ∀ a ∈ t.addrs, a < 1 := fun a ha => by
        rw [← hlen]
        exact ht.rep.addr_lt a ha
      have hzero : t.addr = 0 := Nat.lt_one_iff.mp (hlt _ t.addr_mem_addrs)
      refine (List.perm_ext_iff_of_nodup ht.nodup List.nodup_range).mpr fun a => ?_
      show a ∈ t.addrs ↔ a ∈ List.range nodes'.length
      rw [List.mem_range, hlen]
      refine ⟨hlt a, fun ha => ?_⟩
      rw [Nat.lt_one_iff.mp ha, ← hzero]
      exact t.addr_mem_addrs
  · by_cases hkey : key ∈ t.toList.map Prod.fst
    · refine ⟨false, m, ?_, .inr ⟨h, t, ht, haddrs⟩, rfl, rfl⟩
      rw [ht.run_bptreeInsert key value, if_pos hkey]
    · have hgranted : m.Granted (t.allocs key value m.nodes.length) := hok.granted _
      obtain ⟨nodes', root', h', t', hrun, ht', -, hlen, hnew⟩ := ht.insertAt hkey hgranted
      refine ⟨true, _, (ht.run_bptreeInsert key value).trans ((if_neg hkey).trans hrun),
        .inr ⟨h', t', { ht' with }, ?_⟩, rfl, rfl⟩
      -- the nodes that are new are in the tree
      have hrange : List.range nodes'.length = List.range m.nodes.length ++
          List.range' m.nodes.length (t.allocs key value m.nodes.length) := by
        rw [hlen, List.range_eq_range', List.range_eq_range', ← List.range'_append_1, Nat.zero_add]
      show t'.addrs.Perm (List.range nodes'.length)
      rw [hrange]
      exact hnew.trans (haddrs.append_right _)

/-- `table_insert` leaves no node outside the index, and one more record, freed again if the
index refused it. -/
theorem TableInv.run_tableInsert_reaches (hm : TableInv m rows) (hok : m.NoFailure)
    (hnodes : ReachesNodes m) (name : List UInt8) (age : Int) :
    ∃ result m' record, (tableInsert name age).run m = some (result, m') ∧ ReachesNodes m' ∧
      m'.records = m.records ++ [record] ∧ (record.isSome → result.isSome) := by
  obtain ⟨slots, hslots, hroom, hrun⟩ := run_tableInsert_eq hm (hok.granted _) name age
  set written := (m.withSlots slots).withRecord name age with hwritten
  have hok' : written.NoFailure := by
    rw [Memory.NoFailure, hwritten, Memory.withRecord, Memory.withSlots,
      show m.allocs = [] from hok]
    simp
  have hnodes' : ReachesNodes written := hnodes.congr rfl rfl
  -- the index gets no node that the root does not reach
  obtain ⟨inserted, m₁, hins, hreaches, hkept, -⟩ :=
    hnodes'.run_bptreeInsert hok' m.table.nextId m.records.length
  have hrecords : m₁.records = m.records ++ [some (newRecord m.table.nextId name age)] := hkept
  cases inserted with
  | true =>
    refine ⟨some m.records.length, { m₁ with table := { m₁.table with size := m₁.table.size + 1 } },
      _, ?_, hreaches.congr rfl rfl, hrecords, fun _ => rfl⟩
    rw [hrun, run_bind_of hins, if_pos rfl, run_bind_of (run_getTable _),
      run_bind_of (run_setTable _ _)]
    rfl
  | false =>
    -- the record is freed again
    have hlive : m₁.record? m.records.length = some (newRecord m.table.nextId name age) := by
      rw [Memory.record?, hrecords]
      simp
    refine ⟨none, { m₁ with records := m₁.records.set m.records.length none }, none, ?_,
      hreaches.congr rfl rfl, ?_, fun h => h⟩
    · have hfree : (freeRecord m.records.length).run m₁ =
          some ((), { m₁ with records := m₁.records.set m.records.length none }) := by
        rw [run_freeRecord, hlive]
        rfl
      rw [hrun, run_bind_of hins, if_neg Bool.false_ne_true, run_bind_of hfree]
      rfl
    · show m₁.records.set m.records.length none = m.records ++ [none]
      rw [hrecords, List.set_append_right _ _ le_rfl]
      simp

/-- `table_insert` leaves no live record outside the rows. -/
theorem TableInv.step_tableInsert_reaches (hm : TableInv m rows) (hok : m.NoFailure)
    (hnodes : ReachesNodes m) (hrecords : ReachesRecords m rows) (name : List UInt8) (age : Int) :
    ∃ result m' rows', (tableInsert name age).run m = some (result, m') ∧ TableInv m' rows' ∧
      ReachesNodes m' ∧ ReachesRecords m' rows' := by
  obtain ⟨result, m', record, hrun, hnodes', hnew, hkept⟩ :=
    hm.run_tableInsert_reaches hok hnodes name age
  -- the old records were in rows already
  have hold : ∀ p, (m'.record? p).isSome → p < m.records.length → p ∈ rows.map Prod.fst :=
    fun p hp hlt => hrecords p <| by
      rwa [Memory.record?, ← List.getElem?_append_left hlt, ← hnew]
  -- and there is one new record
  have hlt : ∀ p, (m'.record? p).isSome → p < m.records.length + 1 := fun p hp => by
    by_contra hge
    have hlen : m'.records.length ≤ p := by
      rw [hnew, List.length_append]
      exact not_lt.mp hge
    rw [Memory.record?, List.getElem?_eq_none hlen] at hp
    cases hp
  by_cases hfresh : m.table.nextId ∈ rows.map fun row => row.2.id
  · -- the index refused the id, and the new record was freed
    obtain ⟨m'', hrun', hunchanged, hfreed, -⟩ :=
      hm.run_tableInsert_refused (hok.granted _) (.inl hfresh) name age
    obtain ⟨-, rfl⟩ : none = result ∧ m'' = m' := by simpa [hrun'] using hrun
    refine ⟨_, _, rows, hrun, hunchanged.inv, hnodes', fun p hp => hold p hp ?_⟩
    rcases Nat.lt_succ_iff_lt_or_eq.mp (hlt p hp) with h | rfl
    · exact h
    · rw [hfreed] at hp
      cases hp
  · obtain ⟨m'', hrun', hinv, -⟩ := hm.run_tableInsert hfresh (hok.granted _) name age
    obtain ⟨-, rfl⟩ : some m.records.length = result ∧ m'' = m' := by simpa [hrun'] using hrun
    refine ⟨_, _, _, hrun, hinv, hnodes', fun p hp => ?_⟩
    rw [List.map_append, List.mem_append]
    rcases Nat.lt_succ_iff_lt_or_eq.mp (hlt p hp) with h | rfl
    · exact .inl (hold p hp h)
    · exact .inr (List.mem_singleton.mpr rfl)

/-- Insertions leave no node outside the index and no live record outside the rows. -/
theorem TableInv.run_tableInsertAll_reaches (hm : TableInv m rows) (hok : m.NoFailure)
    (hnodes : ReachesNodes m) (hrecords : ReachesRecords m rows) (calls : List (List UInt8 × Int)) :
    ∃ results m' rows', (tableInsertAll calls).run m = some (results, m') ∧ TableInv m' rows' ∧
      ReachesNodes m' ∧ ReachesRecords m' rows' := by
  induction calls generalizing m rows with
  | nil => exact ⟨[], m, rows, rfl, hm, hnodes, hrecords⟩
  | cons call rest ih =>
    obtain ⟨result, m₁, rows₁, hrun₁, hm₁, hnodes₁, hrecords₁⟩ :=
      hm.step_tableInsert_reaches hok hnodes hrecords call.1 call.2
    obtain ⟨results, m', rows', hrun, hm', hnodes', hrecords'⟩ :=
      ih hm₁ (hok.run hrun₁) hnodes₁ hrecords₁
    refine ⟨result :: results, m', rows', ?_, hm', hnodes', hrecords'⟩
    rw [tableInsertAll, run_bind_of hrun₁, run_bind_of hrun]
    rfl

/-- A table that insertions lead to reaches all of its nodes and all of its records. -/
theorem InsertedTable.reaches (hm : InsertedTable m) :
    ∃ rows, TableInv m rows ∧ ReachesNodes m ∧ ReachesRecords m rows := by
  obtain ⟨calls, results, hrun⟩ := hm
  have hrecords : ReachesRecords tableCreate [] := fun p hp => by cases hp
  obtain ⟨results', m', rows, hrun', hreaches⟩ :=
    tableCreate_inv.run_tableInsertAll_reaches rfl (.inl ⟨rfl, rfl⟩) hrecords calls
  obtain ⟨-, rfl⟩ : results' = results ∧ m' = m := by simpa [hrun'] using hrun
  exact ⟨rows, hreaches⟩

end Reaches

/-! ## The table -/

/-- No block is left: every node and every live record was freed, each once. -/
structure Blocks.Released (b : Blocks) : Prop where
  nodes : b.nodes.Perm (List.range b.memory.nodes.length)
  nodup : b.records.Nodup
  records : ∀ p, p ∈ b.records ↔ (b.memory.record? p).isSome
  rows : b.rows
  index : b.index
  table : b.table

section Destroy

variable {b : Blocks} {m : Memory} {rows : Rows}

/-- Rows with different ids are different records. -/
theorem TableInv.nodup_fst (hm : TableInv m rows) : (rows.map Prod.fst).Nodup := by
  refine List.pairwise_map.mpr ((List.pairwise_map.mp hm.ids).imp_of_mem ?_)
  intro row row' hrow hrow' hid hfst
  refine hid (congrArg Record.id (Option.some.inj ?_))
  rw [← hm.live row hrow, ← hm.live row' hrow', hfst]

/-- `bptree_destroy` frees each node the index reaches, and the index. -/
theorem ReachesNodes.run_bptreeDestroy (hm : ReachesNodes m) (hb : b.memory = m)
    (hnodes : b.nodes = []) (hindex : b.index = false) (htable : b.table = false) :
    ∃ freed, bptreeDestroy.run b = some ((), { b with nodes := freed, index := true }) ∧
      freed.Perm (List.range m.nodes.length) := by
  have hroot : execFree .getRoot b = some (m.root, b) := by
    rw [execFree, htable, hindex, hb]
    rfl
  have hcount : execFree .countNodes b = some (m.nodes.length, b) := by rw [execFree, hb]
  have hfree : ∀ freed : List NodePtr, execFree .freeIndex (b.freeing freed) =
      some ((), { b with nodes := freed, index := true }) := fun freed => by
    rw [execFree, Blocks.freeing, hindex, hnodes, List.nil_append]
    rfl
  rw [bptreeDestroy, run_freeOp_bind hroot, run_freeOp_bind hcount]
  rcases hm with ⟨hnone, hempty⟩ | ⟨h, t, ht, haddrs⟩
  · -- no row was ever inserted
    refine ⟨[], ?_, by rw [hempty]; exact List.Perm.refl _⟩
    have hself : b.freeing [] = b := by simp [Blocks.freeing]
    have hlast := hfree []
    rw [hself] at hlast
    rw [hnone, bptreeDestroyNode]
    exact run_freeOp hlast
  · obtain ⟨freed, hrun, hfreed⟩ := ht.rep.run_bptreeDestroyNode ht.nodup hb
      (fun p _ => by rw [hnodes]; exact List.not_mem_nil) (ht.rep.height_lt ht.nodup)
    refine ⟨freed, ?_, hfreed.trans haddrs⟩
    rw [ht.root]
    exact (Program.run_bind_of_eq hrun _).trans (run_freeOp (hfree freed))

/-- After any insertions without a failed allocation `table_destroy` runs to its end and leaves no
block: no block is freed twice, none is read after it was freed, and none is forgotten. -/
theorem tableDestroy_released (hm : InsertedTable m) :
    ∃ b, tableDestroy.run m.blocks = some ((), b) ∧ b.memory = m ∧ b.Released := by
  obtain ⟨rows, hinv, hnodes, hrecords⟩ := hm.reaches
  have hsize : execFree .getSize m.blocks = some (rows.length, m.blocks) := by
    rw [execFree, ← hinv.size]
    rfl
  have hrows : (tableDestroyRows (rows.length + 1) 0).run m.blocks =
      some ((), { m.blocks with records := rows.map Prod.fst }) :=
    hinv.run_tableDestroyRows hinv.nodup_fst rfl rfl rfl (Nat.zero_le _) (by omega) rfl
  let b₁ : Blocks := { m.blocks with records := rows.map Prod.fst, rows := true }
  have harray : execFree .freeRows { m.blocks with records := rows.map Prod.fst } =
      some ((), b₁) := rfl
  obtain ⟨freed, hindex, hfreed⟩ := hnodes.run_bptreeDestroy (b := b₁) rfl rfl rfl rfl
  refine ⟨{ b₁ with nodes := freed, index := true, table := true }, ?_, rfl, ?_⟩
  · -- the rows, the row array, the index, the table
    rw [tableDestroy, run_freeOp_bind hsize]
    refine (Program.run_bind_of_eq hrows _).trans ?_
    refine (run_freeOp_bind harray _).trans ?_
    exact (Program.run_bind_of_eq hindex _).trans (run_freeOp rfl)
  · exact {
      nodes := hfreed
      nodup := hinv.nodup_fst
      records := fun p => by
        refine ⟨fun hp => ?_, hrecords p⟩
        -- the rows point at live records
        obtain ⟨row, hrow, rfl⟩ := List.mem_map.mp hp
        exact Option.isSome_iff_exists.mpr ⟨row.2, hinv.live row hrow⟩
      rows := rfl
      index := rfl
      table := rfl }

/-- A table of thirty rows, whose index has split. -/
theorem tableDestroy_released_thirty :
    ∃ results m, (tableInsertAll (List.replicate 30 (bytes "Ann", 30))).run tableCreate =
        some (results, m) ∧
      ∃ b, tableDestroy.run m.blocks = some ((), b) ∧ b.memory = m ∧ b.Released := by
  obtain ⟨results, m, rows, hrun, -⟩ := tableCreate_inv.run_tableInsertAll rfl
    (List.replicate 30 (bytes "Ann", 30))
  exact ⟨results, m, hrun, tableDestroy_released ⟨_, _, hrun⟩⟩

end Destroy

end SqlApi.Core

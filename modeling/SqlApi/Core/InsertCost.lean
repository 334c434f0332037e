import SqlApi.Core.SearchCost

/-!
# What an insertion costs

The climb of an insertion is paid by the nodes it leaves behind: every level that is
split does a bounded amount of work and allocates one node, so a potential of
`splitCost` for each node covers all levels but the last. As a tree takes at most one
node on each level and one root, an INSERT costs a logarithm of the table.

## How the proof goes

Every function of the insertion gets a budget (`Prog.Budget`): what it may cost beyond the growth of
the potential. A level that splits is paid by the node that it leaves behind; the last level, which
has room, and the new root are the constant. The nodes that an insertion can add are bounded by the
height, and the height by the logarithm of the number of rows.
-/

namespace SqlApi.Core

open SqlApi.Lib

/-! ## Nodes as a potential -/

/-- What the work on one split level costs. -/
def splitCost : Int := 19

/-- Code whose cost the nodes it allocates pay for, up to a budget. -/
abbrev Prog.Budget {α : Type} (b : α → Int) (p : Prog α) : Prop :=
  Program.Pays Op.weight exec (fun m => splitCost * m.nodes.length) (fun _ => True) b
    (fun _ _ => True) p

section Budget

variable {α : Type} {b : α → Int}

theorem budget_pure {a : α} (hb : 0 ≤ b a) : Prog.Budget b (pure a) :=
  Program.pays_pure (fun _ _ => trivial) hb

/-- An operation that allocates no node. -/
theorem budget_perform (o : Op)
    (ho : ∀ m a m', exec o m = some (a, m') → m'.nodes.length = m.nodes.length) :
    Prog.Budget (fun _ => o.weight) (perform o) :=
  Program.pays_perform fun m a m' _ hexec => ⟨trivial, by rw [ho m a m' hexec]⟩

theorem budget_getNode (p : NodePtr) : (getNode p).Budget fun _ => 1 := by
  refine budget_perform (.getNode p) fun m a m' hexec => ?_
  obtain ⟨n, -, heq⟩ := Option.map_eq_some_iff.mp hexec
  obtain ⟨-, rfl⟩ := Prod.mk.inj heq
  rfl

theorem budget_setNode (p : NodePtr) (n : BPTreeNode) : (setNode p n).Budget fun _ => 1 := by
  refine budget_perform (.setNode p n) fun m a m' hexec => ?_
  obtain ⟨-, heq⟩ := Option.ite_none_right_eq_some.mp hexec
  obtain ⟨-, rfl⟩ := Prod.mk.inj (Option.some.inj heq)
  exact List.length_set

theorem budget_setRoot (root : Option NodePtr) : (setRoot root).Budget fun _ => 1 := by
  refine budget_perform (.setRoot root) fun m a m' hexec => ?_
  obtain ⟨-, rfl⟩ := Prod.mk.inj (Option.some.inj hexec)
  rfl

/-- The budget of code that allocates one node, or fails to. -/
def nodeBudget (cost : Int) : Option NodePtr → Int
  | none => 1
  | some _ => cost - splitCost

/-- A node that is allocated pays. -/
theorem budget_callocNode : callocNode.Budget (nodeBudget 1) := by
  refine Program.pays_perform (o := Op.callocNode) fun m a m' _ hexec => ⟨trivial, ?_⟩
  have hnodes : m.takeAlloc.2.nodes = m.nodes := by rw [Memory.takeAlloc_snd]
  rw [exec] at hexec
  split at hexec
  all_goals
    obtain ⟨rfl, rfl⟩ := Prod.mk.inj (Option.some.inj hexec)
    rename_i heq
    rw [heq] at hnodes
    dsimp only at hnodes
  · simp only [nodeBudget, Memory.pushNode, List.length_append, List.length_singleton, hnodes,
      Op.weight, splitCost]
    omega
  · simp only [nodeBudget, hnodes, Op.weight]
    omega

theorem budget_modifyNode (p : NodePtr) (f : BPTreeNode → BPTreeNode) :
    (modifyNode p f).Budget fun _ => 2 :=
  (budget_getNode p).bind fun _ => (budget_setNode p _).mono fun _ => by decide

end Budget

/-! ## The functions of the insertion -/

section Functions

theorem budget_bptreeCreateNode (isLeaf : Bool) :
    (bptreeCreateNode isLeaf).Budget (nodeBudget 3) := by
  refine budget_callocNode.bind fun node => ?_
  cases node with
  | none => exact budget_pure (by decide)
  | some node =>
    exact (budget_modifyNode node _).bind fun _ => budget_pure (by simp [nodeBudget])

theorem budget_bptreeSetParents (parent : NodePtr) (children : List (Option NodePtr)) :
    (bptreeSetParents parent children).Budget fun _ => 2 * (children.length : Int) := by
  induction children with
  | nil => exact budget_pure (by decide)
  | cons child rest ih =>
    cases child with
    | none =>
      -- an unused slot is skipped
      refine ih.mono fun _ => ?_
      rw [List.length_cons]
      push_cast
      omega
    | some child =>
      refine (budget_modifyNode child _).bind fun _ => ih.mono fun _ => ?_
      rw [List.length_cons]
      push_cast
      omega

theorem budget_bptreeSetParents_le {n : Nat} (parent : NodePtr) {children : List (Option NodePtr)}
    (hlen : children.length ≤ n) :
    (bptreeSetParents parent children).Budget fun _ => 2 * (n : Int) :=
  (budget_bptreeSetParents parent children).mono fun _ => by omega

theorem budget_bptreeCreateNewRoot (left : NodePtr) (key : Int) (right : NodePtr) :
    (bptreeCreateNewRoot left key right).Budget fun _ => 1 := by
  refine (budget_bptreeCreateNode false).bind fun root => ?_
  cases root with
  | none => exact budget_pure (by decide)
  | some root =>
    exact (budget_modifyNode root _).bind fun _ => (budget_modifyNode left _).bind fun _ =>
      (budget_modifyNode right _).bind fun _ => (budget_setRoot _).bind fun _ =>
        budget_pure (by simp [nodeBudget, splitCost])

theorem budget_bptreeInsertIntoInternal (parent : NodePtr) (insertIndex : Nat) (key : Int)
    (rightChild : NodePtr) :
    (bptreeInsertIntoInternal parent insertIndex key rightChild).Budget fun _ => 6 :=
  (budget_getNode parent).bind fun _ => (budget_setNode parent _).bind fun _ =>
    (budget_modifyNode rightChild _).bind fun _ =>
      (budget_modifyNode parent _).mono fun _ => by decide

/-- A level that is split: its node pays for the work, and the rest of the climb has its budget. -/
theorem budget_bptreeSplitInternalAndInsert {insertIntoParent : NodePtr → Int → NodePtr → Prog Bool}
    (hrec : ∀ left key right, (insertIntoParent left key right).Budget fun _ => 8)
    (parent : NodePtr) (insertIndex : Nat) (key : Int) (rightChild : NodePtr) :
    (bptreeSplitInternalAndInsert insertIntoParent parent insertIndex key rightChild).Budget
      fun _ => 6 := by
  refine (budget_bptreeCreateNode false).bind fun rightParent => ?_
  cases rightParent with
  | none => exact budget_pure (by decide)
  | some rightParent =>
    refine (budget_getNode parent).bind fun n => (budget_setNode parent _).bind fun _ => ?_
    -- the children that stay, then those that move
    refine (budget_bptreeSetParents_le (n := 3) parent ?_).bind fun _ => ?_
    · exact List.length_take_le _ _
    refine (budget_modifyNode rightParent _).bind fun _ => ?_
    refine (budget_bptreeSetParents_le (n := 2) rightParent ?_).bind fun _ => ?_
    · rw [List.length_drop, Vector.length_toList]
      decide
    exact (hrec _ _ _).mono fun _ => by simp [nodeBudget, splitCost]

/-- Each level of the climb either ends it or is paid by its node. -/
theorem budget_bptreeInsertIntoParent (fuel : Nat) (left : NodePtr) (key : Int) (right : NodePtr) :
    (bptreeInsertIntoParent fuel left key right).Budget fun _ => 8 := by
  induction fuel generalizing left key right with
  | zero =>
    -- no run ends here
    intro m a m' _ hrun
    cases hrun
  | succ fuel ih =>
    refine (budget_getNode left).bind fun l => ?_
    cases l.parent with
    | none => exact (budget_bptreeCreateNewRoot left key right).mono fun _ => by decide
    | some parent =>
      refine (budget_getNode parent).bind fun n => ?_
      dsimp only
      split
      · -- the parent has room, and the climb ends
        exact (budget_bptreeInsertIntoInternal parent _ key right).bind fun _ =>
          budget_pure (by decide)
      · exact (budget_bptreeSplitInternalAndInsert ih parent _ key right).mono fun _ => by decide

theorem budget_bptreeSplitLeafAndInsert (fuel : Nat) (leaf : NodePtr) (key : Int)
    (value : RecPtr) : (bptreeSplitLeafAndInsert fuel leaf key value).Budget fun _ => 1 := by
  refine (budget_bptreeCreateNode true).bind fun rightLeaf => ?_
  cases rightLeaf with
  | none => exact budget_pure (by decide)
  | some rightLeaf =>
    exact (budget_getNode leaf).bind fun n => (budget_setNode leaf _).bind fun _ =>
      (budget_modifyNode rightLeaf _).bind fun _ => (budget_getNode rightLeaf).bind fun _ =>
        (budget_bptreeInsertIntoParent fuel leaf _ rightLeaf).mono fun _ => by
          simp [nodeBudget, splitCost]

/-- `bptree_insert` once the leaf is found. -/
theorem budget_bptreeInsertAt (fuel : Nat) (leaf : NodePtr) (key : Int) (value : RecPtr) :
    (bptreeInsertAt fuel leaf key value).Budget fun _ => 3 := by
  refine (budget_getNode leaf).bind fun n => ?_
  split
  · exact (budget_getNode leaf).bind fun _ => (budget_setNode leaf _).bind fun _ =>
      budget_pure (by decide)
  · exact (budget_bptreeSplitLeafAndInsert fuel leaf key value).mono fun _ => by decide

end Functions

/-! ## Insertion into the index -/

section Index

variable {m : Memory} {h : Nat} {t : IndexTree h} {es : List (Int × RecPtr)}

/-- An insertion takes at most one node on each level, and a root. -/
theorem IndexTree.allocs_le (t : IndexTree h) (key : Int) (value : RecPtr) (n : Nat) :
    t.allocs key value n ≤ h + 2 := by
  have hlabels : (t.insert key value n).2 ≤ n + (h + 1) := Tree.insert_le (by decide) t n
  have hkeys : (t.insert key value n).1.keys.length ≤ 1 := by
    have hone : (∃ t', (t.insert key value n).1 = .one t') ∨
        ∃ l k r, (t.insert key value n).1 = .cons l k (.one r) :=
      Tree.insert_cases (by decide) t n
    rcases hone with ⟨t', ht'⟩ | ⟨l, k, r, ht'⟩
    · rw [ht']
      exact Nat.zero_le 1
    · rw [ht']
      exact Nat.le_refl 1
  rw [IndexTree.allocs]
  omega

/-- `bptree_insert` -/
theorem IsIndex.accesses_bptreeInsert_le (ht : IsIndex m t) (hok : m.NoFailure) (key : Int)
    (value : RecPtr) : (bptreeInsert key value).accesses m ≤ 20 * h + 44 := by
  obtain ⟨n, parent, next, hn, hleaf⟩ := ht.rep.leafNode (t.leafFor_mem_leaves key)
  have hfind := (hleaf.findKey_lt key).trans (ht.mem_leafFor key)
  rw [bptreeInsert, accesses_bind_of (run_getRoot m), ht.root, accesses_getRoot]
  dsimp only
  rw [accesses_bind_of (ht.run_bptreeFindLeaf key), ← tableFindIdLeaf_eq,
    ht.accesses_tableFindIdLeaf, accesses_bind_of (run_deref_some m _), accesses_deref_some]
  by_cases hkey : key ∈ t.toList.map Prod.fst
  · -- the key is there: nothing after the descent
    rw [accesses_getNode_bind hn, if_pos (hfind.mpr hkey), accesses_pure]
    omega
  · have hgranted : m.Granted (t.allocs key value m.nodes.length) := hok.granted _
    obtain ⟨nodes', root', h', t', hrun, -, -, hlen, -⟩ := ht.insertAt hkey hgranted
    -- the potential of the nodes that are new, of which there are at most `h + 2`
    have hcost : ((bptreeInsertAt m.nodes.length (t.leafFor key).addr key value).accesses m : Int) +
        splitCost * m.nodes.length ≤ 3 + splitCost * nodes'.length :=
      (budget_bptreeInsertAt m.nodes.length (t.leafFor key).addr key value m _ _ trivial hrun).2
    have hallocs := t.allocs_le key value m.nodes.length
    -- the leaf is read once, here and in what is left to do
    have hat : (bptreeInsertAt m.nodes.length (t.leafFor key).addr key value).accesses m ≤
        19 * h + 41 := by
      rw [hlen, splitCost] at hcost
      omega
    rw [bptreeInsertAt, accesses_getNode_bind hn] at hat
    rw [accesses_getNode_bind hn, if_neg (mt hfind.mp hkey)]
    by_cases hroom : n.numKeys < bptreeMaxKeys
    · rw [if_pos hroom] at hat ⊢
      omega
    · rw [if_neg hroom] at hat ⊢
      rw [accesses_bind_of (run_countNodes m), accesses_countNodes]
      omega

theorem Indexed.accesses_bptreeInsert_le (hm : Indexed m es) (hok : m.NoFailure) (key : Int)
    (value : RecPtr) :
    (bptreeInsert key value).accesses m ≤ 20 * Nat.log 2 es.length + 44 := by
  rcases hm with ⟨hnone, rfl⟩ | ⟨h, t, ht, rfl⟩
  · -- the first key makes the root
    have hcreate := run_bptreeCreateNode (hok.granted 1) true
    have hcost : (bptreeCreateNode true).accesses m ≤ 3 := by
      have hbudget : ((bptreeCreateNode true).accesses m : Int) + splitCost * m.nodes.length ≤
          3 - splitCost + splitCost * (m.nodes ++ [BPTreeNode.fresh true]).length :=
        (budget_bptreeCreateNode true m _ _ trivial hcreate).2
      rw [List.length_append, List.length_singleton, splitCost] at hbudget
      push_cast at hbudget
      omega
    have hnew : (m.nodes ++ [BPTreeNode.fresh true])[m.nodes.length]? =
        some (BPTreeNode.fresh true) := by simp
    rw [bptreeInsert, accesses_bind_of (run_getRoot m), hnone]
    dsimp only
    rw [accesses_bind_of hcreate, accesses_bind_of (run_setRoot _ _)]
    dsimp only
    rw [accesses_bind_of (run_modifyNode _ hnew _), modifyNode, accesses_getNode_bind hnew,
      accesses_getRoot, accesses_setRoot, accesses_setNode, accesses_pure]
    omega
  · have hcost := ht.accesses_bptreeInsert_le hok key value
    have hlog := ht.height_le_log
    omega

end Index

/-! ## INSERT -/

section Insert

variable {m : Memory} {rows : Rows} {es : List (Int × RecPtr)} {α : Type}

/-- The index of the memory is there, and no allocation fails. -/
def HasIndex (es : List (Int × RecPtr)) (m : Memory) : Prop := Indexed m es ∧ m.NoFailure

/-- Code that costs at most so much while the index is there. -/
abbrev Prog.CostsAtMost (es : List (Int × RecPtr)) (n : Nat) (Q : α → Memory → Prop) (p : Prog α) :
    Prop :=
  Program.Pays Op.weight exec (fun _ => 0) (HasIndex es) (fun _ => (n : Int)) Q p

/-- An operation that does not touch the index. -/
theorem costs_perform {o : Op} (ho : ∀ m a m', exec o m = some (a, m') →
    m'.nodes = m.nodes ∧ m'.root = m.root ∧ (m.NoFailure → m'.NoFailure)) :
    Prog.CostsAtMost es o.weight (fun _ => HasIndex es) (perform o) :=
  Program.pays_perform fun m a m' hm hexec => by
    obtain ⟨hnodes, hroot, hok⟩ := ho m a m' hexec
    exact ⟨⟨hm.1.congr hnodes hroot, hok hm.2⟩, le_rfl⟩

theorem costs_getTable : getTable.CostsAtMost es 1 fun _ => HasIndex es :=
  costs_perform (o := .getTable) fun m a m' hexec => by
    obtain ⟨-, rfl⟩ := Prod.mk.inj (Option.some.inj hexec)
    exact ⟨rfl, rfl, fun hok => hok⟩

theorem costs_setTable (table : Table) : (setTable table).CostsAtMost es 1 fun _ => HasIndex es :=
  costs_perform (o := .setTable table) fun m a m' hexec => by
    obtain ⟨-, rfl⟩ := Prod.mk.inj (Option.some.inj hexec)
    exact ⟨rfl, rfl, fun hok => hok⟩

theorem costs_malloc : malloc.CostsAtMost es 1 fun _ => HasIndex es :=
  costs_perform (o := .malloc) fun m a m' hexec => by
    obtain rfl : m' = m.takeAlloc.2 := (congrArg Prod.snd (Option.some.inj hexec)).symm
    rw [Memory.takeAlloc_snd]
    exact ⟨rfl, rfl, fun hok => by rw [Memory.NoFailure, show m.allocs = [] from hok]; rfl⟩

theorem costs_callocRecord : callocRecord.CostsAtMost es 1 fun _ => HasIndex es :=
  costs_perform (o := .callocRecord) fun m a m' hexec => by
    have hsnd := m.takeAlloc_snd
    rw [exec] at hexec
    split at hexec
    all_goals
      rename_i heq
      rw [heq] at hsnd
      dsimp only at hsnd
      obtain ⟨-, rfl⟩ := Prod.mk.inj (Option.some.inj hexec)
      subst hsnd
      exact ⟨rfl, rfl, fun hok => by rw [Memory.NoFailure, show m.allocs = [] from hok]; rfl⟩

theorem costs_setRecord (p : RecPtr) (r : Record) :
    (setRecord p r).CostsAtMost es 1 fun _ => HasIndex es :=
  costs_perform (o := .setRecord p r) fun m a m' hexec => by
    obtain ⟨-, heq⟩ := Option.ite_none_right_eq_some.mp hexec
    obtain ⟨-, rfl⟩ := Prod.mk.inj (Option.some.inj heq)
    exact ⟨rfl, rfl, fun hok => hok⟩

/-- An operation after which nothing more is asked of the index. -/
theorem costs_last {P : Memory → Prop} (o : Op) :
    Program.Pays Op.weight exec (fun _ => 0) P (fun _ => (o.weight : Int)) (fun _ _ => True)
      (perform o) :=
  Program.pays_perform fun _ _ _ _ _ => ⟨trivial, le_rfl⟩

theorem costs_bptreeInsert (es : List (Int × RecPtr)) (key : Int) (value : RecPtr) :
    (bptreeInsert key value).CostsAtMost es (20 * Nat.log 2 es.length + 44) fun _ _ => True := by
  intro m inserted m' hm _
  have hcost := hm.1.accesses_bptreeInsert_le hm.2 key value
  rw [Prog.accesses] at hcost
  refine ⟨trivial, ?_⟩
  dsimp only
  omega

/-- `table_ensure_capacity` -/
theorem costs_tableEnsureCapacity : tableEnsureCapacity.CostsAtMost es 3 fun _ => HasIndex es := by
  refine costs_getTable.bind fun table => ?_
  split
  · exact Program.pays_pure (fun _ hm => hm) (by decide)
  · refine costs_malloc.bind fun ok => ?_
    split
    · exact (costs_setTable _).bind fun _ => Program.pays_pure (fun _ hm => hm) (by decide)
    · exact Program.pays_pure (fun _ hm => hm) (by decide)

/-- `table_insert` -/
theorem costs_tableInsert (es : List (Int × RecPtr)) (name : List UInt8) (age : Int) :
    (tableInsert name age).CostsAtMost es (20 * Nat.log 2 es.length + 55) fun _ _ => True := by
  refine costs_tableEnsureCapacity.bind fun room => ?_
  split
  swap
  · -- the row array gets no memory
    exact Program.pays_pure (fun _ _ => trivial) (by omega)
  refine costs_callocRecord.bind fun record => ?_
  cases record with
  | none => exact Program.pays_pure (fun _ _ => trivial) (by omega)
  | some record =>
    refine costs_getTable.bind fun table => (costs_setTable _).bind fun _ =>
      (costs_setRecord record _).bind fun _ => costs_getTable.bind fun table' => ?_
    split
    swap
    · -- a write past the row array has no run
      intro m a m' _ hrun
      cases hrun
    refine (costs_setTable _).bind fun _ => (costs_bptreeInsert es _ record).bind fun inserted => ?_
    -- from here on the index is not needed, so its state after the insertion is not either
    split
    · refine (costs_last .getTable).bind fun table'' => (costs_last (.setTable _)).bind fun _ => ?_
      exact Program.pays_pure (fun _ _ => trivial) (by simp only [Op.weight]; omega)
    · refine (costs_last (.freeRecord record)).bind fun _ => ?_
      exact Program.pays_pure (fun _ _ => trivial) (by simp only [Op.weight]; omega)

/-- What an INSERT costs. -/
theorem TableInv.accesses_sqlInsertRow_le (hm : TableInv m rows) (hok : m.NoFailure)
    (name : List UInt8) (age : Int) {result : SQLResult} {m' : Memory}
    (hrun : (sqlInsertRow name age).run m = some (result, m')) :
    (sqlInsertRow name age).accesses m ≤ 20 * Nat.log 2 rows.length + 56 := by
  obtain ⟨es, hes, hperm⟩ := hm.index
  have hsize : es.length = rows.length := by
    rw [hperm.length_eq, Rows.entries, List.length_map]
  have hinsert : (sqlInsertRow name age).CostsAtMost es (20 * Nat.log 2 es.length + 56)
      fun _ _ => True := by
    refine (costs_tableInsert es name age).bind fun record => ?_
    cases record with
    | none => exact Program.pays_pure (fun _ _ => trivial) (by omega)
    | some record =>
      refine (costs_last (.getRecord record)).bind fun stored => ?_
      exact Program.pays_pure (fun _ _ => trivial) (by simp only [Op.weight]; omega)
  obtain ⟨-, hcost⟩ := hinsert m result m' ⟨hes, hok⟩ hrun
  rw [hsize] at hcost
  rw [Prog.accesses]
  dsimp only at hcost
  omega

/-! ## Statements -/

/-- What a statement may cost on a table of `size` rows, when it returns `found` of them. -/
def SqlStatement.Cost (size found accesses : Nat) : SqlStatement → Prop
  | .insert _ _ => accesses ≤ 20 * Nat.log 2 size + 56
  | .select query => query.Cost size found accesses

/-- On every table that insertions lead to, none of them with a failed allocation, `sql_execute`
works within the cost of the statement in the text: a logarithm of the table for an INSERT, a
logarithm and twice the result for a condition on the id, the whole table only for a condition
on name or age. -/
theorem sqlExecute_cost (hm : InsertedTable m) {text : List UInt8} {statement : SqlStatement}
    (htext : sqlParse text = .ok statement) :
    ∃ result m', (sqlExecute text).run m = some (result, m') ∧
      statement.Cost m.table.size result.rowCount ((sqlExecute text).accesses m) := by
  cases statement with
  | insert name age =>
    obtain ⟨hok, rows, hinv, hn⟩ := hm.numbered
    have hexec : sqlExecute text = sqlInsertRow name age := by
      rw [sqlExecute_eq, htext]
      rfl
    obtain ⟨result, m', hrun⟩ : ∃ result m', (sqlInsertRow name age).run m = some (result, m') := by
      rcases lt_or_eq_of_le hn.bound with hroom | hfull
      · obtain ⟨m', hrun, -, -⟩ := hinv.run_sqlInsertRow hn hok hroom name age
        exact ⟨_, m', hrun⟩
      · obtain ⟨m', hrun, -, -⟩ := hinv.run_sqlInsertRow_full hn hok hfull name age
        exact ⟨_, m', hrun⟩
    rw [hexec]
    refine ⟨result, m', hrun, ?_⟩
    rw [hinv.size]
    exact hinv.accesses_sqlInsertRow_le hok name age hrun
  | select select =>
    obtain ⟨result, hrun, hcost⟩ := sqlExecute_select_cost hm htext
    exact ⟨result, m, hrun, hcost⟩

/-- On a table of thirty-one rows: an INSERT that splits a leaf, and a SELECT by id. -/
theorem sqlExecute_cost_thirtyOne :
    let insert := bytes "INSERT INTO users VALUES ('Kim', 41)"
    let select := bytes "SELECT * FROM users WHERE id = 7"
    ∃ results m, (tableInsertAll (List.replicate 31 (bytes "Ann", 30))).run tableCreate =
        some (results, m) ∧
      (∃ result m', (sqlExecute insert).run m = some (result, m') ∧
        m.nodes.length < m'.nodes.length ∧
        (SqlStatement.insert (bytes "Kim") 41).Cost m.table.size result.rowCount
          ((sqlExecute insert).accesses m)) ∧
      ∃ result m', (sqlExecute select).run m = some (result, m') ∧ result.rowCount = 1 ∧
        (SqlStatement.select (.byId .eq 7)).Cost m.table.size result.rowCount
          ((sqlExecute select).accesses m) := by
  intro insert select
  obtain ⟨results, m, rows, hrun, -⟩ := tableCreate_inv.run_tableInsertAll rfl
    (List.replicate 31 (bytes "Ann", 30))
  have hm : InsertedTable m := ⟨_, _, hrun⟩
  -- the tree is built and both statements are run by evaluation
  have hsplits : (((tableInsertAll (List.replicate 31 (bytes "Ann", 30))).run tableCreate).bind
      fun built => ((sqlExecute insert).run built.2).map fun done =>
        decide (built.2.nodes.length < done.2.nodes.length)) = some true := by decide +kernel
  have hfinds : (((tableInsertAll (List.replicate 31 (bytes "Ann", 30))).run tableCreate).bind
      fun built => ((sqlExecute select).run built.2).map fun done => done.1.rowCount) =
        some 1 := by decide +kernel
  rw [hrun, Option.bind_some] at hsplits hfinds
  refine ⟨results, m, hrun, ?_, ?_⟩
  · obtain ⟨result, m', hinsert, hcost⟩ := sqlExecute_cost hm
      (by decide : sqlParse insert = .ok (.insert (bytes "Kim") 41))
    rw [hinsert, Option.map_some] at hsplits
    exact ⟨result, m', hinsert, of_decide_eq_true (Option.some.inj hsplits), hcost⟩
  · obtain ⟨result, m', hselect, hcost⟩ := sqlExecute_cost hm
      (by decide : sqlParse select = .ok (.select (.byId .eq 7)))
    rw [hselect, Option.map_some] at hfinds
    exact ⟨result, m', hselect, Option.some.inj hfinds, hcost⟩

end Insert

end SqlApi.Core

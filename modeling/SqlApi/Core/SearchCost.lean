import SqlApi.Lib.Cost
import SqlApi.Core.SqlRun
import SqlApi.Core.TableQueries
import Mathlib.Data.Nat.Log

/-!
# What a query costs

The cost of a run is the number of its operations on the memory: nodes and records
read, allocations asked for. Work inside a node is not counted; a node has at most
`BPTREE_MAX_KEYS` keys. The bound on the walks is the model's own and free.

A query by id walks down the index and along the leaves that hold its result, so it
costs a logarithm of the table and twice the result. A query by name or age reads
every row.
-/

namespace SqlApi.Core

open SqlApi.Lib

/-! ## Counting operations -/

/-- What an operation costs. -/
def Op.weight : Op → Nat
  | .countNodes => 0
  | _ => 1

/-- How often a run accesses the memory. -/
abbrev Prog.accesses {α : Type} (p : Prog α) (m : Memory) : Nat :=
  Program.cost Op.weight exec p m

section Accesses

variable {α β : Type} {m m' : Memory}

theorem accesses_bind_of {p : Prog α} {a : α} (hp : p.run m = some (a, m')) (f : α → Prog β) :
    Prog.accesses (p >>= f) m = p.accesses m + (f a).accesses m' :=
  Program.cost_bind_of_eq hp f

@[simp] theorem accesses_pure (a : α) : Prog.accesses (pure a) m = 0 := rfl

@[simp] theorem accesses_map (f : α → β) (p : Prog α) :
    Prog.accesses (f <$> p) m = p.accesses m := Program.cost_map f p m

@[simp] theorem accesses_getNode (p : NodePtr) : (getNode p).accesses m = 1 :=
  Program.cost_perform _ m

@[simp] theorem accesses_getRoot : getRoot.accesses m = 1 := Program.cost_perform _ m

@[simp] theorem accesses_setNode (p : NodePtr) (n : BPTreeNode) : (setNode p n).accesses m = 1 :=
  Program.cost_perform _ m

@[simp] theorem accesses_setRoot (root : Option NodePtr) : (setRoot root).accesses m = 1 :=
  Program.cost_perform _ m

@[simp] theorem accesses_countNodes : countNodes.accesses m = 0 := Program.cost_perform _ m

@[simp] theorem accesses_getTable : getTable.accesses m = 1 := Program.cost_perform _ m

@[simp] theorem accesses_getRecord (p : RecPtr) : (getRecord p).accesses m = 1 :=
  Program.cost_perform _ m

@[simp] theorem accesses_malloc : malloc.accesses m = 1 := Program.cost_perform _ m

@[simp] theorem accesses_deref_some (p : Nat) : (deref (some p)).accesses m = 0 := rfl

/-- Reading a node and going on. -/
theorem accesses_getNode_bind {p : NodePtr} {n : BPTreeNode} (hn : m.nodes[p]? = some n)
    (f : BPTreeNode → Prog α) : Prog.accesses (getNode p >>= f) m = 1 + (f n).accesses m := by
  rw [accesses_bind_of (run_getNode_of m hn), accesses_getNode]

end Accesses

/-! ## Descents -/

section Descent

variable {m : Memory} {h : Nat} {t : IndexTree h} {parent out : Option NodePtr}

/-- A descent reads one node of each level. -/
theorem Rep.accesses_tableDescend (ht : Rep m.nodes parent out t) {pick : BPTreeNode → Nat}
    (hpick : ∀ n, pick n ≤ n.numKeys) {fuel : Nat} (hfuel : h < fuel) :
    (tableDescend pick fuel t.addr).accesses m = h + 1 := by
  obtain ⟨fuel, rfl⟩ : ∃ f, fuel = f + 1 := ⟨fuel - 1, by omega⟩
  induction t using Tree.induction generalizing parent out fuel with
  | hleaf a es =>
    obtain ⟨n, hn, hleaf⟩ := rep_leaf.mp ht
    rw [Tree.addr_leaf, tableDescend, accesses_getNode_bind hn, if_pos hleaf.isLeaf]
    rfl
  | hnode h a c ih =>
    obtain ⟨n, hn, hinner, hkids⟩ := rep_node.mp ht
    obtain ⟨fuel, rfl⟩ : ∃ f, fuel = f + 1 := ⟨fuel - 1, by omega⟩
    -- the child the loop picks
    have hlt : pick n < c.trees.length := by
      rw [c.length_trees, ← hinner.numKeys]
      exact Nat.lt_succ_of_le (hpick n)
    have hmem : c.trees[pick n] ∈ c.trees := List.getElem_mem hlt
    obtain ⟨o, hrep⟩ := hkids.of_mem hmem
    have hchild : n.children[pick n]! = some (c.trees[pick n]).addr := by
      have hchildren : n.children.toList.take (n.numKeys + 1) = _ := hinner.children
      have hget : (n.children.toList.take (n.numKeys + 1))[pick n]? =
          some (some (c.trees[pick n]).addr) := by
        rw [hchildren]
        simp [hlt]
      exact getElem!_used hget
    have hrec := ih _ hmem hrep fuel (by omega)
    rw [Tree.addr_node, tableDescend, accesses_getNode_bind hn,
      if_neg (by simp [hinner.isLeaf]), hchild, accesses_bind_of (run_deref_some m _), hrec,
      accesses_deref_some]
    omega

/-- `table_find_id_leaf` and `table_find_leftmost_leaf` -/
theorem IsIndex.accesses_tableDescendFromRoot (ht : IsIndex m t) {pick : BPTreeNode → Nat}
    (hpick : ∀ n, pick n ≤ n.numKeys) {leaf : NodePtr}
    (hrun : (tableDescend pick m.nodes.length t.addr).run m = some (leaf, m)) :
    (tableDescendFromRoot pick).accesses m = h + 2 := by
  rw [tableDescendFromRoot, accesses_bind_of (run_getRoot m), ht.root]
  dsimp only
  rw [accesses_bind_of (run_countNodes m), accesses_bind_of hrun,
    ht.rep.accesses_tableDescend hpick (ht.rep.height_lt ht.nodup), accesses_getRoot,
    accesses_countNodes, accesses_pure]
  omega

theorem IsIndex.accesses_tableFindIdLeaf (ht : IsIndex m t) (id : Int) :
    (tableFindIdLeaf id).accesses m = h + 2 := by
  have hdescend := run_bptreeDescend ht.rep id (ht.rep.height_lt ht.nodup)
  rw [← tableDescend_id_eq] at hdescend
  exact ht.accesses_tableDescendFromRoot (fun n => firstIndex_le _ _) hdescend

theorem IsIndex.accesses_tableFindLeftmostLeaf (ht : IsIndex m t) :
    tableFindLeftmostLeaf.accesses m = h + 2 :=
  ht.accesses_tableDescendFromRoot (fun _ => Nat.zero_le _)
    (ht.rep.run_tableDescend_zero (ht.rep.height_lt ht.nodup))

/-- `table_find_id_leaf` is `bptree_find_leaf`. -/
theorem tableFindIdLeaf_eq (id : Int) : tableFindIdLeaf id = bptreeFindLeaf id := by
  unfold tableFindIdLeaf tableDescendFromRoot bptreeFindLeaf
  congr 1
  funext root
  cases root with
  | none => rfl
  | some root => simp only [tableDescend_id_eq]

/-- `bptree_search` reads the leaf once more. -/
theorem IsIndex.accesses_bptreeSearch (ht : IsIndex m t) (key : Int) :
    (bptreeSearch key).accesses m = h + 3 := by
  obtain ⟨n, parent, next, hn, hleaf⟩ := ht.rep.leafNode (t.leafFor_mem_leaves key)
  rw [bptreeSearch, accesses_bind_of (ht.run_bptreeFindLeaf key), ← tableFindIdLeaf_eq,
    ht.accesses_tableFindIdLeaf]
  dsimp only
  rw [accesses_getNode_bind hn]
  split <;> simp

end Descent

/-! ## The leaf chain -/

section Chain

variable {m : Memory} {ls : List (Leaf NodePtr Int RecPtr)}

/-- Appending asks for memory at most once. -/
theorem accesses_tableAppendRecord_le (a : ResultArray) (record : RecPtr) :
    (tableAppendRecord a record).accesses m ≤ 1 := by
  unfold tableAppendRecord
  split
  · -- there is room
    exact Nat.zero_le _
  · -- the array grows, or the allocation fails
    have hrun : malloc.run m = some (m.takeAlloc.1, m.takeAlloc.2) := run_malloc m
    rw [accesses_bind_of hrun, accesses_malloc]
    cases m.takeAlloc.1 with
    | true => exact Nat.le_refl 1
    | false => exact Nat.le_refl 1

theorem accesses_tableAppendValues_le (hm : m.NoFailure) (a : ResultArray) (ps : List RecPtr) :
    (tableAppendValues a (ps.map some)).accesses m ≤ ps.length := by
  induction ps generalizing a with
  | nil => exact le_rfl
  | cons p ps ih =>
    obtain ⟨capacity, hfirst⟩ := run_tableAppendRecord hm a p
    have hrest := ih ⟨a.records ++ [p], capacity⟩
    have happend := accesses_tableAppendRecord_le (m := m) a p
    rw [List.map_cons, tableAppendValues, accesses_bind_of (run_deref_some m p),
      accesses_bind_of hfirst, List.length_cons, accesses_deref_some]
    dsimp only
    omega

/-- The leaves of a chain with no empty leaf behind the first. -/
theorem length_le_remaining {ls : List (Leaf NodePtr Int RecPtr)}
    (hls : ∀ l ∈ ls.tail, 0 < l.entries.length) (index : Nat) :
    ls.length ≤ 1 + (remaining index ls).length := by
  cases ls with
  | nil => exact Nat.zero_le _
  | cons l rest =>
    have hrest : rest.length ≤ (rest.flatMap Leaf.entries).length := by
      rw [List.tail_cons] at hls
      induction rest with
      | nil => exact le_rfl
      | cons l' rest ih =>
        have hfirst := hls l' (by simp)
        have hrec := ih fun l hl => hls l (by simp [hl])
        rw [List.flatMap_cons, List.length_append, List.length_cons]
        omega
    rw [remaining, List.length_append, List.length_cons]
    omega

/-- `table_collect_leaf_chain` reads each leaf once. -/
theorem accesses_tableCollectLeafChain_le (hm : m.NoFailure) (hls : LinkedLeaves m.nodes none ls)
    (index : Nat) (a : ResultArray) {fuel : Nat} (hfuel : ls.length ≤ fuel) :
    (tableCollectLeafChain fuel (leafAfter none ls) index a).accesses m ≤
      ls.length + (remaining index ls).length := by
  induction ls generalizing fuel index a with
  | nil => cases fuel <;> exact Nat.zero_le _
  | cons l rest ih =>
    obtain ⟨⟨n, parent, hn, hleaf⟩, hrest⟩ := hls
    obtain ⟨fuel, rfl⟩ : ∃ f, fuel = f + 1 := ⟨fuel - 1, by simp at hfuel; omega⟩
    obtain ⟨capacity, hfirst⟩ :=
      run_tableAppendValues hm a ((l.entries.drop index).map Prod.snd)
    have happend := accesses_tableAppendValues_le hm a ((l.entries.drop index).map Prod.snd)
    have hchain := ih hrest 0 ⟨a.records ++ (l.entries.drop index).map Prod.snd, capacity⟩
      (by simpa using hfuel)
    rw [remaining_zero] at hchain
    rw [List.length_map] at happend
    rw [leafAfter, tableCollectLeafChain, accesses_getNode_bind hn, values_of_leaf hleaf,
      ← List.map_drop, ← List.map_drop, accesses_bind_of hfirst, remaining, List.length_append,
      List.length_cons]
    dsimp only
    rw [hleaf.next]
    omega

/-- The inner loop of the scan from the leftmost leaf. -/
theorem accesses_tableAppendWhile_le (hm : m.NoFailure) (comparison : TableComparison) (id : Int)
    (a : ResultArray) (es : List (Int × RecPtr)) :
    (tableAppendWhile comparison id a (es.map fun e => (e.1, some e.2))).accesses m ≤
      (es.takeWhile fun e => tableCompareInt e.1 comparison id).length := by
  induction es generalizing a with
  | nil => exact le_rfl
  | cons e es ih =>
    rw [List.map_cons, tableAppendWhile, List.takeWhile_cons]
    cases hcmp : tableCompareInt e.1 comparison id with
    | false =>
      -- `break`
      exact le_rfl
    | true =>
      obtain ⟨capacity, hfirst⟩ := run_tableAppendRecord hm a e.2
      have hrest := ih ⟨a.records ++ [e.2], capacity⟩
      have happend := accesses_tableAppendRecord_le (m := m) a e.2
      rw [if_pos rfl, if_pos rfl, accesses_bind_of (run_deref_some m e.2),
        accesses_bind_of hfirst, List.length_cons, accesses_deref_some]
      dsimp only
      omega

/-- The scan from a leaf: it reads the leaves whose keys satisfy the comparison, and one more. -/
theorem accesses_tableCollectWhile_le (hm : m.NoFailure) (hls : LinkedLeaves m.nodes none ls)
    (hfull : ∀ l ∈ ls, 0 < l.entries.length) (comparison : TableComparison) (id : Int)
    (a : ResultArray) {fuel : Nat} (hfuel : ls.length ≤ fuel) :
    (tableCollectWhile comparison id fuel (leafAfter none ls) a).accesses m ≤
      1 + 2 * ((ls.flatMap Leaf.entries).takeWhile fun e =>
        tableCompareInt e.1 comparison id).length := by
  induction ls generalizing fuel a with
  | nil => cases fuel <;> exact Nat.zero_le _
  | cons l rest ih =>
    obtain ⟨⟨n, parent, hn, hleaf⟩, hrest⟩ := hls
    obtain ⟨fuel, rfl⟩ : ∃ f, fuel = f + 1 := ⟨fuel - 1, by simp at hfuel; omega⟩
    obtain ⟨capacity, hfirst⟩ := run_tableAppendWhile hm comparison id a l.entries
    have happend := accesses_tableAppendWhile_le hm comparison id a l.entries
    rw [leafAfter, tableCollectWhile, accesses_getNode_bind hn, pairs_of_leaf hleaf,
      accesses_bind_of hfirst, List.flatMap_cons]
    cases hall : l.entries.all fun e => tableCompareInt e.1 comparison id with
    | false =>
      -- the scan ends in this leaf
      have hprefix : (l.entries.takeWhile fun e => tableCompareInt e.1 comparison id).length ≤
          ((l.entries ++ rest.flatMap Leaf.entries).takeWhile fun e =>
            tableCompareInt e.1 comparison id).length := by
        rw [List.takeWhile_append]
        split
        · rw [List.length_append]
          have hle := (l.entries.takeWhile_prefix fun e =>
            tableCompareInt e.1 comparison id).length_le
          omega
        · exact le_rfl
      simp only [Bool.not_false, accesses_pure]
      omega
    | true =>
      -- the whole leaf is in the result; it is not empty, so an entry pays for reading it
      have hself : (l.entries.takeWhile fun e => tableCompareInt e.1 comparison id) = l.entries :=
        List.takeWhile_eq_self_iff.mpr (List.all_eq_true.mp hall)
      have hnonempty := hfull l (by simp)
      have hchain := ih hrest (fun l hl => hfull l (by simp [hl]))
        ⟨a.records ++ l.entries.map Prod.snd, capacity⟩ (by simpa using hfuel)
      rw [hself] at happend
      rw [List.takeWhile_append, if_pos (by rw [hself]), hself, List.length_append]
      simp only [Bool.not_true]
      rw [hleaf.next]
      omega

/-- The first key of a leaf that is not empty. -/
theorem LeafNode.firstKey {n : BPTreeNode} {parent next : Option NodePtr}
    {e : Int × RecPtr} {es : List (Int × RecPtr)} (hn : LeafNode n parent next (e :: es)) :
    n.keys[0]! = e.1 ∧ 0 < n.numKeys := by
  have hkeys : n.keys.toList.take n.numKeys = _ := hn.keys
  have hget : (n.keys.toList.take n.numKeys)[0]? = some e.1 := by
    rw [hkeys]
    rfl
  refine ⟨getElem!_used hget, ?_⟩
  rw [hn.numKeys]
  exact Nat.succ_pos _

/-- A skip loop reads a leaf, and one more when it leaves the first. -/
def SkipsOne (skip : Nat → Option NodePtr → Nat → Prog (Option (NodePtr × Nat))) (id : Int) :
    Prop :=
  ∀ (m : Memory) (l : Leaf NodePtr Int RecPtr) (rest : List (Leaf NodePtr Int RecPtr)) (fuel : Nat)
    (index : Nat), LinkedLeaves m.nodes none (l :: rest) → (∀ l' ∈ rest, 0 < l'.entries.length) →
    (∀ e ∈ rest.flatMap Leaf.entries, id < e.1) → (l :: rest).length ≤ fuel →
    (skip fuel (some l.addr) index).accesses m ≤ 2

/-- The next leaf of a chain, when there is one. -/
private theorem LinkedLeaves.next_cases {n : BPTreeNode} {parent : Option NodePtr}
    {rest : List (Leaf NodePtr Int RecPtr)} {es : List (Int × RecPtr)} {id : Int}
    (hn : LeafNode n parent (leafAfter none rest) es) (hrest : LinkedLeaves m.nodes none rest)
    (hfull : ∀ l' ∈ rest, 0 < l'.entries.length)
    (habove : ∀ e ∈ rest.flatMap Leaf.entries, id < e.1) :
    n.next = none ∨ ∃ next n', n.next = some next ∧ 1 ≤ rest.length ∧
      m.nodes[next]? = some n' ∧ id < n'.keys[0]! ∧ 0 < n'.numKeys := by
  cases rest with
  | nil => exact .inl hn.next
  | cons l rest =>
    obtain ⟨⟨n', parent', hn', hleaf'⟩, -⟩ := hrest
    obtain ⟨e, es', hentries⟩ := List.exists_cons_of_length_pos (hfull l (by simp))
    rw [hentries] at hleaf'
    obtain ⟨hfirst, hpos⟩ := hleaf'.firstKey
    refine .inr ⟨l.addr, n', hn.next, Nat.succ_pos _, hn', ?_, hpos⟩
    rw [hfirst]
    exact habove e (by simp [hentries])

theorem skipsOne_tableSkipGt (id : Int) : SkipsOne (tableSkipGt id) id := by
  intro m l rest fuel index hls hfull habove hfuel
  obtain ⟨⟨n, parent, hn, hleaf⟩, hrest⟩ := hls
  obtain ⟨fuel, rfl⟩ : ∃ f, fuel = f + 1 := ⟨fuel - 1, by simp at hfuel; omega⟩
  rw [tableSkipGt, accesses_getNode_bind hn]
  dsimp only
  split
  · -- a key of the first leaf is greater
    simp
  · rcases LinkedLeaves.next_cases hleaf hrest hfull habove with hnext | hnext
    · -- the first leaf was the last
      rw [hnext]
      cases fuel <;> simp [tableSkipGt]
    · obtain ⟨next, n', hnext, hlen, hn', hkey, hpos⟩ := hnext
      obtain ⟨fuel, rfl⟩ : ∃ f, fuel = f + 1 := ⟨fuel - 1, by simp at hfuel; omega⟩
      -- its first key stops the loop
      have hstop : firstIndexFrom (fun i => decide (n'.keys[i]! ≤ id)) (n'.numKeys - 0) 0 = 0 :=
        firstIndexFrom_eq le_rfl (Nat.zero_le _) (fun j _ hj => absurd hj (Nat.not_lt_zero j))
          fun _ => decide_eq_false (not_le.mpr hkey)
      rw [hnext, tableSkipGt, accesses_getNode_bind hn', hstop]
      dsimp only
      rw [if_pos hpos, accesses_pure]

theorem skipsOne_tableSkipGe (id : Int) : SkipsOne tableSkipGe id := by
  intro m l rest fuel index hls hfull habove hfuel
  obtain ⟨⟨n, parent, hn, hleaf⟩, hrest⟩ := hls
  obtain ⟨fuel, rfl⟩ : ∃ f, fuel = f + 1 := ⟨fuel - 1, by simp at hfuel; omega⟩
  rw [tableSkipGe, accesses_getNode_bind hn]
  split
  · rcases LinkedLeaves.next_cases hleaf hrest hfull habove with hnext | hnext
    · rw [hnext]
      cases fuel <;> simp [tableSkipGe]
    · obtain ⟨next, n', hnext, hlen, hn', -, hpos⟩ := hnext
      obtain ⟨fuel, rfl⟩ : ∃ f, fuel = f + 1 := ⟨fuel - 1, by simp at hfuel; omega⟩
      rw [hnext, tableSkipGe, accesses_getNode_bind hn', if_neg (not_le.mpr hpos), accesses_pure]
  · simp

end Chain

/-! ## Queries by id -/

section ById

variable {m : Memory} {h : Nat} {t : IndexTree h} {es : List (Int × RecPtr)}

theorem IsIndex.leaf_pos (ht : IsIndex m t) {l : Leaf NodePtr Int RecPtr} (hl : l ∈ t.leaves) :
    0 < l.entries.length :=
  ht.filled.length_leaf_pos (by decide) Nat.one_pos hl

/-- The height is at most the logarithm of the number of entries. -/
theorem IsIndex.height_le_log (ht : IsIndex m t) : h ≤ Nat.log 2 t.toList.length := by
  cases h with
  | zero => exact Nat.zero_le _
  | succ h =>
    have hpow : (1 + 1) * (((bptreeOrder - 1) / 2 + 1) ^ h * (bptreeOrder / 2)) ≤ t.toList.length :=
      ht.filled.pow_le_length_root
    -- a node has two children at least and a leaf two entries
    have hle : 2 ^ (h + 1) ≤ t.toList.length := by
      have htwo : (bptreeOrder - 1) / 2 + 1 = 2 := rfl
      have hhalf : bptreeOrder / 2 = 2 := rfl
      rw [htwo, hhalf] at hpow
      rw [pow_succ]
      omega
    have hne : t.toList.length ≠ 0 := by
      have := Nat.two_pow_pos (h + 1)
      omega
    exact Nat.le_log_of_pow_le Nat.one_lt_two hle

/-- The scan for `>` and `>=`. -/
theorem IsIndex.accesses_tableCollectFrom_le (ht : IsIndex m t) (hok : m.NoFailure) (id : Int)
    (skip : Nat → Option NodePtr → Nat → Prog (Option (NodePtr × Nat)))
    (keep : List (Int × RecPtr) → List (Int × RecPtr)) (hcost : SkipsOne skip id)
    (hskip : ∀ ls index, LinkedLeaves m.nodes none ls → ls.length ≤ m.nodes.length →
      (∀ l ∈ ls.head?, index ≤ l.entries.length) →
      ((remaining index ls).map Prod.fst).Pairwise (· < ·) →
      ∃ ls' index', ls' <:+ ls ∧ LinkedLeaves m.nodes none ls' ∧
        (skip m.nodes.length (leafAfter none ls) index).run m =
          some ((leafAfter none ls').map fun leaf => (leaf, index'), m) ∧
        remaining index' ls' = keep (remaining index ls)) :
    (tableCollectFrom id skip).accesses m ≤
      h + 2 * (keep (t.toList.filter fun e => decide (id ≤ e.1))).length + 6 := by
  obtain ⟨n, parent, next, hn, hleaf⟩ := ht.rep.leafNode (t.leafFor_mem_leaves id)
  obtain ⟨ls, hls, hlen, hmem, habove, hrem⟩ := ht.exists_chain id
  have hstart : tableFindInsertIndex n.keys n.numKeys id =
      entriesBelow id (t.leafFor id).entries := hleaf.findInsertIndex_eq id
  have hsorted : ((t.toList.filter fun e => decide (id ≤ e.1)).map Prod.fst).Pairwise (· < ·) :=
    ht.within.sorted.sublist (List.Sublist.map _ List.filter_sublist)
  have hbound : ∀ l ∈ (t.leafFor id :: ls).head?,
      entriesBelow id (t.leafFor id).entries ≤ l.entries.length := by
    intro l hl
    obtain rfl := Option.some.inj hl
    exact entriesBelow_le _ _
  have hfull : ∀ l ∈ ls, 0 < l.entries.length := fun l hl => ht.leaf_pos (hmem hl)
  have hpassed := hcost m (t.leafFor id) ls m.nodes.length
    (entriesBelow id (t.leafFor id).entries) hls hfull habove hlen
  obtain ⟨ls', index', hsuffix, hls', hrun, hrem'⟩ :=
    hskip _ (entriesBelow id (t.leafFor id).entries) hls hlen hbound (hrem ▸ hsorted)
  rw [hrem] at hrem'
  rw [leafAfter] at hrun
  have hcollect := accesses_tableCollectLeafChain_le hok hls' index' ⟨[], 0⟩
    (hsuffix.length_le.trans hlen)
  -- behind the first leaf every leaf has a result
  have hleaves : ls'.length ≤ 1 + (remaining index' ls').length := by
    refine length_le_remaining (fun l hl => ?_) index'
    have htail : l ∈ (t.leafFor id :: ls).tail := by
      obtain ⟨pre, hpre⟩ := hsuffix
      cases pre with
      | nil =>
        rw [← hpre]
        exact hl
      | cons l' pre =>
        rw [← hpre, List.cons_append, List.tail_cons]
        exact List.mem_append_right _ (List.mem_of_mem_tail hl)
    exact hfull l htail
  rw [hrem'] at hcollect hleaves
  -- the descent, the skip loop, and then the leaves that are left
  unfold tableCollectFrom
  rw [accesses_bind_of (ht.run_tableFindIdLeaf id), ht.accesses_tableFindIdLeaf]
  dsimp only
  rw [accesses_getNode_bind hn, accesses_bind_of (run_countNodes m), accesses_countNodes, hstart,
    accesses_bind_of hrun]
  cases ls' with
  | nil =>
    simp only [leafAfter, Option.map_none, accesses_pure]
    omega
  | cons l rest =>
    simp only [leafAfter, Option.map_some] at hcollect ⊢
    omega

/-- The scan for `<` and `<=`. -/
theorem IsIndex.accesses_tableCollectUpTo_le (ht : IsIndex m t) (hok : m.NoFailure)
    (comparison : TableComparison) (id : Int)
    (hmono : t.toList.Pairwise fun x y =>
      tableCompareInt y.1 comparison id = true → tableCompareInt x.1 comparison id = true) :
    (tableCollectUpTo comparison id).accesses m ≤
      h + 2 * (selectById comparison id t.toList).length + 3 := by
  have hcollect := accesses_tableCollectWhile_le hok ht.rep.linkedLeaves
    (fun l hl => ht.leaf_pos hl) comparison id ⟨[], 0⟩ ht.length_leaves_le
  rw [leafAfter_leaves, ← Tree.toList_eq_flatMap_leaves, takeWhile_eq_filter hmono] at hcollect
  rw [tableCollectUpTo, accesses_bind_of ht.run_tableFindLeftmostLeaf,
    ht.accesses_tableFindLeftmostLeaf, accesses_bind_of (run_countNodes m), accesses_countNodes,
    selectById, List.length_map]
  omega

/-- The query for `=`. -/
theorem IsIndex.accesses_tableCollectEq_le (ht : IsIndex m t) (id : Int) :
    (tableCollectEq id).accesses m ≤ h + 4 := by
  rw [tableCollectEq, tableFindById, accesses_bind_of (ht.run_bptreeSearch id),
    ht.accesses_bptreeSearch]
  cases t.toList.lookup id with
  | none => exact Nat.le_succ _
  | some record =>
    have happend := accesses_tableAppendRecord_le (m := m) ⟨[], 0⟩ record
    dsimp only
    omega

/-- A query of an empty index only reads the root. -/
theorem accesses_tableFindByIdCondition_empty (hroot : m.root = none)
    (comparison : TableComparison) (id : Int) :
    (tableFindByIdCondition comparison id).accesses m ≤ 1 := by
  have hdescend : ∀ pick, (tableDescendFromRoot pick).run m = some (none, m) := fun pick => by
    rw [tableDescendFromRoot, run_bind_of (run_getRoot m), hroot]
    rfl
  -- the descent ends where it reads the root
  have hcost : ∀ pick, (tableDescendFromRoot pick).accesses m = 1 := fun pick => by
    rw [tableDescendFromRoot, accesses_bind_of (run_getRoot m), hroot]
    rfl
  have hfrom : ∀ skip, (tableCollectFrom id skip).accesses m ≤ 1 := fun skip => by
    rw [tableCollectFrom, tableFindIdLeaf, accesses_bind_of (hdescend _), hcost]
    exact le_rfl
  have hupTo : (tableCollectUpTo comparison id).accesses m ≤ 1 := by
    rw [tableCollectUpTo, tableFindLeftmostLeaf, accesses_bind_of (hdescend _), hcost,
      accesses_bind_of (run_countNodes m), accesses_countNodes]
    cases m.nodes.length <;> exact le_rfl
  -- every comparison is one of these
  unfold tableFindByIdCondition
  rw [accesses_map]
  cases comparison with
  | eq =>
    have hsearch : (bptreeSearch id).run m = some (none, m) :=
      Indexed.run_bptreeSearch (.inl ⟨hroot, rfl⟩) id
    dsimp only
    rw [tableCollectEq, tableFindById, accesses_bind_of hsearch, bptreeSearch, ← tableFindIdLeaf_eq,
      tableFindIdLeaf, accesses_bind_of (hdescend _), hcost]
    exact le_rfl
  | gt => exact hfrom _
  | ge => exact hfrom _
  | lt => exact hupTo
  | le => exact hupTo

/-- `table_find_by_id_condition` walks down the index once and then along the leaves of its
result. -/
theorem Indexed.accesses_tableFindByIdCondition_le (hm : Indexed m es) (hok : m.NoFailure)
    (comparison : TableComparison) (id : Int) :
    (tableFindByIdCondition comparison id).accesses m ≤
      Nat.log 2 es.length + 2 * (selectById comparison id es).length + 6 := by
  rcases hm with ⟨hnone, rfl⟩ | ⟨h, t, ht, rfl⟩
  · -- without a root one access is enough
    have hempty := accesses_tableFindByIdCondition_empty hnone comparison id
    omega
  · -- the descent costs the height, the chain one access for each row and one to stop
    have hlog := ht.height_le_log
    have hsorted := List.pairwise_map.mp ht.within.sorted
    unfold tableFindByIdCondition
    rw [accesses_map]
    cases comparison with
    | eq =>
      have := ht.accesses_tableCollectEq_le id
      dsimp only
      omega
    | gt =>
      have hcost := ht.accesses_tableCollectFrom_le hok id (tableSkipGt id) _
        (skipsOne_tableSkipGt id)
        fun ls index hls hlen hindex hsorted => run_tableSkipGt hls id hindex hsorted hlen
      have hkeep : ((t.toList.filter fun e => decide (id ≤ e.1)).filter fun e =>
          decide (id < e.1)) = t.toList.filter fun e => tableCompareInt e.1 .gt id := by
        rw [List.filter_filter]
        refine List.filter_congr fun e _ => ?_
        simpa [tableCompareInt] using fun h => le_of_lt h
      rw [hkeep] at hcost
      rw [selectById, List.length_map]
      dsimp only
      omega
    | ge =>
      have hcost := ht.accesses_tableCollectFrom_le hok id tableSkipGe (fun es => es)
        (skipsOne_tableSkipGe id)
        fun ls index hls hlen _ _ => run_tableSkipGe hls index hlen
      rw [selectById, List.length_map]
      dsimp only
      exact hcost.trans (by simp only [tableCompareInt, ge_iff_le]; omega)
    | lt =>
      have hcost := ht.accesses_tableCollectUpTo_le hok .lt id <|
        hsorted.imp fun hxy hy => decide_eq_true (lt_trans hxy (of_decide_eq_true hy))
      dsimp only
      omega
    | le =>
      have hcost := ht.accesses_tableCollectUpTo_le hok .le id <|
        hsorted.imp fun hxy hy => decide_eq_true (le_trans (le_of_lt hxy) (of_decide_eq_true hy))
      dsimp only
      omega

end ById

/-! ## Scans -/

section Scan

variable {m : Memory} {rows : Rows}

/-- A row costs two reads, and an allocation at most when it is in the result. -/
theorem HoldsRows.accesses_tableCollect (hm : HoldsRows m rows) (hok : m.NoFailure)
    (p : Record → Bool) (a : ResultArray) {index fuel : Nat} (hindex : index ≤ rows.length)
    (hfuel : rows.length < index + fuel) :
    2 * (rows.length - index) + 1 ≤ (tableCollect p fuel index a).accesses m ∧
      (tableCollect p fuel index a).accesses m ≤
        2 * (rows.length - index) + ((rows.drop index).filter fun row => p row.2).length + 1 := by
  induction fuel generalizing index a with
  | zero => omega
  | succ fuel ih =>
    rw [tableCollect, accesses_bind_of (run_getTable m), accesses_getTable, hm.size]
    by_cases hlt : index < rows.length
    · have hnext : index + 1 ≤ rows.length := hlt
      have hrow : rows[index]? = some rows[index] := List.getElem?_eq_getElem hlt
      -- the header was read for the loop condition, so the row pointer is at hand
      have hread : (m.table.row index).accesses m = 0 := by
        rw [Table.row, hm.slot hrow]
        rfl
      rw [if_pos hlt, accesses_bind_of (hm.run_row hrow), hread,
        accesses_bind_of (hm.run_getRecord (List.getElem_mem hlt)), accesses_getRecord,
        List.drop_eq_getElem_cons hlt, List.filter_cons]
      cases hp : p rows[index].2 with
      | true =>
        -- the row joins the result, which may have to grow for it
        obtain ⟨c, happend⟩ := run_tableAppendRecord hok a rows[index].1
        have hcost := accesses_tableAppendRecord_le (m := m) a rows[index].1
        obtain ⟨hge, hle⟩ := ih ⟨a.records ++ [rows[index].1], c⟩ hnext (by omega)
        rw [if_pos rfl, if_pos rfl, accesses_bind_of happend, List.length_cons]
        dsimp only
        omega
      | false =>
        obtain ⟨hge, hle⟩ := ih a hnext (by omega)
        rw [if_neg Bool.false_ne_true, if_neg Bool.false_ne_true]
        omega
    · rw [if_neg hlt, accesses_pure]
      omega

/-- `table_find_by_name_matches` and `table_find_by_age_condition` read every row. -/
theorem HoldsRows.accesses_tableCollectMatches (hm : HoldsRows m rows) (hok : m.NoFailure)
    (p : Record → Bool) :
    2 * rows.length + 2 ≤ (tableCollectMatches p).accesses m ∧
      (tableCollectMatches p).accesses m ≤
        2 * rows.length + (rows.filter fun row => p row.2).length + 2 := by
  obtain ⟨hge, hle⟩ := hm.accesses_tableCollect hok p ⟨[], 0⟩ (Nat.zero_le _)
    (by omega : rows.length < 0 + (rows.length + 1))
  rw [List.drop_zero] at hle
  rw [tableCollectMatches, accesses_bind_of (run_getTable m), accesses_getTable, hm.size,
    accesses_map]
  omega

end Scan

/-! ## SELECT -/

/-- What a SELECT may cost on a table of `size` rows, of which it returns `found`. -/
def SqlSelect.Cost (size found accesses : Nat) : SqlSelect → Prop
  | .all => accesses ≤ 2
  | .byId _ _ => accesses ≤ Nat.log 2 size + 2 * found + 6
  | .byName _ | .byAge _ _ => 2 * size + 2 ≤ accesses ∧ accesses ≤ 2 * size + found + 2

section Select

variable {m : Memory} {rows : Rows}

theorem accesses_derefAll (ps : List RecPtr) : (derefAll (ps.map some)).accesses m = 0 := by
  induction ps with
  | nil => rfl
  | cons p ps ih =>
    rw [List.map_cons, derefAll, accesses_bind_of (run_deref_some m p),
      accesses_bind_of (run_derefAll ps), ih]
    rfl

/-- `table_collect_all` copies the row array. -/
theorem HoldsRows.accesses_tableCollectAll_le (hm : HoldsRows m rows) (hok : m.NoFailure) :
    tableCollectAll.accesses m ≤ 2 := by
  rw [tableCollectAll, accesses_bind_of (run_getTable m), accesses_getTable, hm.size,
    tableCopyRecords]
  split
  · -- nothing to copy
    exact Nat.le_succ 1
  · have hslots : m.table.rows.take rows.length = (rows.map Prod.fst).map some := by
      rw [hm.slots, List.map_map]
      rfl
    rw [accesses_bind_of (run_malloc_of hok), accesses_malloc, if_pos rfl, hslots,
      accesses_bind_of (run_derefAll _), accesses_derefAll]
    exact le_rfl

/-- What the table operations of a SELECT cost. -/
theorem TableInv.accesses_select (hm : TableInv m rows) (hok : m.NoFailure) (select : SqlSelect) :
    select.Cost rows.length (rows.filter fun row => select.selects row.2).length
      (select.exec.accesses m) := by
  cases select with
  | all =>
    rw [SqlSelect.exec, accesses_map]
    exact hm.accesses_tableCollectAll_le hok
  | byId comparison id =>
    obtain ⟨es, hes, hperm⟩ := hm.index
    have hcost := hes.accesses_tableFindByIdCondition_le hok comparison id
    have hfound : (selectById comparison id es).length =
        (rows.filter fun row => (SqlSelect.byId comparison id).selects row.2).length := by
      rw [selectById, List.length_map, (hperm.filter _).length_eq, Rows.entries, List.filter_map,
        List.length_map]
      rfl
    have hsize : es.length = rows.length := by
      rw [hperm.length_eq, Rows.entries, List.length_map]
    rw [SqlSelect.exec, accesses_map]
    rwa [hfound, hsize] at hcost
  | byName name =>
    rw [SqlSelect.exec, accesses_map]
    exact hm.accesses_tableCollectMatches hok (Record.hasName name)
  | byAge comparison age =>
    rw [SqlSelect.exec, accesses_map]
    exact hm.accesses_tableCollectMatches hok fun r => tableCompareInt r.age comparison age

/-- On every table and every text that is a SELECT: a condition on the id costs a logarithm of
the table and twice the result, a condition on name or age reads the whole table. -/
theorem sqlExecute_select_cost (hm : InsertedTable m) {text : List UInt8} {select : SqlSelect}
    (htext : sqlParse text = .ok (.select select)) :
    ∃ result, (sqlExecute text).run m = some (result, m) ∧
      select.Cost m.table.size result.rowCount ((sqlExecute text).accesses m) := by
  obtain ⟨hok, rows, hinv⟩ := hm.inv
  obtain ⟨found, hrun, hperm, -⟩ := hinv.run_select hok select
  have hcost := hinv.accesses_select hok select
  have hexec : sqlExecute text = select.exec := by
    rw [sqlExecute_eq, htext]
    rfl
  refine ⟨_, hexec ▸ hrun, ?_⟩
  rw [hexec, hinv.size]
  rw [← hperm.length_eq] at hcost
  simpa [sqlSelectResult] using hcost

end Select

end SqlApi.Core

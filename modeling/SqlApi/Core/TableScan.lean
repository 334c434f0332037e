import SqlApi.Core.Table
import SqlApi.Core.BPTreeShape

/-!
# What the queries return

Each scan of `table.c` is characterised by the list it returns: linear scans
filter the rows, index scans filter the entries in key order. The memory stays as
it is; result arrays get all the memory they ask for.

Equality goes through the search of the index. The four inequalities start at a leaf and follow the
chain: from the first key that passes to the end, or from the leftmost leaf to the first key that
does not.
-/

namespace SqlApi.Core

open SqlApi.Lib

/-! ## Predicates that hold on a prefix -/

section Prefix

variable {α : Type} {P : α → Bool} {l : List α}

/-- A predicate that fails at the head and holds on a prefix fails everywhere. -/
private theorem filter_eq_nil_of_head {a : α}
    (hmono : (a :: l).Pairwise fun x y => P y = true → P x = true) (ha : P a = false) :
    l.filter P = [] := by
  rw [List.filter_eq_nil_iff]
  intro b hb hPb
  have := (List.pairwise_cons.mp hmono).1 b hb hPb
  simp [ha] at this

theorem takeWhile_eq_filter (hmono : l.Pairwise fun x y => P y = true → P x = true) :
    l.takeWhile P = l.filter P := by
  induction l with
  | nil => rfl
  | cons a l ih =>
    have hrest := (List.pairwise_cons.mp hmono).2
    cases ha : P a with
    | true => simp [ha, ih hrest]
    | false => simp [ha, filter_eq_nil_of_head hmono ha]

end Prefix

/-! ## Result arrays -/

section Arrays

variable {m : Memory}

theorem run_malloc_of (hm : m.NoFailure) : malloc.run m = some (true, m) := by
  obtain ⟨nodes, root, records, table, allocs⟩ := m
  obtain rfl : allocs = [] := hm
  rfl

theorem run_tableAppendRecord (hm : m.NoFailure) (a : ResultArray) (record : RecPtr) :
    ∃ capacity, (tableAppendRecord a record).run m =
      some (some ⟨a.records ++ [record], capacity⟩, m) := by
  unfold tableAppendRecord
  by_cases hroom : a.records.length < a.capacity
  · exact ⟨a.capacity, by rw [if_pos hroom]; rfl⟩
  · refine ⟨grownCapacity a.capacity, ?_⟩
    rw [if_neg hroom, run_bind_of (run_malloc_of hm)]
    rfl

theorem run_derefAll (ps : List RecPtr) : (derefAll (ps.map some)).run m = some (ps, m) := by
  induction ps with
  | nil => rfl
  | cons p ps ih =>
    rw [List.map_cons, derefAll, run_bind_of (run_deref_some m p), run_bind_of ih]
    rfl

theorem run_tableAppendValues (hm : m.NoFailure) (a : ResultArray) (ps : List RecPtr) :
    ∃ capacity, (tableAppendValues a (ps.map some)).run m =
      some (some ⟨a.records ++ ps, capacity⟩, m) := by
  induction ps generalizing a with
  | nil => exact ⟨a.capacity, by simp [tableAppendValues]⟩
  | cons p ps ih =>
    obtain ⟨c₁, hfirst⟩ := run_tableAppendRecord hm a p
    obtain ⟨c₂, hrest⟩ := ih ⟨a.records ++ [p], c₁⟩
    refine ⟨c₂, ?_⟩
    rw [List.map_cons, tableAppendValues, run_bind_of (run_deref_some m p), run_bind_of hfirst]
    dsimp only
    rw [hrest]
    simp

end Arrays

/-! ## The leaf chain -/

section Chain

variable {m : Memory} {ls : List (Leaf NodePtr Int RecPtr)}

/-- The entries from slot `index` of the first leaf to the end of the chain. -/
def remaining (index : Nat) : List (Leaf NodePtr Int RecPtr) → List (Int × RecPtr)
  | [] => []
  | l :: rest => l.entries.drop index ++ rest.flatMap Leaf.entries

theorem remaining_zero (ls : List (Leaf NodePtr Int RecPtr)) :
    remaining 0 ls = ls.flatMap Leaf.entries := by
  cases ls <;> rfl

theorem values_of_leaf {n : BPTreeNode} {parent next : Option NodePtr}
    {es : List (Int × RecPtr)} (hn : LeafNode n parent next es) :
    n.values.toList.take n.numKeys = (es.map Prod.snd).map some := by
  have h : n.values.toList.take n.numKeys = _ := hn.values
  rw [h, List.map_map]
  rfl

theorem pairs_of_leaf {n : BPTreeNode} {parent next : Option NodePtr}
    {es : List (Int × RecPtr)} (hn : LeafNode n parent next es) :
    (n.keys.toList.zip n.values.toList).take n.numKeys = es.map fun e => (e.1, some e.2) := by
  have hkeys : n.keys.toList.take n.numKeys = _ := hn.keys
  have hvalues : n.values.toList.take n.numKeys = _ := hn.values
  rw [List.zip, List.take_zipWith, hkeys, hvalues, ← List.zip, List.zip_map']

/-- `table_collect_leaf_chain` -/
theorem run_tableCollectLeafChain (hm : m.NoFailure) (hls : LinkedLeaves m.nodes none ls)
    (index : Nat) (a : ResultArray) {fuel : Nat} (hfuel : ls.length ≤ fuel) :
    ∃ capacity, (tableCollectLeafChain fuel (leafAfter none ls) index a).run m =
      some (some ⟨a.records ++ (remaining index ls).map Prod.snd, capacity⟩, m) := by
  induction ls generalizing fuel index a with
  | nil => exact ⟨a.capacity, by cases fuel <;> simp [tableCollectLeafChain, leafAfter, remaining]⟩
  | cons l rest ih =>
    obtain ⟨⟨n, parent, hn, hleaf⟩, hrest⟩ := hls
    obtain ⟨fuel, rfl⟩ : ∃ f, fuel = f + 1 := ⟨fuel - 1, by simp at hfuel; omega⟩
    obtain ⟨c₁, hfirst⟩ :=
      run_tableAppendValues hm a ((l.entries.drop index).map Prod.snd)
    obtain ⟨c₂, hchain⟩ := ih hrest 0 ⟨a.records ++ (l.entries.drop index).map Prod.snd, c₁⟩
      (by simpa using hfuel)
    refine ⟨c₂, ?_⟩
    rw [leafAfter, tableCollectLeafChain, run_bind_of (run_getNode_of m hn), values_of_leaf hleaf,
      ← List.map_drop, ← List.map_drop, run_bind_of hfirst]
    dsimp only
    rw [hleaf.next, hchain, remaining_zero, remaining]
    simp

/-- The inner loop of the scan from the leftmost leaf. -/
theorem run_tableAppendWhile (hm : m.NoFailure) (comparison : TableComparison) (id : Int)
    (a : ResultArray) (es : List (Int × RecPtr)) :
    ∃ capacity, (tableAppendWhile comparison id a (es.map fun e => (e.1, some e.2))).run m =
      some (some (!(es.all fun e => tableCompareInt e.1 comparison id),
        ⟨a.records ++ (es.takeWhile fun e => tableCompareInt e.1 comparison id).map Prod.snd,
          capacity⟩), m) := by
  induction es generalizing a with
  | nil => exact ⟨a.capacity, by simp [tableAppendWhile]⟩
  | cons e es ih =>
    cases hcmp : tableCompareInt e.1 comparison id with
    | false => exact ⟨a.capacity, by simp [tableAppendWhile, hcmp]⟩
    | true =>
      obtain ⟨c₁, hfirst⟩ := run_tableAppendRecord hm a e.2
      obtain ⟨c₂, hrest⟩ := ih ⟨a.records ++ [e.2], c₁⟩
      refine ⟨c₂, ?_⟩
      rw [List.map_cons, tableAppendWhile, if_pos hcmp, run_bind_of (run_deref_some m e.2),
        run_bind_of hfirst]
      dsimp only
      rw [hrest]
      simp [hcmp]

/-- The scan from a leaf up to the first key that fails. -/
theorem run_tableCollectWhile (hm : m.NoFailure) (hls : LinkedLeaves m.nodes none ls)
    (comparison : TableComparison) (id : Int) (a : ResultArray) {fuel : Nat}
    (hfuel : ls.length ≤ fuel) :
    ∃ capacity, (tableCollectWhile comparison id fuel (leafAfter none ls) a).run m =
      some (some ⟨a.records ++ ((ls.flatMap Leaf.entries).takeWhile fun e =>
        tableCompareInt e.1 comparison id).map Prod.snd, capacity⟩, m) := by
  induction ls generalizing fuel a with
  | nil => exact ⟨a.capacity, by cases fuel <;> simp [tableCollectWhile, leafAfter]⟩
  | cons l rest ih =>
    obtain ⟨⟨n, parent, hn, hleaf⟩, hrest⟩ := hls
    obtain ⟨fuel, rfl⟩ : ∃ f, fuel = f + 1 := ⟨fuel - 1, by simp at hfuel; omega⟩
    obtain ⟨c₁, hfirst⟩ := run_tableAppendWhile hm comparison id a l.entries
    rw [leafAfter, tableCollectWhile, run_bind_of (run_getNode_of m hn), pairs_of_leaf hleaf,
      run_bind_of hfirst, List.flatMap_cons, List.takeWhile_append]
    -- the scan goes on to the next leaf if it has taken all of this one
    cases hall : l.entries.all fun e => tableCompareInt e.1 comparison id with
    | false =>
      have hlen : ¬ (l.entries.takeWhile fun e => tableCompareInt e.1 comparison id).length =
          l.entries.length := by
        intro h
        have hself := (List.takeWhile_prefix fun e : Int × RecPtr =>
          tableCompareInt e.1 comparison id).eq_of_length h
        rw [List.takeWhile_eq_self_iff] at hself
        rw [List.all_eq_true.mpr hself] at hall
        cases hall
      refine ⟨c₁, ?_⟩
      rw [if_neg hlen]
      rfl
    | true =>
      have hself : (l.entries.takeWhile fun e => tableCompareInt e.1 comparison id) = l.entries :=
        List.takeWhile_eq_self_iff.mpr (List.all_eq_true.mp hall)
      obtain ⟨c₂, hchain⟩ := ih hrest ⟨a.records ++ l.entries.map Prod.snd, c₁⟩
        (by simpa using hfuel)
      refine ⟨c₂, ?_⟩
      rw [hself, if_pos rfl]
      simp only [Bool.not_true]
      rw [hleaf.next, hchain]
      simp

/-- Where the skip loop for `>` stops in a leaf: after the keys not above the
bound. -/
private theorem skip_index {n : BPTreeNode} {parent next : Option NodePtr}
    {first skipped tail : List (Int × RecPtr)}
    (hn : LeafNode n parent next (first ++ (skipped ++ tail))) {id : Int}
    (hskipped : ∀ e ∈ skipped, e.1 ≤ id) (htail : ∀ e ∈ tail.head?, id < e.1) :
    firstIndexFrom (fun i => decide (n.keys[i]! ≤ id)) (n.numKeys - first.length) first.length =
      first.length + skipped.length := by
  have hkeys : n.keys.toList.take n.numKeys = _ := hn.keys
  have hcount := hn.numKeys
  rw [List.length_append, List.length_append] at hcount
  -- the slots of the array are the entries
  have hget : ∀ (j : Nat) (k : Int), (first ++ (skipped ++ tail))[j]?.map Prod.fst = some k →
      n.keys[j]! = k := by
    intro j k hjk
    have hj : (n.keys.toList.take n.numKeys)[j]? = some k := by
      rw [hkeys, List.getElem?_map]
      exact hjk
    exact getElem!_used hj
  refine firstIndexFrom_eq (by omega) (by omega) (fun j hj hj' => ?_) (fun hlt => ?_)
  · -- a slot passed
    have hlt : j - first.length < skipped.length := by omega
    rw [hget j skipped[j - first.length].1 (by
      rw [List.getElem?_append_right hj, List.getElem?_append_left hlt]
      simp [hlt])]
    exact decide_eq_true (hskipped _ (List.getElem_mem hlt))
  · -- the slot where it stops
    obtain ⟨e, rest, rfl⟩ : ∃ e rest, tail = e :: rest :=
      List.exists_cons_of_length_pos (by omega)
    rw [hget (first.length + skipped.length) e.1 (by simp)]
    exact decide_eq_false (not_le.mpr (htail e (by simp)))

/-- The skip loop for `>` drops the entries that are not above the bound. -/
theorem run_tableSkipGt (hls : LinkedLeaves m.nodes none ls) (id : Int) {index : Nat}
    (hindex : ∀ l ∈ ls.head?, index ≤ l.entries.length)
    (hsorted : ((remaining index ls).map Prod.fst).Pairwise (· < ·)) {fuel : Nat}
    (hfuel : ls.length ≤ fuel) :
    ∃ ls' index', ls' <:+ ls ∧ LinkedLeaves m.nodes none ls' ∧
      (tableSkipGt id fuel (leafAfter none ls) index).run m =
        some ((leafAfter none ls').map fun leaf => (leaf, index'), m) ∧
      remaining index' ls' = (remaining index ls).filter fun e => decide (id < e.1) := by
  induction ls generalizing fuel index with
  | nil => exact ⟨[], 0, List.suffix_rfl, trivial, by cases fuel <;> simp [tableSkipGt, leafAfter], rfl⟩
  | cons l rest ih =>
    obtain ⟨⟨n, parent, hn, hleaf⟩, hrest⟩ := hls
    obtain ⟨fuel, rfl⟩ : ∃ f, fuel = f + 1 := ⟨fuel - 1, by simp at hfuel; omega⟩
    have hle : index ≤ l.entries.length := hindex l (by simp)
    -- the leaf: what the loop has passed before, what it skips, what is left
    have hsplit : l.entries = l.entries.take index ++
        ((l.entries.drop index).takeWhile (fun e => decide (e.1 ≤ id)) ++
          (l.entries.drop index).dropWhile fun e => decide (e.1 ≤ id)) := by
      rw [List.takeWhile_append_dropWhile, List.take_append_drop]
    set skipped := (l.entries.drop index).takeWhile fun e => decide (e.1 ≤ id) with hskipped
    set tail := (l.entries.drop index).dropWhile fun e => decide (e.1 ≤ id) with htail
    have hfirst : (l.entries.take index).length = index := by simp [hle]
    have hbelow : ∀ e ∈ skipped, e.1 ≤ id := fun e he => by
      simpa using List.mem_takeWhile_imp he
    have habove : ∀ e ∈ tail.head?, id < e.1 := fun e he => by
      have hhead := List.head?_dropWhile_not (fun e : Int × RecPtr => decide (e.1 ≤ id))
        (l.entries.drop index)
      rw [← htail, Option.mem_def.mp he] at hhead
      simpa using hhead
    have hleaf' := hleaf
    rw [hsplit] at hleaf'
    have hstop := skip_index hleaf' hbelow habove
    rw [hfirst] at hstop
    have hdrop : l.entries.drop index = skipped ++ tail := by
      rw [hskipped, htail, List.takeWhile_append_dropWhile]
    have hnone : skipped.filter (fun e => decide (id < e.1)) = [] := by
      rw [List.filter_eq_nil_iff]
      intro e he
      simpa using hbelow e he
    have hcount : n.numKeys = index + skipped.length + tail.length := by
      rw [hleaf'.numKeys, List.length_append, List.length_append, hfirst]
      omega
    rw [remaining, hdrop, List.append_assoc] at hsorted
    rw [remaining, hdrop, List.append_assoc, List.filter_append, hnone, List.nil_append,
      leafAfter, tableSkipGt, run_bind_of (run_getNode_of m hn), hstop]
    by_cases hroom : index + skipped.length < n.numKeys
    · refine ⟨l :: rest, index + skipped.length, List.suffix_rfl, ⟨⟨n, parent, hn, hleaf⟩, hrest⟩, ?_, ?_⟩
      · dsimp only
        rw [if_pos hroom]
        rfl
      · have htail' : l.entries.drop (index + skipped.length) = tail := by
          rw [← List.drop_drop, hdrop, List.drop_left]
        obtain ⟨e, es, hcons⟩ : ∃ e es, tail = e :: es :=
          List.exists_cons_of_length_pos (by omega)
        -- the first key left is above the bound, and the others are above it
        have hall : ∀ f ∈ tail ++ rest.flatMap Leaf.entries, id < f.1 := by
          intro f hf
          have he : id < e.1 := habove e (by simp [hcons])
          rw [hcons, List.cons_append] at hf hsorted
          rw [List.map_append, List.map_cons, List.pairwise_append] at hsorted
          rcases List.mem_cons.mp hf with rfl | hf
          · exact he
          · exact he.trans ((List.pairwise_cons.mp hsorted.2.1).1 f.1 (List.mem_map_of_mem hf))
        rw [remaining, htail', eq_comm, List.filter_eq_self]
        simpa using hall
    · have hnil : tail = [] := List.eq_nil_of_length_eq_zero (by omega)
      rw [hnil, List.nil_append] at hsorted
      rw [List.map_append, List.pairwise_append, ← remaining_zero] at hsorted
      obtain ⟨ls', index', hsuffix, hls', hrun, hrem⟩ := ih hrest (fun _ _ => Nat.zero_le _) hsorted.2.1
        (by simpa using hfuel)
      refine ⟨ls', index', hsuffix.trans (List.suffix_cons l rest), hls', ?_, ?_⟩
      · dsimp only
        rw [if_neg hroom, hleaf.next, hrun]
      · rw [hrem, hnil, List.nil_append, remaining_zero]

/-- The skip loop for `>=` drops no entry. -/
theorem run_tableSkipGe (hls : LinkedLeaves m.nodes none ls) (index : Nat) {fuel : Nat}
    (hfuel : ls.length ≤ fuel) :
    ∃ ls' index', ls' <:+ ls ∧ LinkedLeaves m.nodes none ls' ∧
      (tableSkipGe fuel (leafAfter none ls) index).run m =
        some ((leafAfter none ls').map fun leaf => (leaf, index'), m) ∧
      remaining index' ls' = remaining index ls := by
  induction ls generalizing fuel index with
  | nil => exact ⟨[], 0, List.suffix_rfl, trivial, by cases fuel <;> simp [tableSkipGe, leafAfter], rfl⟩
  | cons l rest ih =>
    obtain ⟨⟨n, parent, hn, hleaf⟩, hrest⟩ := hls
    obtain ⟨fuel, rfl⟩ : ∃ f, fuel = f + 1 := ⟨fuel - 1, by simp at hfuel; omega⟩
    rw [leafAfter, tableSkipGe, run_bind_of (run_getNode_of m hn), hleaf.numKeys]
    by_cases hpast : index ≥ l.entries.length
    · obtain ⟨ls', index', hsuffix, hls', hrun, hrem⟩ := ih hrest 0 (by simpa using hfuel)
      refine ⟨ls', index', hsuffix.trans (List.suffix_cons l rest), hls', ?_, ?_⟩
      · rw [if_pos hpast, hleaf.next, hrun]
      · rw [hrem, remaining_zero, remaining, List.drop_eq_nil_of_le hpast, List.nil_append]
    · refine ⟨l :: rest, index, List.suffix_rfl, ⟨⟨n, parent, hn, hleaf⟩, hrest⟩, ?_, rfl⟩
      rw [if_neg hpast]
      rfl

end Chain

/-! ## Descents -/

section Descent

variable {m : Memory} {h : Nat} {t : IndexTree h}

/-- The descent of `table_find_id_leaf` is the one of `bptree_find_leaf`. -/
theorem tableDescend_id_eq (id : Int) (fuel : Nat) (node : NodePtr) :
    tableDescend (fun n => firstIndex n.numKeys fun i => decide (id ≥ n.keys[i]!)) fuel node =
      bptreeDescend id fuel node := by
  induction fuel generalizing node with
  | zero => rfl
  | succ fuel ih => simp only [tableDescend, bptreeDescend, ih, BPTreeNode.childIndex, ge_iff_le]

/-- `table_find_id_leaf` -/
theorem IsIndex.run_tableFindIdLeaf (ht : IsIndex m t) (id : Int) :
    (tableFindIdLeaf id).run m = some (some (t.leafFor id).addr, m) := by
  have hdescend := run_bptreeDescend ht.rep id (ht.rep.height_lt ht.nodup)
  rw [← tableDescend_id_eq] at hdescend
  rw [tableFindIdLeaf, tableDescendFromRoot, run_bind_of (run_getRoot m), ht.root]
  dsimp only
  rw [run_bind_of (run_countNodes m), run_bind_of hdescend]
  rfl

theorem Rep.run_tableDescend_zero {parent out : Option NodePtr} (ht : Rep m.nodes parent out t)
    {fuel : Nat} (hfuel : h < fuel) :
    (tableDescend (fun _ => 0) fuel t.addr).run m = some (t.firstLeaf.addr, m) := by
  obtain ⟨fuel, rfl⟩ : ∃ f, fuel = f + 1 := ⟨fuel - 1, by omega⟩
  induction t using Tree.induction generalizing parent out fuel with
  | hleaf a es =>
    obtain ⟨n, hn, hleaf⟩ := rep_leaf.mp ht
    simp [tableDescend, hn, hleaf.isLeaf]
  | hnode h a c ih =>
    obtain ⟨n, hn, hinner, hkids⟩ := rep_node.mp ht
    obtain ⟨fuel, rfl⟩ : ∃ f, fuel = f + 1 := ⟨fuel - 1, by omega⟩
    obtain ⟨ts, hts⟩ := c.trees_eq_head_cons
    have hmem : c.head ∈ c.trees := by simp [hts]
    obtain ⟨o, hrep⟩ := hkids.of_mem hmem
    have hchild : n.children[0]! = some c.head.addr := by
      have hchildren : n.children.toList.take (n.numKeys + 1) = _ := hinner.children
      have hget : (n.children.toList.take (n.numKeys + 1))[0]? = some (some c.head.addr) := by
        rw [hchildren, hts]
        rfl
      exact getElem!_used hget
    have hrec := ih _ hmem hrep fuel (by omega)
    rw [Tree.addr_node, tableDescend, run_bind_of (run_getNode_of m hn),
      if_neg (by simp [hinner.isLeaf]), hchild, run_bind_of (run_deref_some m _), hrec]
    rfl

/-- `table_find_leftmost_leaf` -/
theorem IsIndex.run_tableFindLeftmostLeaf (ht : IsIndex m t) :
    tableFindLeftmostLeaf.run m = some (some t.firstLeaf.addr, m) := by
  have hdescend := ht.rep.run_tableDescend_zero (ht.rep.height_lt ht.nodup)
  rw [tableFindLeftmostLeaf, tableDescendFromRoot, run_bind_of (run_getRoot m), ht.root]
  dsimp only
  rw [run_bind_of (run_countNodes m), run_bind_of hdescend]
  rfl

end Descent

/-! ## Queries by id -/

section ById

variable {m : Memory} {es : List (Int × RecPtr)}

/-- The entries a comparison with the key selects, as result records. -/
def selectById (comparison : TableComparison) (id : Int) (es : List (Int × RecPtr)) :
    List RecPtr :=
  (es.filter fun e => tableCompareInt e.1 comparison id).map Prod.snd

private theorem filter_eq_lookup {es : List (Int × RecPtr)}
    (hes : (es.map Prod.fst).Pairwise (· < ·)) (id : Int) :
    (es.filter fun e => decide (e.1 = id)).map Prod.snd = (es.lookup id).toList := by
  induction es with
  | nil => rfl
  | cons e es ih =>
    obtain ⟨k, v⟩ := e
    obtain ⟨hk, hrest⟩ := List.pairwise_cons.mp hes
    rw [Tree.lookup_cons_pair]
    by_cases heq : id = k
    · subst heq
      have hnil : es.filter (fun e => decide (e.1 = id)) = [] := by
        rw [List.filter_eq_nil_iff]
        intro e he
        have hlt := hk e.1 (List.mem_map_of_mem he)
        simpa using hlt.ne'
      simp [hnil]
    · have hne : ¬ k = id := fun h => heq h.symm
      simp [hne, heq, ih hrest]

private theorem drop_entriesBelow {es : List (Int × RecPtr)}
    (hes : (es.map Prod.fst).Pairwise (· < ·)) (id : Int) :
    es.drop (entriesBelow id es) = es.filter fun e => decide (id ≤ e.1) := by
  induction es with
  | nil => rfl
  | cons e es ih =>
    obtain ⟨hfirst, hrest⟩ := List.pairwise_cons.mp hes
    by_cases hle : id ≤ e.1
    · have hzero : entriesBelow id (e :: es) = 0 := by simp [entriesBelow, List.findIdx_cons, hle]
      have hall : ∀ f ∈ e :: es, id ≤ f.1 := by
        intro f hf
        rcases List.mem_cons.mp hf with rfl | hf
        · exact hle
        · exact hle.trans (hfirst f.1 (List.mem_map_of_mem hf)).le
      rw [hzero, List.drop_zero, eq_comm, List.filter_eq_self]
      simpa using hall
    · have hsucc : entriesBelow id (e :: es) = entriesBelow id es + 1 := by
        simp [entriesBelow, List.findIdx_cons, hle]
      rw [hsucc, List.drop_succ_cons, ih hrest]
      simp [hle]

/-- Where `table_find_by_id_condition` starts for `>` and `>=`: the chain from
there holds the entries whose key is not below the bound, behind its first leaf only
such above it. -/
theorem IsIndex.exists_chain {h : Nat} {t : IndexTree h} (ht : IsIndex m t) (id : Int) :
    ∃ ls, LinkedLeaves m.nodes none (t.leafFor id :: ls) ∧
      (t.leafFor id :: ls).length ≤ m.nodes.length ∧ ls ⊆ t.leaves ∧
      (∀ e ∈ ls.flatMap Leaf.entries, id < e.1) ∧
      remaining (entriesBelow id (t.leafFor id).entries) (t.leafFor id :: ls) =
        t.toList.filter fun e => decide (id ≤ e.1) := by
  obtain ⟨pre, post, hleaves, hpre, hpost⟩ :=
    ht.within.leafFor_split bot_le (WithTop.coe_lt_top id)
  have hlinked := ht.rep.linkedLeaves
  have hlength := ht.length_leaves_le
  have hsorted := ht.within.sorted
  rw [Tree.toList_eq_flatMap_leaves] at hsorted ⊢
  rw [hleaves] at hlinked hlength hsorted ⊢
  rw [List.length_append] at hlength
  rw [List.flatMap_append, List.flatMap_cons, List.map_append, List.map_append,
    List.pairwise_append, List.pairwise_append] at hsorted
  refine ⟨post, (linkedLeaves_append.mp hlinked).2, by omega, fun l hl => by simp [hl], hpost, ?_⟩
  -- the leaves before have smaller keys only
  have hnone : (pre.flatMap Leaf.entries).filter (fun e => decide (id ≤ e.1)) = [] := by
    rw [List.filter_eq_nil_iff]
    intro e he
    simpa using hpre e he
  -- those after it have greater keys only
  have hall : (post.flatMap Leaf.entries).filter (fun e => decide (id ≤ e.1)) =
      post.flatMap Leaf.entries := by
    rw [List.filter_eq_self]
    intro e he
    simpa using (hpost e he).le
  rw [List.flatMap_append, List.flatMap_cons, List.filter_append, List.filter_append, hnone, hall,
    remaining, drop_entriesBelow hsorted.2.1.1, List.nil_append]

/-- The scan for `>` and `>=`, for a skip loop that leaves the entries `keep`. -/
theorem IsIndex.run_tableCollectFrom {h : Nat} {t : IndexTree h} (ht : IsIndex m t)
    (hok : m.NoFailure) (id : Int)
    (skip : Nat → Option NodePtr → Nat → Prog (Option (NodePtr × Nat)))
    (keep : List (Int × RecPtr) → List (Int × RecPtr))
    (hskip : ∀ ls index, LinkedLeaves m.nodes none ls → ls.length ≤ m.nodes.length →
      (∀ l ∈ ls.head?, index ≤ l.entries.length) →
      ((remaining index ls).map Prod.fst).Pairwise (· < ·) →
      ∃ ls' index', ls' <:+ ls ∧ LinkedLeaves m.nodes none ls' ∧
        (skip m.nodes.length (leafAfter none ls) index).run m =
          some ((leafAfter none ls').map fun leaf => (leaf, index'), m) ∧
        remaining index' ls' = keep (remaining index ls)) :
    ∃ capacity, (tableCollectFrom id skip).run m = some (some
      ⟨(keep (t.toList.filter fun e => decide (id ≤ e.1))).map Prod.snd, capacity⟩, m) := by
  obtain ⟨n, parent, next, hn, hleaf⟩ := ht.rep.leafNode (t.leafFor_mem_leaves id)
  obtain ⟨ls, hls, hlen, -, -, hrem⟩ := ht.exists_chain id
  have hstart : tableFindInsertIndex n.keys n.numKeys id =
      entriesBelow id (t.leafFor id).entries := hleaf.findInsertIndex_eq id
  have hsorted : ((t.toList.filter fun e => decide (id ≤ e.1)).map Prod.fst).Pairwise (· < ·) :=
    ht.within.sorted.sublist (List.Sublist.map _ List.filter_sublist)
  have hbound : ∀ l ∈ (t.leafFor id :: ls).head?,
      entriesBelow id (t.leafFor id).entries ≤ l.entries.length := by
    intro l hl
    obtain rfl := Option.some.inj hl
    exact entriesBelow_le _ _
  -- the skip leads to a place in the same chain
  obtain ⟨ls', index', hsuffix, hls', hrun, hrem'⟩ :=
    hskip _ (entriesBelow id (t.leafFor id).entries) hls hlen hbound (hrem ▸ hsorted)
  rw [hrem] at hrem'
  rw [leafAfter] at hrun
  obtain ⟨capacity, hcollect⟩ := run_tableCollectLeafChain hok hls' index' ⟨[], 0⟩
    (hsuffix.length_le.trans hlen)
  unfold tableCollectFrom
  rw [run_bind_of (ht.run_tableFindIdLeaf id)]
  dsimp only
  rw [run_bind_of (run_getNode_of m hn), run_bind_of (run_countNodes m), hstart, run_bind_of hrun]
  -- nothing is left to collect, or the rest of the chain is
  cases ls' with
  | nil =>
    have hnil : keep (t.toList.filter fun e => decide (id ≤ e.1)) = [] := hrem'.symm
    exact ⟨0, by rw [hnil]; rfl⟩
  | cons l rest =>
    refine ⟨capacity, ?_⟩
    rw [← hrem']
    exact hcollect

/-- The scan for `<` and `<=`. -/
theorem IsIndex.run_tableCollectUpTo {h : Nat} {t : IndexTree h} (ht : IsIndex m t)
    (hok : m.NoFailure) (comparison : TableComparison) (id : Int)
    (hmono : t.toList.Pairwise fun x y =>
      tableCompareInt y.1 comparison id = true → tableCompareInt x.1 comparison id = true) :
    ∃ capacity, (tableCollectUpTo comparison id).run m =
      some (some ⟨selectById comparison id t.toList, capacity⟩, m) := by
  obtain ⟨capacity, hrun⟩ := run_tableCollectWhile hok ht.rep.linkedLeaves comparison id ⟨[], 0⟩
    ht.length_leaves_le
  refine ⟨capacity, ?_⟩
  rw [tableCollectUpTo, run_bind_of ht.run_tableFindLeftmostLeaf, run_bind_of (run_countNodes m),
    ← leafAfter_leaves t none, hrun, ← Tree.toList_eq_flatMap_leaves, takeWhile_eq_filter hmono]
  rfl

/-- The query for `=`. -/
theorem IsIndex.run_tableCollectEq {h : Nat} {t : IndexTree h} (ht : IsIndex m t)
    (hok : m.NoFailure) (id : Int) :
    ∃ capacity, (tableCollectEq id).run m =
      some (some ⟨selectById .eq id t.toList, capacity⟩, m) := by
  have hselect : selectById .eq id t.toList = (t.toList.lookup id).toList :=
    filter_eq_lookup ht.within.sorted id
  rw [hselect, tableCollectEq, tableFindById, run_bind_of (ht.run_bptreeSearch id)]
  cases t.toList.lookup id with
  | none => exact ⟨0, rfl⟩
  | some record => exact run_tableAppendRecord hok ⟨[], 0⟩ record

/-- `table_find_by_id_condition` returns exactly the entries whose key satisfies
the comparison, in key order. -/
theorem Indexed.run_tableFindByIdCondition (hm : Indexed m es) (hok : m.NoFailure)
    (comparison : TableComparison) (id : Int) :
    (tableFindByIdCondition comparison id).run m =
      some (some (selectById comparison id es), m) := by
  rcases hm with ⟨hnone, rfl⟩ | ⟨h, t, ht, rfl⟩
  · -- without a root every comparison finds nothing
    have hroot : ∀ pick, (tableDescendFromRoot pick).run m = some (none, m) := fun pick => by
      rw [tableDescendFromRoot, run_bind_of (run_getRoot m), hnone]
      rfl
    have hsearch : (bptreeSearch id).run m = some (none, m) :=
      Indexed.run_bptreeSearch (.inl ⟨hnone, rfl⟩) id
    cases comparison <;>
      simp [tableFindByIdCondition, tableCollectEq, tableFindById, tableCollectFrom,
        tableFindIdLeaf, tableCollectUpTo, tableFindLeftmostLeaf, tableCollectWhile, selectById,
        hroot, hsearch]
  · -- the keys are sorted, so a comparison is a part of the leaf chain
    have hsorted := List.pairwise_map.mp ht.within.sorted
    unfold tableFindByIdCondition
    cases comparison with
    | eq =>
      obtain ⟨capacity, hrun⟩ := ht.run_tableCollectEq hok id
      exact run_map_of hrun _
    | gt =>
      obtain ⟨capacity, hrun⟩ := ht.run_tableCollectFrom hok id (tableSkipGt id) _
        fun ls index hls hlen hindex hsorted => run_tableSkipGt hls id hindex hsorted hlen
      have hkeep : ((t.toList.filter fun e => decide (id ≤ e.1)).filter fun e =>
          decide (id < e.1)) = t.toList.filter fun e => tableCompareInt e.1 .gt id := by
        rw [List.filter_filter]
        refine List.filter_congr fun e _ => ?_
        simpa [tableCompareInt] using fun h => le_of_lt h
      rw [hkeep] at hrun
      exact run_map_of hrun _
    | ge =>
      obtain ⟨capacity, hrun⟩ := ht.run_tableCollectFrom hok id tableSkipGe (fun es => es)
        fun ls index hls hlen _ _ => run_tableSkipGe hls index hlen
      exact run_map_of hrun _
    | lt =>
      obtain ⟨capacity, hrun⟩ := ht.run_tableCollectUpTo hok .lt id <|
        hsorted.imp fun hxy hy => decide_eq_true (lt_trans hxy (of_decide_eq_true hy))
      exact run_map_of hrun _
    | le =>
      obtain ⟨capacity, hrun⟩ := ht.run_tableCollectUpTo hok .le id <|
        hsorted.imp fun hxy hy => decide_eq_true (le_trans (le_of_lt hxy) (of_decide_eq_true hy))
      exact run_map_of hrun _

end ById

end SqlApi.Core

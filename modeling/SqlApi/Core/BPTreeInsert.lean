import SqlApi.Core.BPTreeRep
import Mathlib.Data.List.InsertIdx

/-!
# Insertion on the heap refines insertion into the tree

`bptree_insert` goes down to a leaf and, after a split, climbs back through the
`parent` pointers. The tree's `insert` does the same by recursion. The proof
follows the tree: at each subtree, running the code from the leaf has updated
the subtree and is about to attach the chain that replaces it (`climb`), with
everything outside the subtree unchanged.

## The pieces

- `Memory.withNodes` is the memory behind the allocation of siblings and of a new root; the rest of
  the heap is the old one, so every lemma is about the nodes alone.
- A leaf takes the new entry or is cut in two; an internal node takes the chain that replaces one of
  its children or is cut in two. Each of the four cases is one lemma about the arrays of the node.
- The siblings beside the path are only given another neighbour or another parent, which `Rep` is
  insensitive to.
-/

namespace SqlApi.Core

open SqlApi.Lib

/-! ## Memory after node allocations -/

/-- The memory with other nodes, after `k` allocations. -/
def Memory.withNodes (m : Memory) (nodes : List BPTreeNode) (k : Nat) : Memory :=
  { m with nodes, allocs := m.allocs.drop k }

@[simp] theorem Memory.withNodes_nodes (m : Memory) (nodes : List BPTreeNode) (k : Nat) :
    (m.withNodes nodes k).nodes = nodes := rfl

@[simp] theorem Memory.withNodes_setNode (m : Memory) (nodes : List BPTreeNode) (k : Nat)
    (p : NodePtr) (n : BPTreeNode) :
    (m.withNodes nodes k).setNode p n = m.withNodes (nodes.set p n) k := rfl

@[simp] theorem Memory.withNodes_withNodes (m : Memory) (nodes nodes' : List BPTreeNode)
    (j k : Nat) : (m.withNodes nodes j).withNodes nodes' k = m.withNodes nodes' (j + k) := by
  simp [Memory.withNodes]

theorem Memory.setNode_eq_withNodes (m : Memory) (p : NodePtr) (n : BPTreeNode) :
    m.setNode p n = m.withNodes (m.nodes.set p n) 0 := rfl

theorem Memory.Granted.withNodes {m : Memory} {j k : Nat} (hm : m.Granted (j + k))
    (nodes : List BPTreeNode) : (m.withNodes nodes j).Granted k :=
  hm.drop rfl

/-- A node fresh from `bptree_create_node`. -/
def BPTreeNode.fresh (isLeaf : Bool) : BPTreeNode := { BPTreeNode.zero with isLeaf }

theorem run_bptreeCreateNode {m : Memory} (hm : m.Granted 1) (isLeaf : Bool) :
    (bptreeCreateNode isLeaf).run m =
      some (some m.nodes.length, m.withNodes (m.nodes ++ [.fresh isLeaf]) 1) := by
  have hcalloc : callocNode.run m =
      some (some m.nodes.length, m.withNodes (m.nodes ++ [.zero]) 1) := by
    rw [run_callocNode, Memory.Granted.takeAlloc hm]
    rfl
  have hnew : (m.withNodes (m.nodes ++ [.zero]) 1).nodes[m.nodes.length]? =
      some BPTreeNode.zero := by simp
  simp [bptreeCreateNode, hcalloc, run_modifyNode _ hnew, BPTreeNode.fresh]

/-! ## Leaves -/

section Leaf

variable {n : BPTreeNode} {parent next : Option NodePtr} {es : List (Int × RecPtr)} {key : Int}
  {value : RecPtr}

/-- How many entries are below the key. -/
def entriesBelow (key : Int) (es : List (Int × RecPtr)) : Nat :=
  es.findIdx fun e => decide (key ≤ e.1)

theorem entriesBelow_le (key : Int) (es : List (Int × RecPtr)) :
    entriesBelow key es ≤ es.length :=
  List.findIdx_le_length

/-- Sorted insertion is insertion at the index of the first key not below. -/
theorem insertEntry_eq_insertIdx (key : Int) (value : RecPtr) (es : List (Int × RecPtr)) :
    Tree.insertEntry key value es = es.insertIdx (entriesBelow key es) (key, value) := by
  induction es with
  | nil => rfl
  | cons e rest ih =>
    simp only [Tree.insertEntry, entriesBelow] at ih
    by_cases hle : key ≤ e.1
    · simp [Tree.insertEntry, entriesBelow, List.findIdx_cons, hle]
    · simp [Tree.insertEntry, entriesBelow, List.findIdx_cons, hle, ih]

/-- `bptree_find_insert_index` on a leaf. -/
theorem LeafNode.findInsertIndex_eq (hn : LeafNode n parent next es) (key : Int) :
    bptreeFindInsertIndex n.keys n.numKeys key = entriesBelow key es := by
  have hget : ∀ j (hj : j < es.length), n.keys[j]! = es[j].1 := by
    intro j hj
    have hkeys : n.keys.toList.take n.numKeys = es.map Prod.fst := hn.keys
    have hj' : (n.keys.toList.take n.numKeys)[j]? = some es[j].1 := by
      rw [hkeys]
      simp [hj]
    exact getElem!_used hj'
  have hle := entriesBelow_le key es
  refine firstIndex_eq (by rw [hn.numKeys]; exact hle) (fun j hj => ?_) (fun hlt => ?_)
  · have hbelow := List.not_of_lt_findIdx hj
    rw [hget j (by omega)]
    simpa using hbelow
  · rw [hn.numKeys] at hlt
    have hat := List.findIdx_getElem (w := hlt)
    rw [hget _ hlt]
    exact decide_eq_false (not_lt.mpr (of_decide_eq_true hat))

/-- What `bptree_insert_into_leaf` does to either array of the leaf. -/
private theorem used_insertEntry {β : Type} [Inhabited β] {array : Vector β bptreeMaxKeys} {count : Nat}
    {f : Int × RecPtr → β} (hcount : count = es.length) (hroom : es.length < bptreeMaxKeys)
    (hused : array.toList.take count = es.map f) :
    ((shiftUp (entriesBelow key es) array count).setIfInBounds (entriesBelow key es)
        (f (key, value))).toList.take (count + 1) = (Tree.insertEntry key value es).map f := by
  have hpos : entriesBelow key es ≤ count := by
    rw [hcount]
    exact entriesBelow_le _ _
  have hlt : count < bptreeMaxKeys := by
    rw [hcount]
    exact hroom
  have h := used_shiftUp array hpos hlt (f (key, value))
  rw [hused] at h
  rw [insertEntry_eq_insertIdx, List.map_insertIdx]
  exact h

/-- A leaf after `bptree_insert_into_leaf`. -/
theorem LeafNode.insert (hn : LeafNode n parent next es) (hroom : es.length < bptreeMaxKeys) :
    LeafNode { n with
        keys := (shiftUp (entriesBelow key es) n.keys n.numKeys).setIfInBounds
          (entriesBelow key es) key
        values := (shiftUp (entriesBelow key es) n.values n.numKeys).setIfInBounds
          (entriesBelow key es) (some value)
        numKeys := n.numKeys + 1 }
      parent next (Tree.insertEntry key value es) where
  isLeaf := hn.isLeaf
  numKeys := by simp [Tree.length_insertEntry, hn.numKeys]
  keys := used_insertEntry hn.numKeys hroom hn.keys
  values := used_insertEntry hn.numKeys hroom hn.values
  parent := hn.parent
  next := hn.next

/-- `bptree_insert_into_leaf` on a leaf with room. -/
theorem run_bptreeInsertIntoLeaf {m : Memory} {leaf : NodePtr} (hget : m.nodes[leaf]? = some n)
    (hn : LeafNode n parent next es) (hroom : es.length < bptreeMaxKeys) (key : Int)
    (value : RecPtr) :
    ∃ n', LeafNode n' parent next (Tree.insertEntry key value es) ∧
      (bptreeInsertIntoLeaf leaf key value).run m = some ((), m.setNode leaf n') := by
  have hlt : leaf < m.nodes.length := (List.getElem?_eq_some_iff.mp hget).1
  refine ⟨_, hn.insert hroom, ?_⟩
  rw [bptreeInsertIntoLeaf, run_bind_of (run_getNode_of _ hget), hn.findInsertIndex_eq key,
    run_setNode_of _ hlt]

section Halves

variable {β : Type} [Inhabited β] {f : Int × RecPtr → β} {array : Vector β bptreeMaxKeys}
  {temp : Vector β bptreeOrder} {l r : List (Int × RecPtr)}

/-- The temporary array of a split holds the sorted insertion. -/
private theorem toList_mergeInto_insertEntry {count : Nat} (hcount : count = bptreeMaxKeys)
    (hfull : es.length = bptreeMaxKeys) (hused : array.toList.take count = es.map f)
    (temp : Vector β bptreeOrder) :
    (mergeInto array (f (key, value)) (entriesBelow key es) count 0 0 temp).toList =
      (Tree.insertEntry key value es).map f := by
  have hpos : entriesBelow key es ≤ bptreeMaxKeys := hfull ▸ entriesBelow_le key es
  rw [List.take_of_length_le (by simp [hcount])] at hused
  rw [hcount, toList_mergeInto _ _ _ hpos, hused, insertEntry_eq_insertIdx, List.map_insertIdx]

/-- What is copied back into the old leaf. -/
private theorem used_firstHalf (htemp : temp.toList = (l ++ r).map f)
    (hl : l.length = bptreeOrder / 2) (old : Vector β bptreeMaxKeys) :
    (copyFrom temp 0 old (bptreeOrder / 2)).toList.take (bptreeOrder / 2) = l.map f := by
  rw [used_copyFrom _ _ (by decide) (by decide), htemp, List.map_append, List.drop_zero,
    List.take_left' (by simpa using hl)]

/-- What is copied into the new one. -/
private theorem used_secondHalf (htemp : temp.toList = (l ++ r).map f)
    (hl : l.length = bptreeOrder / 2) (hr : r.length = bptreeOrder - bptreeOrder / 2)
    (old : Vector β bptreeMaxKeys) :
    (copyFrom temp (bptreeOrder / 2) old (bptreeOrder - bptreeOrder / 2)).toList.take
      (bptreeOrder - bptreeOrder / 2) = r.map f := by
  rw [used_copyFrom _ _ (by decide) (by decide), htemp, List.map_append,
    List.drop_left' (by simpa using hl), List.take_of_length_le (by simpa using hr.le)]

end Halves

/-- `bptree_split_leaf_and_insert` on a full leaf: two leaves, and the first key
of the right one on its way to the parent. -/
theorem run_bptreeSplitLeafAndInsert {m : Memory} {leaf : NodePtr} (hm : m.Granted 1)
    (hget : m.nodes[leaf]? = some n) (hn : LeafNode n parent next es)
    (hfull : es.length = bptreeMaxKeys) {l r : List (Int × RecPtr)} {k : Int} {w : RecPtr}
    (hes : Tree.insertEntry key value es = l ++ (k, w) :: r) (hl : l.length = bptreeOrder / 2)
    (fuel : Nat) :
    ∃ left right, LeafNode left parent (some m.nodes.length) l ∧
      LeafNode right parent next ((k, w) :: r) ∧
      (bptreeSplitLeafAndInsert fuel leaf key value).run m =
        (bptreeInsertIntoParent fuel leaf k m.nodes.length).run
          (m.withNodes (m.nodes.set leaf left ++ [right]) 1) := by
  have hcount : n.numKeys = bptreeMaxKeys := hn.numKeys.trans hfull
  have hpos : entriesBelow key es ≤ bptreeMaxKeys := hfull ▸ entriesBelow_le key es
  have hlen := congrArg List.length hes
  rw [Tree.length_insertEntry, hfull, List.length_append, List.length_cons, hl] at hlen
  have hr : r.length + 1 = bptreeOrder - bptreeOrder / 2 := by
    simp only [bptreeMaxKeys, bptreeOrder] at hlen ⊢
    omega
  -- the temporary arrays hold the sorted insertion
  set tempKeys : Vector Int bptreeOrder := mergeInto n.keys key (entriesBelow key es)
    n.numKeys 0 0 (Vector.replicate _ 0) with htempKeys
  set tempValues : Vector (Option RecPtr) bptreeOrder := mergeInto n.values (some value)
    (entriesBelow key es) n.numKeys 0 0 (Vector.replicate _ none) with htempValues
  have hkeys : tempKeys.toList = (l ++ (k, w) :: r).map Prod.fst :=
    hes ▸ toList_mergeInto_insertEntry hcount hfull hn.keys _
  have hvalues : tempValues.toList = (l ++ (k, w) :: r).map fun e => some e.2 :=
    hes ▸ toList_mergeInto_insertEntry hcount hfull hn.values _
  set left : BPTreeNode := { n with
    numKeys := bptreeOrder / 2
    keys := copyFrom tempKeys 0 n.keys (bptreeOrder / 2)
    values := copyFrom tempValues 0 n.values (bptreeOrder / 2)
    next := some m.nodes.length } with hleftDef
  set right : BPTreeNode := { BPTreeNode.fresh true with
    parent := n.parent
    numKeys := bptreeOrder - bptreeOrder / 2
    keys := copyFrom tempKeys (bptreeOrder / 2) (BPTreeNode.fresh true).keys
      (bptreeOrder - bptreeOrder / 2)
    values := copyFrom tempValues (bptreeOrder / 2) (BPTreeNode.fresh true).values
      (bptreeOrder - bptreeOrder / 2)
    next := n.next } with hrightDef
  have hleft : LeafNode left parent (some m.nodes.length) l := {
    isLeaf := hn.isLeaf
    numKeys := hl.symm
    keys := used_firstHalf hkeys hl _
    values := used_firstHalf hvalues hl _
    parent := hn.parent
    next := rfl }
  have hright : LeafNode right parent next ((k, w) :: r) := {
    isLeaf := rfl
    numKeys := hr.symm
    keys := used_secondHalf hkeys hl hr _
    values := used_secondHalf hvalues hl hr _
    parent := hn.parent
    next := hn.next }
  -- the separator is read back from the second half
  have hk : right.keys[0]! = k := by
    have hused : right.keys.toList.take right.numKeys = ((k, w) :: r).map Prod.fst := hright.keys
    exact getElem!_used (by rw [hused]; rfl)
  refine ⟨left, right, hleft, hright, ?_⟩
  have hlt : leaf < m.nodes.length := (List.getElem?_eq_some_iff.mp hget).1
  have hnew : ((m.nodes ++ [BPTreeNode.fresh true]).set leaf left)[m.nodes.length]? =
      some (BPTreeNode.fresh true) := by simp [hlt.ne]
  have hset : ((m.nodes ++ [BPTreeNode.fresh true]).set leaf left).set m.nodes.length right =
      m.nodes.set leaf left ++ [right] := by
    rw [List.set_append_left _ _ hlt, List.set_append_right _ _ (by simp)]
    simp
  have hlast : (m.nodes.set leaf left ++ [right])[m.nodes.length]? = some right := by simp
  rw [bptreeSplitLeafAndInsert, run_bind_of (run_bptreeCreateNode hm true)]
  dsimp only
  rw [run_bind_of (run_getNode_of _ (by simpa [List.getElem?_append_left hlt])),
    run_bind_of (run_setNode_of _ (by simpa using Nat.lt_succ_of_lt hlt) _), hn.findInsertIndex_eq key,
    run_bind_of (run_modifyNode _ hnew _)]
  simp only [Memory.withNodes_setNode]
  rw [← htempKeys, ← htempValues, ← hleftDef, ← hrightDef, hset,
    run_bind_of (run_getNode_of _ hlast), hk]

end Leaf

/-! ## Internal nodes -/

private theorem insertIdx_append_length {α : Type} (xs ys : List α) (x : α) :
    (xs ++ ys).insertIdx xs.length x = xs ++ x :: ys := by
  induction xs with
  | nil => rfl
  | cons y xs ih => simp [ih]

section Inner

variable {h : Nat} {n : BPTreeNode} {parent out : Option NodePtr} {c : Chain Int (IndexTree h)}
  {key k : Int} {pre post : List (IndexTree h)} {before after : List Int} {l r : IndexTree h}

/-- The used keys with a new separator in the middle. -/
theorem Focus.insertIdx_keys (hf : Chain.Focus key c pre post before after) (l r : IndexTree h)
    (k : Int) : c.keys.insertIdx pre.length k = (c.splice key (.cons l k (.one r))).keys := by
  rw [hf.splice_keys, hf.keys_eq, hf.length_eq, insertIdx_append_length]
  simp

/-- The used children with a new child right of the located one. -/
theorem Focus.insertIdx_children (hf : Chain.Focus key c pre post before after)
    (haddr : l.addr = (c.locate key).addr) (r : IndexTree h) (k : Int) :
    (c.trees.map fun t => some t.addr).insertIdx (pre.length + 1) (some r.addr) =
      (c.splice key (.cons l k (.one r))).trees.map fun t => some t.addr := by
  have hlen : pre.length + 1 =
      ((pre ++ [c.locate key]).map fun t => some t.addr).length := by simp
  rw [hf.splice_trees, hf.trees_eq, List.append_cons, List.map_append, hlen,
    insertIdx_append_length]
  simp [haddr]

/-- `bptree_insert_into_parent` finds the left child by its pointer. -/
theorem InnerNode.findChild_eq (hn : InnerNode n parent c)
    (hf : Chain.Focus key c pre post before after) (hnodup : (c.trees.flatMap Tree.addrs).Nodup)
    {a : NodePtr} (haddr : a = (c.locate key).addr) :
    firstIndex (n.numKeys + 1) (fun i => n.children[i]! != some a) = pre.length := by
  have hchildren : n.children.toList.take (n.numKeys + 1) = _ := hn.children
  have hlen : pre.length < n.numKeys + 1 := by
    have := c.length_trees
    rw [hf.trees_eq, List.length_append, List.length_cons] at this
    rw [hn.numKeys]
    omega
  rw [hf.trees_eq] at hnodup hchildren
  refine firstIndex_eq hlen.le (fun j hj => ?_) (fun _ => ?_)
  · have hget : (n.children.toList.take (n.numKeys + 1))[j]? = some (some pre[j].addr) := by
      rw [hchildren]
      simp [List.getElem?_append_left, hj]
    rw [getElem!_used hget]
    -- earlier children have other addresses
    have hmem : pre[j].addr ∈ pre.flatMap Tree.addrs :=
      List.mem_flatMap.mpr ⟨_, List.getElem_mem hj, pre[j].addr_mem_addrs⟩
    rw [List.flatMap_append, List.nodup_append] at hnodup
    have hne := hnodup.2.2 _ hmem (c.locate key).addr
      (by simp [(c.locate key).addr_mem_addrs])
    simpa [haddr] using hne
  · have hget : (n.children.toList.take (n.numKeys + 1))[pre.length]? = some (some a) := by
      rw [hchildren, haddr]
      simp
    rw [getElem!_used hget]
    simp

/-- An internal node whose located child changed in place. -/
theorem InnerNode.replace (hn : InnerNode n parent c)
    (hf : Chain.Focus key c pre post before after) {t : IndexTree h}
    (haddr : t.addr = (c.locate key).addr) : InnerNode n parent (c.splice key (.one t)) := by
  have hkeys : (c.splice key (.one t)).keys = c.keys := by
    rw [hf.splice_keys, hf.keys_eq]
    simp
  have htrees : ((c.splice key (.one t)).trees.map fun t => some t.addr) =
      c.trees.map fun t => some t.addr := by
    rw [hf.splice_trees, hf.trees_eq]
    simp [haddr]
  exact { hn with
    numKeys := by rw [hkeys, hn.numKeys]
    keys := by rw [hkeys, hn.keys]
    children := by rw [htrees, hn.children] }

/-- An internal node after `bptree_insert_into_internal`. -/
theorem InnerNode.insert (hn : InnerNode n parent c)
    (hf : Chain.Focus key c pre post before after) (haddr : l.addr = (c.locate key).addr)
    (hroom : c.keys.length < bptreeMaxKeys) :
    InnerNode { n with
        keys := (shiftUp pre.length n.keys n.numKeys).setIfInBounds pre.length k
        children := (shiftUp (pre.length + 1) n.children (n.numKeys + 1)).setIfInBounds
          (pre.length + 1) (some r.addr)
        numKeys := n.numKeys + 1 }
      parent (c.splice key (.cons l k (.one r))) := by
  have hpos : pre.length ≤ n.numKeys := by
    rw [hn.numKeys, hf.keys_eq, hf.length_eq, List.length_append]
    omega
  have hcount : n.numKeys < bptreeMaxKeys := hn.numKeys ▸ hroom
  -- the separator goes in front of the second half, which is the next child
  exact {
    isLeaf := hn.isLeaf
    numKeys := by
      rw [hn.numKeys, hf.splice_keys, hf.keys_eq]
      simp
      omega
    keys := by
      have hused : n.keys.toList.take n.numKeys = c.keys := hn.keys
      have h := used_shiftUp n.keys hpos hcount k
      rw [hused, Focus.insertIdx_keys hf l r k] at h
      exact h
    children := by
      have hused : n.children.toList.take (n.numKeys + 1) = _ := hn.children
      have h := used_shiftUp n.children (Nat.succ_le_succ hpos) (Nat.succ_lt_succ hcount)
        (some r.addr)
      rw [hused, Focus.insertIdx_children hf haddr r k] at h
      exact h
    parent := hn.parent }

/-- `bptree_insert_into_internal` writes the one node; the new child has its
`parent` already. -/
theorem run_bptreeInsertIntoInternal {m : Memory} {a b : NodePtr} {r : BPTreeNode} (hab : a ≠ b)
    (ha : m.nodes[a]? = some n) (hb : m.nodes[b]? = some r) (hr : r.parent = some a)
    (index : Nat) (k : Int) :
    (bptreeInsertIntoInternal a index k b).run m = some ((), m.setNode a { n with
      keys := (shiftUp index n.keys n.numKeys).setIfInBounds index k
      children := (shiftUp (index + 1) n.children (n.numKeys + 1)).setIfInBounds
        (index + 1) (some b)
      numKeys := n.numKeys + 1 }) := by
  obtain ⟨halt, -⟩ := List.getElem?_eq_some_iff.mp ha
  obtain ⟨hblt, hb'⟩ := List.getElem?_eq_some_iff.mp hb
  have hsame : { r with parent := some a } = r := by rw [← hr]
  rw [bptreeInsertIntoInternal, run_bind_of (run_getNode_of _ ha),
    run_bind_of (run_setNode_of _ halt _),
    run_bind_of (run_modifyNode _ (n := r) (by simpa [Memory.setNode, hab] using hb) _), hsame,
    run_modifyNode _ (by simp [Memory.setNode, halt, hab.symm]; rfl)]
  have hset : m.nodes.set b r = m.nodes := by
    rw [← hb']
    exact List.set_getElem_self hblt
  simp only [Memory.setNode, List.set_comm _ _ hab.symm, List.set_set]
  rw [List.set_comm _ _ hab, hset]

/-- Writing `parent` of every child of a row. -/
theorem run_bptreeSetParents {m : Memory} {ts : List (IndexTree h)}
    (hl : Linked (Rep m.nodes parent) out ts) (hnodup : (ts.flatMap Tree.addrs).Nodup)
    (p : NodePtr) :
    ∃ nodes', nodes'.length = m.nodes.length ∧
      (bptreeSetParents p (ts.map fun t => some t.addr)).run m =
        some ((), m.withNodes nodes' 0) ∧
      Linked (Rep nodes' (some p)) out ts ∧
      ∀ b, b ∉ ts.flatMap Tree.addrs → nodes'[b]? = m.nodes[b]? := by
  induction ts generalizing m with
  | nil => exact ⟨m.nodes, rfl, rfl, trivial, fun _ _ => rfl⟩
  | cons t ts ih =>
    obtain ⟨ht, hts⟩ := hl
    simp only [List.flatMap_cons, List.nodup_append] at hnodup
    obtain ⟨hnt, hnts, hdisj⟩ := hnodup
    obtain ⟨n, hn, -⟩ := ht.root
    -- the other children keep their labels, so they are still represented
    have hts' : Linked (Rep (m.nodes.set t.addr { n with parent := some p }) parent) out ts := by
      refine hts.frame fun b hb => ?_
      have hne : t.addr ≠ b := hdisj _ t.addr_mem_addrs _ hb
      simp [hne]
    obtain ⟨nodes', hlen, hrun, hrep, hframe⟩ :=
      ih (m := m.setNode t.addr { n with parent := some p }) hts' hnts
    refine ⟨nodes', by simpa [Memory.setNode] using hlen, ?_, ⟨?_, hrep⟩, fun b hb => ?_⟩
    · rw [List.map_cons, bptreeSetParents, run_bind_of (run_modifyNode _ hn _), hrun]
      rfl
    · -- the child has the new parent, and the later ones do not touch it
      refine (ht.reparent hnt hn).frame fun b hb => hframe b fun hb' => ?_
      exact hdisj b hb b hb' rfl
    · rw [List.flatMap_cons, List.mem_append, not_or] at hb
      have hne : t.addr ≠ b := fun heq => hb.1 (heq ▸ t.addr_mem_addrs)
      rw [hframe b hb.2]
      simp [Memory.setNode, hne]

section Halves

variable {cl cr : Chain Int (IndexTree h)} {k' : Int}

/-- The temporary key array of the split holds the separators of the spliced
chain. -/
theorem InnerNode.tempKeys_eq (hn : InnerNode n parent c)
    (hf : Chain.Focus key c pre post before after) (hfull : c.keys.length = bptreeMaxKeys)
    (hcut : c.splice key (.cons l k (.one r)) = cl.append k' cr) (temp : Vector Int bptreeOrder) :
    ((shiftUp pre.length (copyFrom n.keys 0 temp n.numKeys) n.numKeys).setIfInBounds
      pre.length k).toList = cl.keys ++ k' :: cr.keys := by
  have hpos : pre.length ≤ bptreeMaxKeys := by
    rw [← hfull, hf.keys_eq, hf.length_eq, List.length_append]
    omega
  have hused : n.keys.toList.take n.numKeys = c.keys := hn.keys
  rw [List.take_of_length_le (by simp [hn.numKeys, hfull])] at hused
  have h := toList_shiftUp_copyFrom n.keys temp hpos k
  rw [hn.numKeys, hfull, h, hused, Focus.insertIdx_keys hf l r k, hcut, Chain.keys_append]

/-- The temporary child array of the split holds the children of the spliced
chain. -/
theorem InnerNode.tempChildren_eq (hn : InnerNode n parent c)
    (hf : Chain.Focus key c pre post before after) (haddr : l.addr = (c.locate key).addr)
    (hfull : c.keys.length = bptreeMaxKeys)
    (hcut : c.splice key (.cons l k (.one r)) = cl.append k' cr)
    (temp : Vector (Option NodePtr) (bptreeOrder + 1)) :
    ((shiftUp (pre.length + 1) (copyFrom n.children 0 temp (n.numKeys + 1))
      (n.numKeys + 1)).setIfInBounds (pre.length + 1) (some r.addr)).toList =
        (cl.trees.map fun t => some t.addr) ++ cr.trees.map fun t => some t.addr := by
  have hpos : pre.length ≤ bptreeMaxKeys := by
    rw [← hfull, hf.keys_eq, hf.length_eq, List.length_append]
    omega
  have hused : n.children.toList.take (n.numKeys + 1) = _ := hn.children
  rw [List.take_of_length_le (by simp [hn.numKeys, hfull])] at hused
  have hpos' : pre.length + 1 ≤ bptreeOrder := Nat.succ_le_succ hpos
  rw [hn.numKeys, hfull]
  refine (toList_shiftUp_copyFrom n.children temp hpos' (some r.addr)).trans ?_
  rw [hused, Focus.insertIdx_children hf haddr r k, hcut, Chain.trees_append, List.map_append]

variable {tempKeys : Vector Int bptreeOrder}
  {tempChildren : Vector (Option NodePtr) (bptreeOrder + 1)}

/-- The half of a split node that stays. -/
theorem InnerNode.leftHalf (hn : InnerNode n parent c)
    (hkeys : tempKeys.toList = cl.keys ++ k' :: cr.keys)
    (hchildren : tempChildren.toList =
      (cl.trees.map fun t => some t.addr) ++ cr.trees.map fun t => some t.addr)
    (hcl : cl.keys.length = bptreeOrder / 2) :
    InnerNode { n with
        numKeys := bptreeOrder / 2
        keys := copyFrom tempKeys 0 n.keys (bptreeOrder / 2)
        children := copyFrom tempChildren 0 n.children (bptreeOrder / 2 + 1) }
      parent cl where
  isLeaf := hn.isLeaf
  numKeys := hcl.symm
  keys := by
    simp only [BPTreeNode.usedKeys]
    rw [used_copyFrom _ _ (by decide) (by decide), hkeys, List.drop_zero, List.take_left' hcl]
  children := by
    simp only [BPTreeNode.usedChildren]
    rw [used_copyFrom _ _ (by decide) (by decide), hchildren, List.drop_zero,
      List.take_left' (by rw [List.length_map, Chain.length_trees, hcl])]
  parent := hn.parent

/-- The half of a split node that moves. -/
theorem rightHalf (hkeys : tempKeys.toList = cl.keys ++ k' :: cr.keys)
    (hchildren : tempChildren.toList =
      (cl.trees.map fun t => some t.addr) ++ cr.trees.map fun t => some t.addr)
    (hcl : cl.keys.length = bptreeOrder / 2)
    (hcr : cr.keys.length = bptreeOrder - (bptreeOrder / 2 + 1)) (parent : Option NodePtr) :
    InnerNode { BPTreeNode.fresh false with
        parent
        numKeys := bptreeOrder - (bptreeOrder / 2 + 1)
        keys := copyFrom tempKeys (bptreeOrder / 2 + 1) (BPTreeNode.fresh false).keys
          (bptreeOrder - (bptreeOrder / 2 + 1))
        children := copyFrom tempChildren (bptreeOrder / 2 + 1) (BPTreeNode.fresh false).children
          (bptreeOrder - (bptreeOrder / 2 + 1) + 1) }
      parent cr where
  isLeaf := rfl
  numKeys := hcr.symm
  keys := by
    simp only [BPTreeNode.usedKeys]
    rw [used_copyFrom _ _ (by decide) (by decide), hkeys, List.append_cons,
      List.drop_left' (by simp [hcl]), List.take_of_length_le hcr.le]
  children := by
    simp only [BPTreeNode.usedChildren]
    rw [used_copyFrom _ _ (by decide) (by decide), hchildren,
      List.drop_left' (by rw [List.length_map, Chain.length_trees, hcl]),
      List.take_of_length_le (by rw [List.length_map, Chain.length_trees, hcr])]
  parent := rfl

end Halves

/-- The heap writes of an internal split: the left node is stored, its children
and those of the new right node get their parents, everything else stays. -/
private theorem run_splitHalves {β : Type} {m : Memory} {a : NodePtr}
    {cl cr : Chain Int (IndexTree h)} {left right : BPTreeNode} (ha : a < m.nodes.length)
    (hleft : InnerNode left parent cl) (hright : InnerNode right parent cr)
    (hkids : Linked (Rep m.nodes (some a)) out (cl.trees ++ cr.trees))
    (hnodup : ((cl.trees ++ cr.trees).flatMap Tree.addrs).Nodup)
    (hafresh : a ∉ (cl.trees ++ cr.trees).flatMap Tree.addrs) {f : BPTreeNode → BPTreeNode}
    (hf : f (BPTreeNode.fresh false) = right) (rest : Prog β) :
    ∃ nodes', nodes'.length = m.nodes.length + 1 ∧
      Prog.run (do
        bptreeSetParents a (cl.trees.map fun t => some t.addr)
        modifyNode m.nodes.length f
        bptreeSetParents m.nodes.length (cr.trees.map fun t => some t.addr)
        rest) (m.withNodes ((m.nodes ++ [BPTreeNode.fresh false]).set a left) 1) =
          rest.run (m.withNodes nodes' 1) ∧
      Linked (Rep nodes' parent) out [Lib.Tree.node a cl, Lib.Tree.node m.nodes.length cr] ∧
      ∀ b < m.nodes.length, b ≠ a → b ∉ (cl.trees ++ cr.trees).flatMap Tree.addrs →
        nodes'[b]? = m.nodes[b]? := by
  obtain ⟨hkl, hkr⟩ := linked_append.mp hkids
  rw [List.flatMap_append] at hnodup hafresh
  obtain ⟨hnl, hnr, hdisj⟩ := List.nodup_append.mp hnodup
  rw [List.mem_append, not_or] at hafresh
  have hltl : ∀ b ∈ cl.trees.flatMap Tree.addrs, b < m.nodes.length := fun b hb => by
    obtain ⟨t, ht, hbt⟩ := List.mem_flatMap.mp hb
    obtain ⟨o, hrep⟩ := hkl.of_mem ht
    exact hrep.addr_lt b hbt
  have hltr : ∀ b ∈ cr.trees.flatMap Tree.addrs, b < m.nodes.length := fun b hb => by
    obtain ⟨t, ht, hbt⟩ := List.mem_flatMap.mp hb
    obtain ⟨o, hrep⟩ := hkr.of_mem ht
    exact hrep.addr_lt b hbt
  set nodes₁ := (m.nodes ++ [BPTreeNode.fresh false]).set a left with hnodes₁
  have hlen₁ : nodes₁.length = m.nodes.length + 1 := by simp [hnodes₁]
  have hframe₁ : ∀ b < m.nodes.length, b ≠ a → nodes₁[b]? = m.nodes[b]? := fun b hb hne => by
    rw [hnodes₁, List.getElem?_set_ne hne.symm, List.getElem?_append_left hb]
  have hframel₁ : ∀ b ∈ cl.trees.flatMap Tree.addrs, nodes₁[b]? = m.nodes[b]? := fun b hb =>
    hframe₁ b (hltl b hb) fun heq => hafresh.1 (heq ▸ hb)
  have hframer₁ : ∀ b ∈ cr.trees.flatMap Tree.addrs, nodes₁[b]? = m.nodes[b]? := fun b hb =>
    hframe₁ b (hltr b hb) fun heq => hafresh.2 (heq ▸ hb)
  -- the children that stay
  obtain ⟨nodes₂, hlen₂, hrun₂, hrep₂, hframe₂⟩ :=
    run_bptreeSetParents (m := m.withNodes nodes₁ 1) (hkl.frame hframel₁) hnl a
  simp only [Memory.withNodes_nodes, Memory.withNodes_withNodes] at hlen₂ hrun₂ hframe₂
  have hnew : nodes₂[m.nodes.length]? = some (BPTreeNode.fresh false) := by
    rw [hframe₂ _ fun hb => (hltl _ hb).false, hnodes₁, List.getElem?_set_ne ha.ne]
    simp
  -- the children that move
  have hrep₃ : Linked (Rep (nodes₂.set m.nodes.length right) (some a)) out cr.trees := by
    refine hkr.frame fun b hb => ?_
    rw [List.getElem?_set_ne (hltr b hb).ne', hframe₂ b fun hb' => hdisj b hb' b hb rfl,
      hframer₁ b hb]
  obtain ⟨nodes₄, hlen₄, hrun₄, hrep₄, hframe₄⟩ :=
    run_bptreeSetParents (m := m.withNodes (nodes₂.set m.nodes.length right) 1) hrep₃ hnr
      m.nodes.length
  simp only [Memory.withNodes_nodes, Memory.withNodes_withNodes] at hlen₄ hrun₄ hframe₄
  have hother : ∀ b, b ≠ m.nodes.length → b ∉ cr.trees.flatMap Tree.addrs →
      nodes₄[b]? = nodes₂[b]? := fun b hne hb => by
    rw [hframe₄ b hb, List.getElem?_set_ne hne.symm]
  refine ⟨nodes₄, by rw [hlen₄, List.length_set, hlen₂, hlen₁], ?_, ⟨?_, ?_, trivial⟩, ?_⟩
  · rw [run_bind_of hrun₂, run_bind_of (run_modifyNode _ hnew _), hf, Memory.withNodes_setNode,
      run_bind_of hrun₄]
  · refine rep_node.mpr ⟨left, ?_, hleft, ?_⟩
    · rw [hother a ha.ne hafresh.2, hframe₂ a hafresh.1, hnodes₁,
        List.getElem?_set_self (by simpa using Nat.lt_succ_of_lt ha)]
    · obtain ⟨ts, hts⟩ := cr.trees_eq_head_cons
      rw [hts] at hrep₂
      refine Linked.frame hrep₂ fun b hb => ?_
      exact hother b (hltl b hb).ne fun hb' => hdisj b hb b hb' rfl
  · refine rep_node.mpr ⟨right, ?_, hright, hrep₄⟩
    rw [hframe₄ _ fun hb => (hltr _ hb).false, List.getElem?_set_self (by omega)]
  · intro b hb hne hmem
    rw [List.flatMap_append, List.mem_append, not_or] at hmem
    rw [hother b hb.ne hmem.2, hframe₂ b hmem.1, hframe₁ b hb hne]

/-- `bptree_split_internal_and_insert` on a full node: two nodes, each the parent
of its children, and the middle separator on its way up. -/
theorem run_bptreeSplitInternalAndInsert {m : Memory} {a : NodePtr} (hm : m.Granted 1)
    (ha : m.nodes[a]? = some n) (hn : InnerNode n parent c)
    (hf : Chain.Focus key c pre post before after) (haddr : l.addr = (c.locate key).addr)
    (hfull : c.keys.length = bptreeMaxKeys) {cl cr : Chain Int (IndexTree h)} {k' : Int}
    (hcut : c.splice key (.cons l k (.one r)) = cl.append k' cr)
    (hcl : cl.keys.length = bptreeOrder / 2)
    (hkids : Linked (Rep m.nodes (some a)) out (cl.trees ++ cr.trees))
    (hnodup : ((cl.trees ++ cr.trees).flatMap Tree.addrs).Nodup)
    (hafresh : a ∉ (cl.trees ++ cr.trees).flatMap Tree.addrs)
    (insertIntoParent : NodePtr → Int → NodePtr → Prog Bool) :
    ∃ nodes', nodes'.length = m.nodes.length + 1 ∧
      (bptreeSplitInternalAndInsert insertIntoParent a pre.length k r.addr).run m =
        (insertIntoParent a k' m.nodes.length).run (m.withNodes nodes' 1) ∧
      Linked (Rep nodes' parent) out [Lib.Tree.node a cl, Lib.Tree.node m.nodes.length cr] ∧
      ∀ b < m.nodes.length, b ≠ a → b ∉ (cl.trees ++ cr.trees).flatMap Tree.addrs →
        nodes'[b]? = m.nodes[b]? := by
  have hcr : cr.keys.length = bptreeOrder - (bptreeOrder / 2 + 1) := by
    have hlen := congrArg (fun d => d.keys.length) hcut
    have hc := congrArg List.length hf.keys_eq
    simp only [hf.splice_keys, Chain.keys_append, List.length_append, List.length_cons,
      Chain.keys_cons, Chain.keys_one, List.length_nil, hcl] at hlen hc
    rw [hfull] at hc
    simp only [bptreeMaxKeys, bptreeOrder] at hlen hc ⊢
    omega
  have hkeys := hn.tempKeys_eq hf hfull hcut (Vector.replicate _ 0)
  have hchildren := hn.tempChildren_eq hf haddr hfull hcut (Vector.replicate _ none)
  have hleft := hn.leftHalf hkeys hchildren hcl
  have hright := rightHalf hkeys hchildren hcl hcr n.parent
  have halt : a < m.nodes.length := (List.getElem?_eq_some_iff.mp ha).1
  have hget₁ : (m.nodes ++ [BPTreeNode.fresh false])[a]? = some n := by
    rw [List.getElem?_append_left halt, ha]
  rw [bptreeSplitInternalAndInsert, run_bind_of (run_bptreeCreateNode hm false)]
  dsimp only
  rw [run_bind_of (run_getNode_of _ hget₁),
    run_bind_of (run_setNode_of _ (by simpa using Nat.lt_succ_of_lt halt) _), hchildren,
    List.take_left' (by rw [List.length_map, Chain.length_trees, hcl]),
    List.drop_left' (by rw [List.length_map, Chain.length_trees, hcl])]
  -- the middle key goes up, and stays in neither half
  have hk' : ((shiftUp pre.length (copyFrom n.keys 0 (Vector.replicate bptreeOrder 0) n.numKeys)
      n.numKeys).setIfInBounds pre.length k)[bptreeOrder / 2]! = k' := by
    refine getElem!_used (?_ : (List.take bptreeOrder _)[bptreeOrder / 2]? = _)
    rw [hkeys, List.take_of_length_le, List.getElem?_append_right hcl.le, hcl]
    · simp
    · rw [List.length_append, List.length_cons, hcl, hcr]
      decide
  rw [hk', ← hn.parent]
  rw [← hn.parent] at hleft
  exact run_splitHalves halt hleft hright hkids hnodup hafresh rfl _

end Inner

end SqlApi.Core

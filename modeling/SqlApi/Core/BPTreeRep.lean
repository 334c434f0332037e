import SqlApi.Core.BPTreeArrays

/-!
# Heap nodes that represent a tree

`Rep nodes parent out t`: the nodes at the labels of `t` are `t` as `bptree.c`
lays it out. Every node's used arrays are its entries, separators and child
pointers, its `parent` is the node above it (`parent` for the root), and each
leaf's `next` is the leaf to its right (`out` for the last one).

The predicate is local, so it survives writes to other nodes (`Rep.frame`) and a
new parent for the root (`Rep.reparent`).
-/

namespace SqlApi.Core

open SqlApi.Lib

/-- The index tree of a table: labels are addresses, values record pointers. -/
abbrev IndexTree (h : Nat) := Tree NodePtr Int RecPtr h

/-! ## Single nodes -/

/-- The used keys of a node. -/
def BPTreeNode.usedKeys (n : BPTreeNode) : List Int := n.keys.toList.take n.numKeys

/-- The used values of a leaf. -/
def BPTreeNode.usedValues (n : BPTreeNode) : List (Option RecPtr) := n.values.toList.take n.numKeys

/-- The children of an internal node: one more slot than keys. -/
def BPTreeNode.usedChildren (n : BPTreeNode) : List (Option NodePtr) :=
  n.children.toList.take (n.numKeys + 1)

/-- A leaf node with the given entries and pointers. -/
structure LeafNode (n : BPTreeNode) (parent next : Option NodePtr) (es : List (Int × RecPtr)) :
    Prop where
  isLeaf : n.isLeaf = true
  numKeys : n.numKeys = es.length
  keys : n.usedKeys = es.map Prod.fst
  values : n.usedValues = es.map fun e => some e.2
  parent : n.parent = parent
  next : n.next = next

/-- An internal node with the given separators and children. -/
structure InnerNode {h : Nat} (n : BPTreeNode) (parent : Option NodePtr)
    (c : Chain Int (IndexTree h)) : Prop where
  isLeaf : n.isLeaf = false
  numKeys : n.numKeys = c.keys.length
  keys : n.usedKeys = c.keys
  children : n.usedChildren = c.trees.map fun t => some t.addr
  parent : n.parent = parent

theorem LeafNode.length_le {n : BPTreeNode} {parent next : Option NodePtr}
    {es : List (Int × RecPtr)} (hn : LeafNode n parent next es) : es.length ≤ bptreeMaxKeys := by
  have h := congrArg List.length hn.keys
  simp only [BPTreeNode.usedKeys, List.length_take, Vector.length_toList, List.length_map,
    hn.numKeys] at h
  omega

theorem InnerNode.length_le {h : Nat} {n : BPTreeNode} {parent : Option NodePtr}
    {c : Chain Int (IndexTree h)} (hn : InnerNode n parent c) :
    c.keys.length ≤ bptreeMaxKeys := by
  have h := congrArg List.length hn.keys
  simp only [BPTreeNode.usedKeys, List.length_take, Vector.length_toList, hn.numKeys] at h
  omega

/-! ## Rows of siblings -/

section Siblings

variable {h : Nat}

/-- The leaf after a row of subtrees: the first leaf of the next subtree. -/
def nextLeaf (out : Option NodePtr) : List (IndexTree h) → Option NodePtr
  | [] => out
  | t :: _ => some t.firstLeaf.addr

/-- `P` for every subtree of a row, each with the leaf that follows it. -/
def Linked (P : Option NodePtr → IndexTree h → Prop) (out : Option NodePtr) :
    List (IndexTree h) → Prop
  | [] => True
  | t :: ts => P (nextLeaf out ts) t ∧ Linked P out ts

variable {P Q : Option NodePtr → IndexTree h → Prop} {out : Option NodePtr}

theorem nextLeaf_append (xs ys : List (IndexTree h)) :
    nextLeaf out (xs ++ ys) = nextLeaf (nextLeaf out ys) xs := by
  cases xs <;> rfl

theorem linked_append {xs ys : List (IndexTree h)} :
    Linked P out (xs ++ ys) ↔ Linked P (nextLeaf out ys) xs ∧ Linked P out ys := by
  induction xs with
  | nil => simp [Linked]
  | cons t ts ih => simp [Linked, ih, nextLeaf_append, and_assoc]

theorem Linked.imp {ts : List (IndexTree h)} (hl : Linked P out ts)
    (hPQ : ∀ o, ∀ t ∈ ts, P o t → Q o t) : Linked Q out ts := by
  induction ts with
  | nil => trivial
  | cons t ts ih =>
    exact ⟨hPQ _ t (by simp) hl.1, ih hl.2 fun o u hu => hPQ o u (by simp [hu])⟩

theorem Linked.of_mem {ts : List (IndexTree h)} (hl : Linked P out ts) {t : IndexTree h}
    (ht : t ∈ ts) : ∃ o, P o t := by
  induction ts with
  | nil => simp at ht
  | cons u ts ih =>
    rcases List.mem_cons.mp ht with rfl | ht
    · exact ⟨_, hl.1⟩
    · exact ih hl.2 ht

end Siblings

/-! ## Trees -/

/-- The heap nodes at the labels of a tree represent it. -/
def Rep (nodes : List BPTreeNode) :
    {h : Nat} → (parent out : Option NodePtr) → IndexTree h → Prop
  | 0, parent, out, t =>
    ∃ n, nodes[t.addr]? = some n ∧ LeafNode n parent out (Leaf.entries t)
  | _ + 1, parent, out, t =>
    ∃ n, nodes[t.addr]? = some n ∧ InnerNode n parent (Inner.kids t) ∧
      Linked (Rep nodes (some t.addr)) out (Inner.kids t).trees

section Rep

variable {nodes nodes' : List BPTreeNode} {parent out : Option NodePtr}

theorem rep_leaf {a : NodePtr} {es : List (Int × RecPtr)} :
    Rep nodes parent out (Tree.leaf a es) ↔
      ∃ n, nodes[a]? = some n ∧ LeafNode n parent out es := Iff.rfl

theorem rep_node {h : Nat} {a : NodePtr} {c : Chain Int (IndexTree h)} :
    Rep nodes parent out (Lib.Tree.node a c) ↔
      ∃ n, nodes[a]? = some n ∧ InnerNode n parent c ∧ Linked (Rep nodes (some a)) out c.trees :=
  Iff.rfl

/-- Writes elsewhere do not matter. -/
theorem Rep.frame {h : Nat} {t : IndexTree h} (ht : Rep nodes parent out t)
    (hsame : ∀ a ∈ t.addrs, nodes'[a]? = nodes[a]?) : Rep nodes' parent out t := by
  induction t using Tree.induction generalizing parent out with
  | hleaf a es =>
    obtain ⟨n, hn, hleaf⟩ := rep_leaf.mp ht
    exact ⟨n, by rw [Tree.addr_leaf, hsame a (by simp), hn], hleaf⟩
  | hnode h a c ih =>
    obtain ⟨n, hn, hinner, hkids⟩ := rep_node.mp ht
    refine ⟨n, by rw [Tree.addr_node, hsame a (by simp), hn], hinner, ?_⟩
    refine hkids.imp fun o u hu hrep => ih u hu hrep fun b hb => hsame b ?_
    exact List.mem_cons_of_mem _ (List.mem_flatMap.mpr ⟨u, hu, hb⟩)

theorem Linked.frame {h : Nat} {ts : List (IndexTree h)} (hl : Linked (Rep nodes parent) out ts)
    (hsame : ∀ a ∈ ts.flatMap Tree.addrs, nodes'[a]? = nodes[a]?) :
    Linked (Rep nodes' parent) out ts :=
  hl.imp fun _ t ht hrep =>
    hrep.frame fun a ha => hsame a (List.mem_flatMap.mpr ⟨t, ht, ha⟩)

/-- The root node of a represented tree is there. -/
theorem Rep.root {h : Nat} {t : IndexTree h} (ht : Rep nodes parent out t) :
    ∃ n, nodes[t.addr]? = some n ∧ n.parent = parent := by
  induction t using Tree.cases with
  | hleaf a es =>
    obtain ⟨n, hn, hleaf⟩ := rep_leaf.mp ht
    exact ⟨n, hn, hleaf.parent⟩
  | hnode h a c =>
    obtain ⟨n, hn, hinner, -⟩ := rep_node.mp ht
    exact ⟨n, hn, hinner.parent⟩

/-- Writing the `parent` pointer of the root changes nothing else. -/
theorem Rep.reparent {h : Nat} {t : IndexTree h} {n : BPTreeNode} {parent' : Option NodePtr}
    (ht : Rep nodes parent out t) (hnodup : t.addrs.Nodup) (hn : nodes[t.addr]? = some n) :
    Rep (nodes.set t.addr { n with parent := parent' }) parent' out t := by
  have hlt : t.addr < nodes.length := (List.getElem?_eq_some_iff.mp hn).1
  induction t using Tree.cases with
  | hleaf a es =>
    obtain ⟨n', hn', hleaf⟩ := rep_leaf.mp ht
    obtain rfl : n' = n := Option.some.inj (hn'.symm.trans hn)
    refine ⟨{ n' with parent := parent' }, List.getElem?_set_self hlt, ?_⟩
    exact { hleaf with parent := rfl }
  | hnode h a c =>
    obtain ⟨n', hn', hinner, hkids⟩ := rep_node.mp ht
    obtain rfl : n' = n := Option.some.inj (hn'.symm.trans hn)
    refine ⟨{ n' with parent := parent' }, List.getElem?_set_self hlt, { hinner with parent := rfl },
      ?_⟩
    refine hkids.frame fun b hb => ?_
    -- the root's label is not among those below it
    have hne : a ≠ b := fun h => (List.nodup_cons.mp hnodup).1 (h ▸ hb)
    simp [hne]

/-- Every label of a represented tree is an allocated node. -/
theorem Rep.addr_lt {h : Nat} {t : IndexTree h} (ht : Rep nodes parent out t) :
    ∀ a ∈ t.addrs, a < nodes.length := by
  induction t using Tree.induction generalizing parent out with
  | hleaf a es =>
    obtain ⟨n, hn, -⟩ := rep_leaf.mp ht
    intro b hb
    obtain rfl := List.mem_singleton.mp hb
    exact (List.getElem?_eq_some_iff.mp hn).1
  | hnode h a c ih =>
    obtain ⟨n, hn, -, hkids⟩ := rep_node.mp ht
    intro b hb
    rcases List.mem_cons.mp hb with rfl | hb
    · exact (List.getElem?_eq_some_iff.mp hn).1
    · obtain ⟨u, hu, hb⟩ := List.mem_flatMap.mp hb
      obtain ⟨o, hrep⟩ := hkids.of_mem hu
      exact ih u hu hrep b hb

end Rep

/-- A tree of height `h` has more than `h` nodes. -/
theorem height_lt_length_addrs {h : Nat} (t : IndexTree h) : h < t.addrs.length := by
  induction t using Tree.induction with
  | hleaf a es => simp
  | hnode h a c ih =>
    obtain ⟨ts, hts⟩ := c.trees_eq_head_cons
    have := ih c.head (by simp [hts])
    simp only [Tree.addrs_node, hts, List.flatMap_cons, List.length_cons, List.length_append]
    omega

/-- The fuel of the source's walks suffices: a tree is lower than the number of
allocated nodes. -/
theorem Rep.height_lt {nodes : List BPTreeNode} {parent out : Option NodePtr} {h : Nat}
    {t : IndexTree h} (ht : Rep nodes parent out t) (hnodup : t.addrs.Nodup) :
    h < nodes.length := by
  have hsub : t.addrs ⊆ List.range nodes.length := fun a ha => List.mem_range.mpr (ht.addr_lt a ha)
  have hle := (List.subperm_of_subset hnodup hsub).length_le
  rw [List.length_range] at hle
  exact (height_lt_length_addrs t).trans_le hle

/-! ## Descent -/

/-- The child index of a node is the slot of its chain. -/
theorem InnerNode.childIndex_eq {h : Nat} {n : BPTreeNode} {parent : Option NodePtr}
    {c : Chain Int (IndexTree h)} (hn : InnerNode n parent c) (key : Int) :
    n.childIndex key = c.slot key := by
  obtain ⟨pre, post, before, after, hf⟩ := c.exists_focus key
  have hslot : c.slot key = before.length := by rw [hf.slot_eq, hf.length_eq]
  have hkeys : n.keys.toList.take n.numKeys = before ++ after := hn.keys.trans hf.keys_eq
  have hcount : n.numKeys = before.length + after.length := by
    rw [hn.numKeys, hf.keys_eq, List.length_append]
  rw [hslot]
  refine firstIndex_eq (by omega) (fun j hj => ?_) (fun hlt => ?_)
  · -- the separators before the slot are not above the key
    have hget : (n.keys.toList.take n.numKeys)[j]? = some before[j] := by
      rw [hkeys, List.getElem?_append_left hj, List.getElem?_eq_getElem hj]
    rw [getElem!_used hget]
    exact decide_eq_true (not_lt.mp (hf.below _ (List.getElem_mem hj)))
  · -- the one at the slot is
    obtain ⟨k, rest, hafter⟩ : ∃ k rest, after = k :: rest :=
      List.exists_cons_of_length_pos (by omega)
    have hget : (n.keys.toList.take n.numKeys)[before.length]? = some k := by
      rw [hkeys, hafter]
      simp
    rw [getElem!_used hget]
    exact decide_eq_false (not_le.mpr (hf.above k (by simp [hafter])))

/-- The child pointer the descent follows. -/
theorem InnerNode.child_eq {h : Nat} {n : BPTreeNode} {parent : Option NodePtr}
    {c : Chain Int (IndexTree h)} (hn : InnerNode n parent c) (key : Int) :
    n.children[n.childIndex key]! = some (c.locate key).addr := by
  obtain ⟨pre, post, before, after, hf⟩ := c.exists_focus key
  rw [hn.childIndex_eq key]
  have hchildren : n.children.toList.take (n.numKeys + 1) = _ := hn.children
  have hget : (n.children.toList.take (n.numKeys + 1))[c.slot key]? =
      some (some (c.locate key).addr) := by
    rw [hchildren, hf.trees_eq, hf.slot_eq]
    simp
  exact getElem!_used hget

/-- The descent of `bptree_find_leaf` ends at the leaf of the key. -/
theorem run_bptreeDescend {m : Memory} {parent out : Option NodePtr} {h : Nat} {t : IndexTree h}
    (ht : Rep m.nodes parent out t) (key : Int) {fuel : Nat} (hfuel : h < fuel) :
    (bptreeDescend key fuel t.addr).run m = some ((t.leafFor key).addr, m) := by
  induction t using Tree.induction generalizing parent out fuel with
  | hleaf a es =>
    obtain ⟨fuel, rfl⟩ : ∃ f, fuel = f + 1 := ⟨fuel - 1, by omega⟩
    obtain ⟨n, hn, hleaf⟩ := rep_leaf.mp ht
    simp [bptreeDescend, hn, hleaf.isLeaf]
  | hnode h a c ih =>
    obtain ⟨fuel, rfl⟩ : ∃ f, fuel = f + 1 := ⟨fuel - 1, by omega⟩
    obtain ⟨n, hn, hinner, hkids⟩ := rep_node.mp ht
    obtain ⟨o, hrep⟩ := hkids.of_mem (c.locate_mem key)
    have hrec : (bptreeDescend key fuel (c.locate key).addr).run m = _ :=
      ih _ (c.locate_mem key) hrep (by omega)
    simp [bptreeDescend, hn, hinner.isLeaf, hinner.child_eq key, hrec]

end SqlApi.Core

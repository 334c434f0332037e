import SqlApi.Core.BPTreeMap

/-!
# The index as nodes and pointers

What the tree invariants say about the heap itself: a walk follows child
pointers from the root, and `BPTreeShape` lists what holds along every walk. The
children of an internal node are its slots `0 … numKeys`; slots past them keep
pointers from before a split, which the code never reads.

The chain of leaves is read off the same heap by `next` pointers.
-/

namespace SqlApi.Core

open SqlApi.Lib

/-! ## Walks -/

/-- The `i`-th child of an internal node. -/
def BPTreeNode.child? (n : BPTreeNode) (i : Nat) : Option NodePtr :=
  if n.isLeaf then none else n.usedChildren[i]?.join

/-- Follow child pointers. -/
def follow (nodes : List BPTreeNode) : List Nat → NodePtr → Option NodePtr
  | [], p => some p
  | i :: path, p => nodes[p]?.bind fun n => (n.child? i).bind (follow nodes path)

/-- A walk from `root` along `path` ends at the node `n` with address `p`. -/
def WalksTo (nodes : List BPTreeNode) (root : NodePtr) (path : List Nat) (p : NodePtr)
    (n : BPTreeNode) : Prop :=
  follow nodes path root = some p ∧ nodes[p]? = some n

/-- The structural invariant of the index, on the heap. -/
structure BPTreeShape (nodes : List BPTreeNode) (root : NodePtr) : Prop where
  /-- Every node reached is allocated. -/
  live : ∀ path p, follow nodes path root = some p → ∃ n, nodes[p]? = some n
  /-- Every node is reached along one path: no sharing and no cycle. -/
  tree : ∀ path path' p, follow nodes path root = some p → follow nodes path' root = some p →
    path = path'
  keys_sorted : ∀ path p n, WalksTo nodes root path p n → n.usedKeys.Pairwise (· < ·)
  /-- Left of a separator keys are below it. -/
  keys_left : ∀ path p n i k, WalksTo nodes root path p n → n.isLeaf = false →
    n.usedKeys[i]? = some k → ∀ below q l, WalksTo nodes root (path ++ i :: below) q l →
      ∀ key ∈ l.usedKeys, key < k
  /-- Right of a separator keys are not below it. -/
  keys_right : ∀ path p n i k, WalksTo nodes root path p n → n.isLeaf = false →
    n.usedKeys[i]? = some k → ∀ below q r, WalksTo nodes root (path ++ (i + 1) :: below) q r →
      ∀ key ∈ r.usedKeys, k ≤ key
  /-- The leaves are the nodes at one depth. -/
  leaf_depth : ∃ depth, ∀ path p n, WalksTo nodes root path p n →
    (n.isLeaf = true ↔ path.length = depth)
  numKeys_bounds : ∀ path p n, WalksTo nodes root path p n →
    1 ≤ n.numKeys ∧ n.numKeys ≤ bptreeMaxKeys
  /-- `numKeys` counts keys that are there. -/
  numKeys_eq : ∀ path p n, WalksTo nodes root path p n → n.usedKeys.length = n.numKeys
  leaf_numKeys : ∀ path p n, WalksTo nodes root path p n → path ≠ [] → n.isLeaf = true →
    2 ≤ n.numKeys
  /-- One more child than keys, none of them `NULL`. -/
  children : ∀ path p n, WalksTo nodes root path p n → n.isLeaf = false →
    n.usedChildren.length = n.numKeys + 1 ∧ none ∉ n.usedChildren
  root_parent : ∀ n, nodes[root]? = some n → n.parent = none
  /-- A child points back to the node that holds it. -/
  child_parent : ∀ path p n i q c, WalksTo nodes root path p n → n.child? i = some q →
    nodes[q]? = some c → c.parent = some p

/-! ## Walks in a represented tree -/

section Walks

variable {nodes : List BPTreeNode} {parent out : Option NodePtr} {h : Nat} {t : IndexTree h}

/-- A walk over the heap is a descent in the tree. -/
theorem Rep.follow_eq (ht : Rep nodes parent out t) (path : List Nat) :
    follow nodes path t.addr = (t.subtree path).map fun u => u.2.addr := by
  induction t using Tree.induction generalizing parent out path with
  | hleaf a es =>
    obtain ⟨n, hn, hleaf⟩ := rep_leaf.mp ht
    cases path with
    | nil => rfl
    | cons i path => simp [follow, hn, BPTreeNode.child?, hleaf.isLeaf]
  | hnode h a c ih =>
    obtain ⟨n, hn, hinner, hkids⟩ := rep_node.mp ht
    cases path with
    | nil => rfl
    | cons i path =>
      have hchild : n.child? i = c.trees[i]?.map Tree.addr := by
        rw [BPTreeNode.child?, if_neg (by simp [hinner.isLeaf]), hinner.children,
          List.getElem?_map]
        cases c.trees[i]? <;> rfl
      rw [follow, Tree.addr_node, hn, Option.bind_some, hchild, Tree.subtree_node_cons]
      cases hu : c.trees[i]? with
      | none => rfl
      | some u =>
        obtain ⟨o, hrep⟩ := hkids.of_mem (List.mem_of_getElem? hu)
        exact ih u (List.mem_of_getElem? hu) hrep path

/-- Subtrees of a represented tree are represented. -/
theorem Rep.subtree (ht : Rep nodes parent out t) {path : List Nat}
    {u : (h' : Nat) × IndexTree h'} (hu : t.subtree path = some u) :
    ∃ parent' out', Rep nodes parent' out' u.2 := by
  refine Tree.subtree_of_inherited (P := fun _ u => ∃ parent' out', Rep nodes parent' out' u)
    (fun h a c hc v hv => ?_) hu ⟨parent, out, ht⟩
  obtain ⟨parent', out', hrep⟩ := hc
  obtain ⟨n, -, -, hkids⟩ := rep_node.mp hrep
  obtain ⟨o, hv'⟩ := hkids.of_mem hv
  exact ⟨some a, o, hv'⟩

/-- The node at the end of a walk is the root of a subtree. -/
theorem Rep.walksTo (ht : Rep nodes parent out t) {path : List Nat} {p : NodePtr}
    {n : BPTreeNode} (hw : WalksTo nodes t.addr path p n) :
    ∃ u, t.subtree path = some u ∧ u.2.addr = p ∧ nodes[u.2.addr]? = some n ∧
      ∃ parent' out', Rep nodes parent' out' u.2 := by
  obtain ⟨hfollow, hn⟩ := hw
  rw [ht.follow_eq, Option.map_eq_some_iff] at hfollow
  obtain ⟨u, hu, rfl⟩ := hfollow
  exact ⟨u, hu, rfl, hn, ht.subtree hu⟩

/-- The keys of the root node are keys of the tree. -/
theorem Rep.usedKeys_subset (ht : Rep nodes parent out t) {n : BPTreeNode}
    (hn : nodes[t.addr]? = some n) : n.usedKeys ⊆ t.allKeys := by
  induction t using Tree.cases with
  | hleaf a es =>
    obtain ⟨n', hn', hleaf⟩ := rep_leaf.mp ht
    obtain rfl := Option.some.inj (hn'.symm.trans hn)
    exact hleaf.keys ▸ List.Subset.refl _
  | hnode h a c =>
    obtain ⟨n', hn', hinner, -⟩ := rep_node.mp ht
    obtain rfl := Option.some.inj (hn'.symm.trans hn)
    rw [hinner.keys]
    exact List.subset_append_left _ _

theorem Rep.usedKeys_sorted (ht : Rep nodes parent out t) {lo : WithBot Int} {hi : WithTop Int}
    (hwithin : t.Within lo hi) {n : BPTreeNode} (hn : nodes[t.addr]? = some n) :
    n.usedKeys.Pairwise (· < ·) := by
  induction t using Tree.cases with
  | hleaf a es =>
    obtain ⟨n', hn', hleaf⟩ := rep_leaf.mp ht
    obtain rfl := Option.some.inj (hn'.symm.trans hn)
    rw [hleaf.keys]
    exact (Tree.within_leaf.mp hwithin).1
  | hnode h a c =>
    obtain ⟨n', hn', hinner, -⟩ := rep_node.mp ht
    obtain rfl := Option.some.inj (hn'.symm.trans hn)
    rw [hinner.keys]
    exact (Tree.within_node.mp hwithin).keys_sorted.1

/-- The root node is a leaf exactly when the height is 0. -/
theorem Rep.isLeaf_iff (ht : Rep nodes parent out t) {n : BPTreeNode}
    (hn : nodes[t.addr]? = some n) : n.isLeaf = true ↔ h = 0 := by
  induction t using Tree.cases with
  | hleaf a es =>
    obtain ⟨n', hn', hleaf⟩ := rep_leaf.mp ht
    obtain rfl := Option.some.inj (hn'.symm.trans hn)
    simp [hleaf.isLeaf]
  | hnode h a c =>
    obtain ⟨n', hn', hinner, -⟩ := rep_node.mp ht
    obtain rfl := Option.some.inj (hn'.symm.trans hn)
    simp [hinner.isLeaf]

/-- The used keys of the root node are as many as it says, within its bounds. -/
theorem Rep.numKeys_bounds (ht : Rep nodes parent out t) {j k : Nat}
    (hfilled : t.Filled bptreeOrder j k) {n : BPTreeNode} (hn : nodes[t.addr]? = some n) :
    n.usedKeys.length = n.numKeys ∧ n.numKeys ≤ bptreeMaxKeys ∧
      (n.isLeaf = true → j ≤ n.numKeys) ∧ (n.isLeaf = false → k ≤ n.numKeys) := by
  induction t using Tree.cases with
  | hleaf a es =>
    obtain ⟨n', hn', hleaf⟩ := rep_leaf.mp ht
    obtain rfl := Option.some.inj (hn'.symm.trans hn)
    rw [hleaf.keys, List.length_map, hleaf.numKeys]
    exact ⟨rfl, hleaf.length_le, fun _ => (Tree.filled_leaf.mp hfilled).1,
      fun h => by simp [hleaf.isLeaf] at h⟩
  | hnode h a c =>
    obtain ⟨n', hn', hinner, -⟩ := rep_node.mp ht
    obtain rfl := Option.some.inj (hn'.symm.trans hn)
    rw [hinner.keys, hinner.numKeys]
    exact ⟨rfl, hinner.length_le, fun h => by simp [hinner.isLeaf] at h,
      fun _ => (Tree.filled_node.mp hfilled).1⟩

/-- An internal root node, with the chain it stands for. -/
theorem Rep.inner {u : (h : Nat) × IndexTree h} (ht : Rep nodes parent out u.2) {n : BPTreeNode}
    (hn : nodes[u.2.addr]? = some n) (hinner : n.isLeaf = false) :
    ∃ h', ∃ a, ∃ c : Chain Int (IndexTree h'), u = ⟨h' + 1, Lib.Tree.node a c⟩ ∧
      InnerNode n parent c ∧ Linked (Rep nodes (some a)) out c.trees := by
  obtain ⟨h, t⟩ := u
  induction t using Tree.cases with
  | hleaf a es =>
    have hleaf := (ht.isLeaf_iff hn).mpr rfl
    simp [hinner] at hleaf
  | hnode h a c =>
    obtain ⟨n', hn', hnode, hkids⟩ := rep_node.mp ht
    obtain rfl := Option.some.inj (hn'.symm.trans hn)
    exact ⟨h, a, c, rfl, hnode, hkids⟩

/-- A walk that goes on through child `i` ends below that child. -/
theorem Rep.keys_below (ht : Rep nodes parent out t) {path below : List Nat} {i h' : Nat}
    {a q : NodePtr} {c : Chain Int (IndexTree h')} {l : BPTreeNode}
    (hu : t.subtree path = some ⟨h' + 1, Lib.Tree.node a c⟩)
    (hw : WalksTo nodes t.addr (path ++ i :: below) q l) :
    ∃ v, c.trees[i]? = some v ∧ l.usedKeys ⊆ v.allKeys := by
  obtain ⟨w, hw, -, hl, parent', out', hrep⟩ := ht.walksTo hw
  rw [Tree.subtree_append, hu, Option.bind_some, Tree.subtree_node_cons,
    Option.bind_eq_some_iff] at hw
  obtain ⟨v, hv, hw⟩ := hw
  exact ⟨v, hv, List.Subset.trans (hrep.usedKeys_subset hl) (Tree.subtree_subset hw).2⟩

end Walks

section Shape

variable {m : Memory} {h : Nat} {t : IndexTree h}

/-- Every subtree is ordered. -/
theorem IsIndex.within_subtree (ht : IsIndex m t) {path : List Nat}
    {u : (h' : Nat) × IndexTree h'} (hu : t.subtree path = some u) :
    ∃ lo hi, u.2.Within lo hi := by
  refine Tree.subtree_of_inherited
    (P := fun _ u => ∃ (lo : WithBot Int) (hi : WithTop Int), u.Within lo hi)
    (fun h a c hc v hv => ?_) hu ⟨⊥, ⊤, ht.within⟩
  obtain ⟨lo, hi, hbetween⟩ := hc
  obtain ⟨x, y, -, -, hv'⟩ := (Tree.within_node.mp hbetween).of_mem hv
  exact ⟨x, y, hv'⟩

/-- Every subtree is filled, and those below the root more than the root. -/
theorem IsIndex.filled_subtree (ht : IsIndex m t) {path : List Nat}
    {u : (h' : Nat) × IndexTree h'} (hu : t.subtree path = some u) :
    u.2.Filled bptreeOrder 1 1 ∧ (path ≠ [] → u.2.Filled bptreeOrder 2 1) := by
  have hone : u.2.Filled bptreeOrder 1 1 :=
    Tree.subtree_of_inherited (P := fun _ u => u.Filled bptreeOrder 1 1)
      (fun h a c hc v hv => ((Tree.filled_node.mp hc).2.2 v hv).mono (by decide) (by decide)) hu
      ht.filled
  refine ⟨hone, fun hpath => ?_⟩
  obtain ⟨i, rest, rfl⟩ := List.exists_cons_of_ne_nil hpath
  obtain ⟨v, hv, hu⟩ : ∃ v, t.subtree [i] = some v ∧ v.2.subtree rest = some u := by
    rw [← List.singleton_append, Tree.subtree_append, Option.bind_eq_some_iff] at hu
    exact hu
  refine Tree.subtree_of_inherited (P := fun _ u => u.Filled bptreeOrder 2 1)
    (fun h a c hc v hv => (Tree.filled_node.mp hc).2.2 v hv) hu ?_
  have hfilled := ht.filled
  clear hu hone ht
  induction t using Tree.cases with
  | hleaf a es => simp at hv
  | hnode h a c =>
    rw [Tree.subtree_node_cons, Option.bind_eq_some_iff] at hv
    obtain ⟨w, hw, hv⟩ := hv
    obtain rfl := Option.some.inj ((Tree.subtree_nil w).symm.trans hv)
    exact (Tree.filled_node.mp hfilled).2.2 w (List.mem_of_getElem? hw)

/-- The invariants of the tree are the invariants of the heap. -/
theorem IsIndex.shape (ht : IsIndex m t) : BPTreeShape m.nodes t.addr where
  -- a path of the heap is a path of the tree
  live path p hp := by
    rw [ht.rep.follow_eq, Option.map_eq_some_iff] at hp
    obtain ⟨u, hu, rfl⟩ := hp
    obtain ⟨parent, out, hrep⟩ := ht.rep.subtree hu
    obtain ⟨n, hn, -⟩ := hrep.root
    exact ⟨n, hn⟩
  tree path path' p hp hp' := by
    rw [ht.rep.follow_eq, Option.map_eq_some_iff] at hp hp'
    obtain ⟨u, hu, rfl⟩ := hp
    obtain ⟨u', hu', haddr⟩ := hp'
    exact Tree.subtree_injective ht.nodup hu hu' haddr.symm
  keys_sorted path p n hw := by
    obtain ⟨u, hu, -, hn, parent, out, hrep⟩ := ht.rep.walksTo hw
    obtain ⟨lo, hi, hwithin⟩ := ht.within_subtree hu
    exact hrep.usedKeys_sorted hwithin hn
  -- the keys below a child lie between the separators around it
  keys_left path p n i k hw hinner hk below q l hl key hkey := by
    obtain ⟨u, hu, -, hn, parent, out, hrep⟩ := ht.rep.walksTo hw
    obtain ⟨lo, hi, hwithin⟩ := ht.within_subtree hu
    obtain ⟨h', a, c, rfl, hnode, -⟩ := hrep.inner hn hinner
    obtain ⟨v, hv, hsub⟩ := ht.rep.keys_below hu hl
    rw [hnode.keys] at hk
    have hr : i + 1 < c.trees.length := by
      have := (List.getElem?_eq_some_iff.mp hk).1
      rw [c.length_trees]
      omega
    obtain ⟨⟨x, -, hbelow⟩, -⟩ := (Tree.within_node.mp hwithin).of_getElem? hk hv
      (List.getElem?_eq_getElem hr)
    exact WithTop.coe_lt_coe.mp (hbelow.bounds key (hsub hkey)).2
  keys_right path p n i k hw hinner hk below q r hr key hkey := by
    obtain ⟨u, hu, -, hn, parent, out, hrep⟩ := ht.rep.walksTo hw
    obtain ⟨lo, hi, hwithin⟩ := ht.within_subtree hu
    obtain ⟨h', a, c, rfl, hnode, -⟩ := hrep.inner hn hinner
    obtain ⟨v, hv, hsub⟩ := ht.rep.keys_below hu hr
    rw [hnode.keys] at hk
    have hi : i < c.trees.length := by
      have := (List.getElem?_eq_some_iff.mp hk).1
      rw [c.length_trees]
      omega
    obtain ⟨-, x, -, habove⟩ := (Tree.within_node.mp hwithin).of_getElem? hk
      (List.getElem?_eq_getElem hi) hv
    exact WithBot.coe_le_coe.mp (habove.bounds key (hsub hkey)).1
  -- all leaves of a tree have the same height
  leaf_depth := by
    refine ⟨h, fun path p n hw => ?_⟩
    obtain ⟨u, hu, -, hn, parent, out, hrep⟩ := ht.rep.walksTo hw
    have hheight := Tree.subtree_height hu
    rw [hrep.isLeaf_iff hn]
    omega
  -- the bounds are those of the tree, read off the arrays
  numKeys_bounds path p n hw := by
    obtain ⟨u, hu, -, hn, parent, out, hrep⟩ := ht.rep.walksTo hw
    obtain ⟨-, hle, hleaf, hinner⟩ := hrep.numKeys_bounds (ht.filled_subtree hu).1 hn
    refine ⟨?_, hle⟩
    cases h : n.isLeaf with
    | true => exact hleaf h
    | false => exact hinner h
  numKeys_eq path p n hw := by
    obtain ⟨u, hu, -, hn, parent, out, hrep⟩ := ht.rep.walksTo hw
    exact (hrep.numKeys_bounds (ht.filled_subtree hu).1 hn).1
  leaf_numKeys path p n hw hpath hleaf := by
    obtain ⟨u, hu, -, hn, parent, out, hrep⟩ := ht.rep.walksTo hw
    exact (hrep.numKeys_bounds ((ht.filled_subtree hu).2 hpath) hn).2.2.1 hleaf
  children path p n hw hinner := by
    obtain ⟨u, hu, -, hn, parent, out, hrep⟩ := ht.rep.walksTo hw
    obtain ⟨h', a, c, rfl, hnode, -⟩ := hrep.inner hn hinner
    rw [hnode.children, List.length_map, Chain.length_trees, hnode.numKeys]
    exact ⟨rfl, by simp⟩
  root_parent n hn := by
    obtain ⟨n', hn', hparent⟩ := ht.rep.root
    obtain rfl := Option.some.inj (hn'.symm.trans hn)
    exact hparent
  -- the representation of a child names its parent
  child_parent path p n i q nq hw hchild hc := by
    obtain ⟨u, hu, rfl, hn, parent, out, hrep⟩ := ht.rep.walksTo hw
    have hinner : n.isLeaf = false := by
      by_contra h
      simp [BPTreeNode.child?, h] at hchild
    obtain ⟨h', a, c, rfl, hnode, hkids⟩ := hrep.inner hn hinner
    rw [BPTreeNode.child?, if_neg (by simp [hinner]), hnode.children, List.getElem?_map] at hchild
    obtain ⟨v, hv, rfl⟩ : ∃ v, c.trees[i]? = some v ∧ v.addr = q := by
      cases hv : c.trees[i]? with
      | none => simp [hv] at hchild
      | some v => exact ⟨v, rfl, by simpa [hv] using hchild⟩
    obtain ⟨o, hv'⟩ := hkids.of_mem (List.mem_of_getElem? hv)
    obtain ⟨nv, hnv, hparent⟩ := hv'.root
    obtain rfl := Option.some.inj (hnv.symm.trans hc)
    exact hparent

end Shape

private theorem eq_nil_of_lookup_eq_none {ops : List (Int × RecPtr)}
    (hops : ∀ key, ops.lookup key = none) : ops = [] := by
  cases ops with
  | nil => rfl
  | cons op rest =>
    obtain ⟨key, value⟩ := op
    have hfirst := hops key
    rw [Tree.lookup_cons_pair, if_pos rfl] at hfirst
    cases hfirst

/-- The structural invariant holds after any insertions. -/
theorem bptree_shape (ops : List (Int × RecPtr)) :
    ∃ results m, (bptreeInsertAll ops).run bptreeCreate = some (results, m) ∧
      ((m.root = none ∧ ops = []) ∨ ∃ root, m.root = some root ∧ BPTreeShape m.nodes root) := by
  obtain ⟨results, m, es, hrun, -, hm, -, hlookup⟩ :=
    bptreeCreate_indexed.run_bptreeInsertAll rfl ops
  refine ⟨results, m, hrun, ?_⟩
  rcases hm with ⟨hnone, rfl⟩ | ⟨h, t, ht, -⟩
  · exact .inl ⟨hnone, eq_nil_of_lookup_eq_none fun key => (hlookup key).symm⟩
  · exact .inr ⟨t.addr, ht.root, ht.shape⟩

/-! ## The chain of leaves -/

/-- The leaf after a list of leaves. -/
def leafAfter (out : Option NodePtr) : List (Leaf NodePtr Int RecPtr) → Option NodePtr
  | [] => out
  | l :: _ => some l.addr

/-- Leaf nodes with these entries, each pointing to the next one. -/
def LinkedLeaves (nodes : List BPTreeNode) (out : Option NodePtr) :
    List (Leaf NodePtr Int RecPtr) → Prop
  | [] => True
  | l :: rest =>
    (∃ n parent, nodes[l.addr]? = some n ∧ LeafNode n parent (leafAfter out rest) l.entries) ∧
      LinkedLeaves nodes out rest

section Leaves

variable {nodes : List BPTreeNode} {parent out : Option NodePtr} {h : Nat} {t : IndexTree h}

theorem leafAfter_append (xs ys : List (Leaf NodePtr Int RecPtr)) :
    leafAfter out (xs ++ ys) = leafAfter (leafAfter out ys) xs := by
  cases xs <;> rfl

theorem linkedLeaves_append {xs ys : List (Leaf NodePtr Int RecPtr)} :
    LinkedLeaves nodes out (xs ++ ys) ↔
      LinkedLeaves nodes (leafAfter out ys) xs ∧ LinkedLeaves nodes out ys := by
  induction xs with
  | nil => simp [LinkedLeaves]
  | cons l rest ih => simp [LinkedLeaves, ih, leafAfter_append, and_assoc]

theorem leafAfter_leaves (t : IndexTree h) (out : Option NodePtr) :
    leafAfter out t.leaves = some t.firstLeaf.addr := by
  obtain ⟨ls, hls⟩ := t.leaves_eq_firstLeaf_cons
  rw [hls, leafAfter]

/-- Linked children have linked leaves when each of them has. -/
private theorem linkedLeaves_flatMap {ts : List (IndexTree h)}
    (hleaves : ∀ u ∈ ts, ∀ o, Rep nodes parent o u → LinkedLeaves nodes o u.leaves)
    (hts : Linked (Rep nodes parent) out ts) :
    LinkedLeaves nodes out (ts.flatMap Tree.leaves) := by
  induction ts with
  | nil => trivial
  | cons u ts ih =>
    obtain ⟨hu, hts⟩ := hts
    have hnext : leafAfter out (ts.flatMap Tree.leaves) = nextLeaf out ts := by
      cases ts with
      | nil => rfl
      | cons v vs => rw [List.flatMap_cons, leafAfter_append, leafAfter_leaves, nextLeaf]
    rw [List.flatMap_cons, linkedLeaves_append, hnext]
    exact ⟨hleaves u (by simp) _ hu, ih (fun v hv => hleaves v (by simp [hv])) hts⟩

/-- The leaves of a represented tree are linked from left to right. -/
theorem Rep.linkedLeaves (ht : Rep nodes parent out t) : LinkedLeaves nodes out t.leaves := by
  induction t using Tree.induction generalizing parent out with
  | hleaf a es =>
    obtain ⟨n, hn, hleaf⟩ := rep_leaf.mp ht
    exact ⟨⟨n, parent, hn, hleaf⟩, trivial⟩
  | hnode h a c ih =>
    obtain ⟨n, -, -, hkids⟩ := rep_node.mp ht
    rw [Tree.leaves_node]
    exact linkedLeaves_flatMap (fun u hu _ hrep => ih u hu hrep) hkids

end Leaves

/-- The leaves below a node in child order; `none` when the walk does not end. -/
def leavesBelow (nodes : List BPTreeNode) : Nat → NodePtr → Option (List NodePtr)
  | 0, _ => none
  | fuel + 1, p => nodes[p]?.bind fun n =>
    if n.isLeaf then some [p]
    else (n.usedChildren.mapM fun c => Option.bind c (leavesBelow nodes fuel)).map List.flatten

/-- From a node down along `children[0]`. -/
def leftmostLeaf (nodes : List BPTreeNode) : Nat → NodePtr → Option NodePtr
  | 0, _ => none
  | fuel + 1, p => nodes[p]?.bind fun n =>
    if n.isLeaf then some p else (n.child? 0).bind (leftmostLeaf nodes fuel)

/-- The nodes visited from a leaf along `next` until `NULL`. -/
def leafChain (nodes : List BPTreeNode) : Nat → Option NodePtr → Option (List NodePtr)
  | _, none => some []
  | 0, some _ => none
  | fuel + 1, some p => nodes[p]?.bind fun n => (leafChain nodes fuel n.next).map (p :: ·)

/-- The key-value pairs of a leaf. -/
def BPTreeNode.pairs (n : BPTreeNode) : List (Int × Option RecPtr) :=
  n.usedKeys.zip n.usedValues

section Chain

variable {nodes : List BPTreeNode} {parent out : Option NodePtr} {h : Nat} {t : IndexTree h}

theorem Rep.leavesBelow_eq (ht : Rep nodes parent out t) {fuel : Nat} (hfuel : h < fuel) :
    leavesBelow nodes fuel t.addr = some (t.leaves.map Leaf.addr) := by
  obtain ⟨fuel, rfl⟩ : ∃ f, fuel = f + 1 := ⟨fuel - 1, by omega⟩
  induction t using Tree.induction generalizing parent out fuel with
  | hleaf a es =>
    obtain ⟨n, hn, hleaf⟩ := rep_leaf.mp ht
    simp [leavesBelow, hn, hleaf.isLeaf]
  | hnode h a c ih =>
    obtain ⟨n, hn, hinner, hkids⟩ := rep_node.mp ht
    obtain ⟨fuel, rfl⟩ : ∃ f, fuel = f + 1 := ⟨fuel - 1, by omega⟩
    have hmap : (n.usedChildren.mapM fun c => Option.bind c (leavesBelow nodes (fuel + 1))) =
        some (c.trees.map fun u => u.leaves.map Leaf.addr) := by
      rw [hinner.children]
      generalize c.trees = ts at ih hkids
      induction ts with
      | nil => rfl
      | cons u ts iht =>
        have hu := ih u (by simp) hkids.1 fuel (by omega)
        have hts := iht (fun v hv => ih v (by simp [hv])) hkids.2
        rw [List.map_cons, List.mapM_cons, hts]
        simp [hu]
    rw [leavesBelow, Tree.addr_node, hn, Option.bind_some, if_neg (by simp [hinner.isLeaf]), hmap]
    rw [Option.map_some, Tree.leaves_node, List.map_flatMap]
    rfl

theorem Rep.leftmostLeaf_eq (ht : Rep nodes parent out t) {fuel : Nat} (hfuel : h < fuel) :
    leftmostLeaf nodes fuel t.addr = some t.firstLeaf.addr := by
  obtain ⟨fuel, rfl⟩ : ∃ f, fuel = f + 1 := ⟨fuel - 1, by omega⟩
  induction t using Tree.induction generalizing parent out fuel with
  | hleaf a es =>
    obtain ⟨n, hn, hleaf⟩ := rep_leaf.mp ht
    simp [leftmostLeaf, hn, hleaf.isLeaf]
  | hnode h a c ih =>
    obtain ⟨n, hn, hinner, hkids⟩ := rep_node.mp ht
    obtain ⟨fuel, rfl⟩ : ∃ f, fuel = f + 1 := ⟨fuel - 1, by omega⟩
    obtain ⟨ts, hts⟩ := c.trees_eq_head_cons
    have hmem : c.head ∈ c.trees := by simp [hts]
    obtain ⟨o, hrep⟩ := hkids.of_mem hmem
    have hchild : n.child? 0 = some c.head.addr := by
      rw [BPTreeNode.child?, if_neg (by simp [hinner.isLeaf]), hinner.children, hts]
      rfl
    rw [leftmostLeaf, Tree.addr_node, hn, Option.bind_some, if_neg (by simp [hinner.isLeaf]),
      hchild]
    exact ih _ hmem hrep fuel (by omega)

/-- Following `next` visits the linked leaves in order and stops. -/
theorem LinkedLeaves.leafChain_eq {ls : List (Leaf NodePtr Int RecPtr)}
    (hls : LinkedLeaves nodes none ls) {fuel : Nat} (hfuel : ls.length ≤ fuel) :
    leafChain nodes fuel (leafAfter none ls) = some (ls.map Leaf.addr) := by
  induction ls generalizing fuel with
  | nil => cases fuel <;> rfl
  | cons l rest ih =>
    obtain ⟨⟨n, parent, hn, hleaf⟩, hrest⟩ := hls
    obtain ⟨fuel, rfl⟩ : ∃ f, fuel = f + 1 := ⟨fuel - 1, by simp at hfuel; omega⟩
    rw [leafAfter, leafChain, hn, Option.bind_some, hleaf.next,
      ih hrest (by simpa using hfuel)]
    rfl

/-- The pairs in linked leaves are the entries. -/
theorem LinkedLeaves.pairs_eq {ls : List (Leaf NodePtr Int RecPtr)}
    (hls : LinkedLeaves nodes out ls) :
    (ls.map Leaf.addr).flatMap (fun p => (nodes[p]?.map BPTreeNode.pairs).getD []) =
      (ls.flatMap Leaf.entries).map fun e => (e.1, some e.2) := by
  induction ls with
  | nil => rfl
  | cons l rest ih =>
    obtain ⟨⟨n, parent, hn, hleaf⟩, hrest⟩ := hls
    have hpairs : n.pairs = l.entries.map fun e => (e.1, some e.2) := by
      rw [BPTreeNode.pairs, hleaf.keys, hleaf.values, List.zip_map']
    rw [List.map_cons, List.flatMap_cons, ih hrest, hn, Option.map_some, Option.getD_some, hpairs,
      List.flatMap_cons, List.map_append]

/-- There are no more leaves than nodes. -/
theorem IsIndex.length_leaves_le {m : Memory} (ht : IsIndex m t) :
    t.leaves.length ≤ m.nodes.length := by
  have hsub : t.addrs ⊆ List.range m.nodes.length := fun a ha =>
    List.mem_range.mpr (ht.rep.addr_lt a ha)
  have hle := (List.subperm_of_subset ht.nodup hsub).length_le
  have hleaves := t.leaves_addr_sublist.length_le
  rw [List.length_map] at hleaves
  rw [List.length_range] at hle
  exact hleaves.trans hle

/-- The leaves below the root are the chain of leaves, and they hold the entries. -/
theorem IsIndex.leafChain_eq {m : Memory} (ht : IsIndex m t) :
    leavesBelow m.nodes m.nodes.length t.addr = some (t.leaves.map Leaf.addr) ∧
      leafChain m.nodes m.nodes.length (leftmostLeaf m.nodes m.nodes.length t.addr) =
        some (t.leaves.map Leaf.addr) ∧
      (t.leaves.map Leaf.addr).flatMap (fun p => (m.nodes[p]?.map BPTreeNode.pairs).getD []) =
        t.toList.map fun e => (e.1, some e.2) := by
  have hheight := ht.rep.height_lt ht.nodup
  have hlinked := ht.rep.linkedLeaves
  refine ⟨ht.rep.leavesBelow_eq hheight, ?_, ?_⟩
  · rw [ht.rep.leftmostLeaf_eq hheight, ← leafAfter_leaves t none]
    exact hlinked.leafChain_eq ht.length_leaves_le
  · rw [hlinked.pairs_eq, Tree.toList_eq_flatMap_leaves]

end Chain

/-- The chain of leaves is complete and sorted: from the leftmost leaf, `next`
visits exactly the leaves from left to right and stops, and the pairs on the way
are the accepted ones in strictly ascending key order. -/
theorem bptree_leafChain (ops : List (Int × RecPtr)) :
    ∃ results m, (bptreeInsertAll ops).run bptreeCreate = some (results, m) ∧
      ((m.root = none ∧ ops = []) ∨ ∃ root leaves, ∃ es : List (Int × RecPtr),
        m.root = some root ∧
        leavesBelow m.nodes m.nodes.length root = some leaves ∧
        leafChain m.nodes m.nodes.length (leftmostLeaf m.nodes m.nodes.length root) = some leaves ∧
        leaves.Nodup ∧
        leaves.flatMap (fun p => (m.nodes[p]?.map BPTreeNode.pairs).getD []) =
          es.map (fun e => (e.1, some e.2)) ∧
        (es.map Prod.fst).Pairwise (· < ·) ∧ es.Perm (accepted ops results)) := by
  obtain ⟨results, m, es, hrun, -, hm, hperm, hlookup⟩ :=
    bptreeCreate_indexed.run_bptreeInsertAll rfl ops
  refine ⟨results, m, hrun, ?_⟩
  rcases hm with ⟨hnone, rfl⟩ | ⟨h, t, ht, rfl⟩
  · exact .inl ⟨hnone, eq_nil_of_lookup_eq_none fun key => (hlookup key).symm⟩
  · obtain ⟨hbelow, hchain, hpairs⟩ := ht.leafChain_eq
    exact .inr ⟨t.addr, t.leaves.map Leaf.addr, t.toList, ht.root, hbelow, hchain,
      ht.nodup.sublist t.leaves_addr_sublist, hpairs, ht.within.sorted, hperm⟩

end SqlApi.Core

import SqlApi.Core.BPTreeInsert

/-!
# The index refines a finite map

`bptree_insert` on a heap that represents a tree, put together: the leaf, the
climb to the root, the new root. `BPTreeInv` is what holds between calls.

## How the proof goes

The induction is over the tree, from the leaf of the key upwards (`InsertedBelow`). At each subtree
the code has replaced it by a chain of one or two trees, and what is left to run is the climb from
there (`climb`). At the root the chain is the new tree, or its two halves get a common root
(`ClimbedTo`, `IndexInserted`).

The same walk says how many nodes an insertion asks for (`IndexTree.allocs`), from which follows
what it does when the memory for some of them is refused.
-/

namespace SqlApi.Core

open SqlApi.Lib

/-! ## The climb through a subtree -/

/-- `bptree_insert` once the leaf is found and the key is known to be new. -/
def bptreeInsertAt (fuel : Nat) (leaf : NodePtr) (key : Int) (value : RecPtr) : Prog Bool := do
  let n ← getNode leaf
  if n.numKeys < bptreeMaxKeys then
    bptreeInsertIntoLeaf leaf key value
    pure true
  else bptreeSplitLeafAndInsert fuel leaf key value

/-- What is left to do when a subtree has become a chain: attach the second half
to the parent, if there is one. -/
def climb {h : Nat} (fuel : Nat) : Chain Int (IndexTree h) → Prog Bool
  | .one _ => pure true
  | .cons l k rest => bptreeInsertIntoParent fuel l.addr k rest.head.addr

/-- Insertion into the tree, with addresses as labels. -/
abbrev IndexTree.insert {h : Nat} (t : IndexTree h) (key : Int) (value : RecPtr) (n : Nat) :
    Chain Int (IndexTree h) × Nat :=
  Tree.insert bptreeOrder id key value t n

/-- The code has inserted into one subtree and changed nothing else: running `p`
comes down to the climb from the chain that replaces the subtree. -/
def InsertedBelow {h : Nat} (m : Memory) (parent out : Option NodePtr) (t : IndexTree h)
    (key : Int) (value : RecPtr) (fuel : Nat) (p : Prog Bool) : Prop :=
  ∃ nodes', nodes'.length = (t.insert key value m.nodes.length).2 ∧
    p.run m = (climb fuel (t.insert key value m.nodes.length).1).run
      (m.withNodes nodes' ((t.insert key value m.nodes.length).2 - m.nodes.length)) ∧
    Linked (Rep nodes' parent) out (t.insert key value m.nodes.length).1.trees ∧
    ∀ b < m.nodes.length, b ∉ t.addrs → nodes'[b]? = m.nodes[b]?

private theorem order_pos : 0 < bptreeOrder := by decide

section Climb

variable {h : Nat} {m : Memory} {parent out : Option NodePtr} {key : Int} {value : RecPtr}

/-- At the leaf. -/
theorem insertedBelow_leaf {a : NodePtr} {es : List (Int × RecPtr)}
    (ht : Rep m.nodes parent out (Tree.leaf a es))
    (hm : m.Granted ((IndexTree.insert (Tree.leaf a es) key value m.nodes.length).2 -
      m.nodes.length)) (fuel : Nat) :
    InsertedBelow m parent out (Tree.leaf a es) key value fuel
      (bptreeInsertAt fuel a key value) := by
  obtain ⟨n, hn, hleaf⟩ := rep_leaf.mp ht
  have hlt : a < m.nodes.length := (List.getElem?_eq_some_iff.mp hn).1
  have hle := hleaf.length_le
  have hlen : (Tree.insertEntry key value es).length = es.length + 1 := Tree.length_insertEntry es
  rw [InsertedBelow]
  simp only [IndexTree.insert, Tree.insert_leaf] at hm ⊢
  rcases Tree.splitLeaf_cases order_pos a (id m.nodes.length) (Tree.insertEntry key value es)
    with ⟨hroom, h⟩ | ⟨hfull, l, k, w, r, hes, hl, h⟩
  · -- the leaf has room for the entry
    have hcount : n.numKeys < bptreeMaxKeys := by
      rw [hleaf.numKeys]
      simp only [bptreeMaxKeys, bptreeOrder] at hroom ⊢
      omega
    obtain ⟨n', hn', hrun⟩ :=
      run_bptreeInsertIntoLeaf hn hleaf (hleaf.numKeys ▸ hcount) key value
    simp only [h]
    refine ⟨m.nodes.set a n', by simp, ?_, ⟨rep_leaf.mpr ⟨n', List.getElem?_set_self hlt, hn'⟩,
      trivial⟩, fun b _ hb => ?_⟩
    · rw [bptreeInsertAt, run_bind_of (run_getNode_of _ hn), if_pos hcount, run_bind_of hrun]
      simp [climb, Memory.setNode_eq_withNodes]
    · rw [List.getElem?_set_ne (by simpa [eq_comm] using hb)]
  · -- the leaf is full: its second half is a new node
    have hcount : n.numKeys = bptreeMaxKeys := by
      rw [hleaf.numKeys]
      simp only [bptreeMaxKeys, bptreeOrder] at hfull hle ⊢
      omega
    simp only [h] at hm
    obtain ⟨left, right, hleft, hright, hrun⟩ :=
      run_bptreeSplitLeafAndInsert (by simpa using hm) hn hleaf (hleaf.numKeys ▸ hcount) hes hl fuel
    simp only [h]
    refine ⟨m.nodes.set a left ++ [right], by simp, ?_, ⟨?_, ?_, trivial⟩, fun b hlt hb => ?_⟩
    · rw [bptreeInsertAt, run_bind_of (run_getNode_of _ hn), if_neg (by omega), hrun]
      simp [climb, Chain.head]
    · exact rep_leaf.mpr ⟨left, by simp [hlt, List.getElem?_append_left], hleft⟩
    · exact rep_leaf.mpr ⟨right, by simp, hright⟩
    · rw [List.getElem?_append_left (by simpa using hlt),
        List.getElem?_set_ne (by simpa [eq_comm] using hb)]

/-- `bptree_insert_into_parent` at a node that has a parent. -/
theorem run_bptreeInsertIntoParent {m : Memory} {left a right : NodePtr} {l n : BPTreeNode}
    (hl : m.nodes[left]? = some l) (hparent : l.parent = some a) (ha : m.nodes[a]? = some n)
    {index : Nat} (hindex : firstIndex (n.numKeys + 1) (fun i => n.children[i]! != some left) = index)
    (fuel : Nat) (k : Int) :
    (bptreeInsertIntoParent (fuel + 1) left k right).run m =
      Prog.run (if n.numKeys < bptreeMaxKeys then do
          bptreeInsertIntoInternal a index k right
          pure true
        else bptreeSplitInternalAndInsert (bptreeInsertIntoParent fuel) a index k right) m := by
  rw [bptreeInsertIntoParent, run_bind_of (run_getNode_of _ hl), hparent]
  dsimp only
  rw [run_bind_of (run_getNode_of _ ha), hindex]

/-- The children of a node after the located one was replaced: their leaves are
still linked. -/
theorem linked_splice {nodes nodes' : List BPTreeNode} {c g : Chain Int (IndexTree h)}
    {us vs : List (IndexTree h)} {before after : List Int}
    (hkids : Linked (Rep nodes parent) out c.trees) (hf : Chain.Focus key c us vs before after)
    (hnodup : (c.trees.flatMap Tree.addrs).Nodup)
    (hfirst : g.head.firstLeaf.addr = (c.locate key).firstLeaf.addr)
    (hg : Linked (Rep nodes' parent) (nextLeaf out vs) g.trees)
    (hframe : ∀ b < nodes.length, b ∉ (c.locate key).addrs → nodes'[b]? = nodes[b]?) :
    Linked (Rep nodes' parent) out (c.splice key g).trees := by
  rw [hf.trees_eq] at hkids hnodup
  obtain ⟨hus, -, hvs⟩ := linked_append.mp hkids
  rw [List.flatMap_append, List.flatMap_cons, List.nodup_append] at hnodup
  obtain ⟨-, hright, hleft⟩ := hnodup
  have hdisj := (List.nodup_append.mp hright).2.2
  have hsame : ∀ ts : List (IndexTree h), ∀ o, Linked (Rep nodes parent) o ts →
      (∀ b ∈ ts.flatMap Tree.addrs, b ∉ (c.locate key).addrs) → Linked (Rep nodes' parent) o ts := by
    intro ts o hts hout
    refine hts.frame fun b hb => hframe b ?_ (hout b hb)
    obtain ⟨t, ht, hbt⟩ := List.mem_flatMap.mp hb
    obtain ⟨o', hrep⟩ := hts.of_mem ht
    exact hrep.addr_lt b hbt
  obtain ⟨gs, hgs⟩ := g.trees_eq_head_cons
  rw [hf.splice_trees, List.append_assoc, linked_append, linked_append]
  refine ⟨?_, hg, hsame vs out hvs fun b hb hb' => hdisj b hb' b hb rfl⟩
  -- the leaf after the earlier children is the same one
  have hnext : nextLeaf out (g.trees ++ vs) = nextLeaf out (c.locate key :: vs) := by
    rw [hgs, List.cons_append, nextLeaf, nextLeaf, hfirst]
  rw [hnext]
  exact hsame us _ hus fun b hb hb' => hleft b hb b (List.mem_append_left _ hb') rfl

private theorem not_mem_splice {c g : Chain Int (IndexTree h)} {us vs : List (IndexTree h)}
    {before after : List Int} (hf : Chain.Focus key c us vs before after) {b : NodePtr}
    (hc : b ∉ c.trees.flatMap Tree.addrs) (hg : b ∉ g.trees.flatMap Tree.addrs) :
    b ∉ (c.splice key g).trees.flatMap Tree.addrs := by
  simp only [hf.trees_eq, List.flatMap_append, List.flatMap_cons, List.mem_append, not_or] at hc
  simp only [hf.splice_trees, List.flatMap_append, List.mem_append, not_or]
  exact ⟨⟨hc.1, hg⟩, hc.2.2⟩

/-- `bptree_insert_into_internal` at a node with room: the node holds both halves of the child
that was split. -/
private theorem run_bptreeInsertIntoInternal_rep {m : Memory} {a : NodePtr} {n : BPTreeNode}
    {c : Chain Int (IndexTree h)} {us vs : List (IndexTree h)} {before after : List Int}
    {l r : IndexTree h} {k : Int} (ha : m.nodes[a]? = some n) (hn : InnerNode n parent c)
    (hf : Chain.Focus key c us vs before after) (hl : l.addr = (c.locate key).addr)
    (hroom : c.keys.length < bptreeMaxKeys)
    (hkids : Linked (Rep m.nodes (some a)) out (c.splice key (.cons l k (.one r))).trees)
    (hfresh : a ∉ (c.splice key (.cons l k (.one r))).trees.flatMap Tree.addrs) :
    ∃ n', (bptreeInsertIntoInternal a us.length k r.addr).run m = some ((), m.setNode a n') ∧
      Rep (m.nodes.set a n') parent out (Lib.Tree.node a (c.splice key (.cons l k (.one r)))) := by
  have hmem : r ∈ (c.splice key (.cons l k (.one r))).trees := by
    rw [hf.splice_trees]
    simp
  obtain ⟨_, hrep⟩ := hkids.of_mem hmem
  obtain ⟨nr, hr, hparent⟩ := hrep.root
  have hne : a ≠ r.addr := fun heq => hfresh <| heq ▸ List.mem_flatMap.mpr
    ⟨r, hmem, r.addr_mem_addrs⟩
  have halt : a < m.nodes.length := (List.getElem?_eq_some_iff.mp ha).1
  refine ⟨_, run_bptreeInsertIntoInternal hne ha hr hparent _ _, ?_⟩
  refine rep_node.mpr ⟨_, List.getElem?_set_self halt, hn.insert hf hl hroom, ?_⟩
  exact hkids.frame fun b hb => List.getElem?_set_ne fun heq : a = b => hfresh (heq ▸ hb)

section Inner

variable {nodes₁ : List BPTreeNode} {a : NodePtr} {n : BPTreeNode} {c g : Chain Int (IndexTree h)}
  {us vs : List (IndexTree h)} {before after : List Int} {l r t' : IndexTree h} {i fuel : Nat}
  {p : Prog Bool}

/-- An internal node when the code is done with the located child: the trees of `g` are in its
place, and `p` has come to the climb from them. -/
private structure ChildInserted (m : Memory) (parent out : Option NodePtr) (key : Int) (a : NodePtr)
    (n : BPTreeNode) (c g : Chain Int (IndexTree h)) (us vs : List (IndexTree h))
    (before after : List Int) (i fuel : Nat) (p : Prog Bool) (nodes₁ : List BPTreeNode) :
    Prop where
  node : nodes₁[a]? = some n
  inner : InnerNode n parent c
  focus : Chain.Focus key c us vs before after
  nodup : (c.trees.flatMap Tree.addrs).Nodup
  length : nodes₁.length = i
  grow : m.nodes.length ≤ i
  run : p.run m = (climb (fuel + 1) g).run (m.withNodes nodes₁ (i - m.nodes.length))
  head : g.head.addr = (c.locate key).addr
  below : Linked (Rep nodes₁ (some a)) (nextLeaf out vs) g.trees
  splice : Linked (Rep nodes₁ (some a)) out (c.splice key g).trees
  /-- The trees of `g` have the labels of the child, and new ones. -/
  labels : ∀ b ∈ g.trees.flatMap Tree.addrs, b ∈ (c.locate key).addrs ∨ m.nodes.length ≤ b
  frame : ∀ b < m.nodes.length, b ∉ (Lib.Tree.node a c).addrs → nodes₁[b]? = m.nodes[b]?

/-- The code has brought the node to the chain that replaces it. -/
private def NodeInserted (m : Memory) (parent out : Option NodePtr) (a : NodePtr)
    (c : Chain Int (IndexTree h)) (replaced : Chain Int (IndexTree (h + 1))) (i fuel : Nat)
    (p : Prog Bool) : Prop :=
  ∃ nodes', nodes'.length = i + replaced.keys.length ∧
    p.run m = (climb fuel replaced).run
      (m.withNodes nodes' (i + replaced.keys.length - m.nodes.length)) ∧
    Linked (Rep nodes' parent) out replaced.trees ∧
    ∀ b < m.nodes.length, b ∉ (Lib.Tree.node a c).addrs → nodes'[b]? = m.nodes[b]?

/-- One key more when the child was split, none otherwise. -/
private theorem ChildInserted.length_keys
    (hd : ChildInserted m parent out key a n c g us vs before after i fuel p nodes₁) :
    (c.splice key g).keys.length = c.keys.length + g.keys.length := by
  rw [hd.focus.splice_keys, hd.focus.keys_eq]
  simp only [List.length_append]
  omega

/-- The child absorbed the entry, so the climb is over. -/
private theorem ChildInserted.absorb
    (hd : ChildInserted m parent out key a n c (.one t') us vs before after i fuel p nodes₁) :
    NodeInserted m parent out a c (.one (.node a (c.splice key (.one t')))) i fuel p := by
  refine ⟨nodes₁, by simp [hd.length], ?_, ⟨rep_node.mpr ⟨n, hd.node, ?_, hd.splice⟩, trivial⟩,
    hd.frame⟩
  · simpa [climb] using hd.run
  · exact hd.inner.replace hd.focus hd.head

/-- The child was split: its second half goes to the node, or splits it in turn. -/
private theorem ChildInserted.run_attach {k : Int}
    (hd : ChildInserted m parent out key a n c (.cons l k (.one r)) us vs before after i fuel p
      nodes₁) :
    p.run m = Prog.run (if n.numKeys < bptreeMaxKeys then do
        bptreeInsertIntoInternal a us.length k r.addr
        pure true
      else bptreeSplitInternalAndInsert (bptreeInsertIntoParent fuel) a us.length k r.addr)
      (m.withNodes nodes₁ (i - m.nodes.length)) := by
  obtain ⟨nl, hnl, hparent⟩ := hd.below.1.root
  have hindex := hd.inner.findChild_eq hd.focus hd.nodup hd.head
  exact hd.run.trans (run_bptreeInsertIntoParent hnl hparent hd.node hindex fuel k)

/-- The node has room for the separator, so the climb is over. -/
private theorem ChildInserted.attach {k : Int}
    (hd : ChildInserted m parent out key a n c (.cons l k (.one r)) us vs before after i fuel p
      nodes₁) (hroom : c.keys.length < bptreeMaxKeys)
    (hfresh : a ∉ (c.splice key (.cons l k (.one r))).trees.flatMap Tree.addrs) :
    NodeInserted m parent out a c (.one (.node a (c.splice key (.cons l k (.one r))))) i fuel
      p := by
  obtain ⟨n', hinsert, hrep⟩ :=
    run_bptreeInsertIntoInternal_rep (m := m.withNodes nodes₁ (i - m.nodes.length)) hd.node
      hd.inner hd.focus hd.head hroom hd.splice hfresh
  refine ⟨nodes₁.set a n', by simp [hd.length], ?_, ⟨hrep, trivial⟩, fun b hb hmem => ?_⟩
  · rw [hd.run_attach, if_pos (hd.inner.numKeys ▸ hroom), run_bind_of hinsert]
    simp [climb]
  · have hba : a ≠ b := fun heq => hmem (heq ▸ List.mem_cons_self)
    rw [List.getElem?_set_ne hba, hd.frame b hb hmem]

/-- The node is full and is split in turn: the climb goes on from its halves. -/
private theorem ChildInserted.split {k k' : Int} {cl cr : Chain Int (IndexTree h)}
    (hd : ChildInserted m parent out key a n c (.cons l k (.one r)) us vs before after i fuel p
      nodes₁) (hm : m.Granted (i + 1 - m.nodes.length)) (hfull : c.keys.length = bptreeMaxKeys)
    (hcut : c.splice key (.cons l k (.one r)) = cl.append k' cr)
    (hcl : cl.keys.length = bptreeOrder / 2)
    (hnodup : (a :: (cl.trees ++ cr.trees).flatMap Tree.addrs).Nodup) :
    NodeInserted m parent out a c (.cons (.node a cl) k' (.one (.node i cr))) i fuel p := by
  obtain ⟨hafresh, hnodup⟩ := List.nodup_cons.mp hnodup
  have hgrow := hd.grow
  have hm₁ : (m.withNodes nodes₁ (i - m.nodes.length)).Granted 1 :=
    Memory.Granted.withNodes (hm.mono (by omega)) nodes₁
  have hsplice := hd.splice
  rw [hcut, Chain.trees_append] at hsplice
  obtain ⟨nodes', hlen, hrun, hrep, hframe⟩ :=
    run_bptreeSplitInternalAndInsert hm₁ hd.node hd.inner hd.focus hd.head hfull hcut hcl hsplice
      hnodup hafresh (bptreeInsertIntoParent fuel)
  rw [Memory.withNodes_nodes, hd.length] at hlen hrun hrep hframe
  refine ⟨nodes', by simp [hlen], ?_, hrep, fun b hb hmem => ?_⟩
  · have hnumKeys := hd.inner.numKeys
    rw [hd.run_attach, if_neg (by omega), hrun, Memory.withNodes_withNodes]
    simp [climb, Chain.head, Nat.sub_add_comm hgrow]
  · -- nothing outside the node is written
    have hout : b ∉ (cl.trees ++ cr.trees).flatMap Tree.addrs := by
      rw [← Chain.trees_append, ← hcut]
      refine not_mem_splice hd.focus (fun hb' => hmem (List.mem_cons_of_mem _ hb')) fun hb' => ?_
      rcases hd.labels b hb' with hchild | hle
      · exact hmem (List.mem_cons_of_mem _ (List.mem_flatMap.mpr ⟨_, c.locate_mem key, hchild⟩))
      · exact absurd hb (not_lt.mpr hle)
    rw [hframe b (hb.trans_le hgrow) (fun heq => hmem (heq ▸ List.mem_cons_self)) hout,
      hd.frame b hb hmem]

/-- From the located child, where the code has inserted, to the node over it. -/
private theorem InsertedBelow.childInserted
    (ht : Rep m.nodes parent out (Lib.Tree.node a c)) (hnodup : (Lib.Tree.node a c).addrs.Nodup)
    (hbelow : ∀ o, Rep m.nodes (some a) o (c.locate key) →
      InsertedBelow m (some a) o (c.locate key) key value (fuel + 1) p) :
    ∃ n us vs before after nodes₁, ChildInserted m parent out key a n c
      ((c.locate key).insert key value m.nodes.length).1 us vs before after
      ((c.locate key).insert key value m.nodes.length).2 fuel p nodes₁ := by
  obtain ⟨n, ha, hn, hkids⟩ := rep_node.mp ht
  have halt : a < m.nodes.length := (List.getElem?_eq_some_iff.mp ha).1
  obtain ⟨us, vs, before, after, hf⟩ := c.exists_focus key
  have hlocate : ∀ b ∈ (c.locate key).addrs, b ∈ c.trees.flatMap Tree.addrs := fun b hb =>
    List.mem_flatMap.mpr ⟨_, c.locate_mem key, hb⟩
  obtain ⟨hafresh, hcnodup⟩ := List.nodup_cons.mp hnodup
  have hchild : Rep m.nodes (some a) (nextLeaf out vs) (c.locate key) := by
    rw [hf.trees_eq] at hkids
    exact (linked_append.mp hkids).2.1
  -- the child is represented in its place, so the code below it is known
  obtain ⟨nodes₁, hlen, hrun, hrep, hframe⟩ := hbelow _ hchild
  have hfirst : ((c.locate key).insert key value m.nodes.length).1.head.firstLeaf.addr =
      (c.locate key).firstLeaf.addr := Tree.insert_firstLeaf_addr order_pos _ _
  refine ⟨n, us, vs, before, after, nodes₁, ?_⟩
  exact {
    node := by rw [hframe a halt fun hb => hafresh (hlocate a hb), ha]
    inner := hn
    focus := hf
    nodup := hcnodup
    length := hlen
    grow := Tree.le_insert _ _
    run := hrun
    head := Tree.insert_head_addr order_pos _ _
    below := hrep
    splice := linked_splice hkids hf hcnodup hfirst hrep hframe
    labels := fun b hb => Tree.mem_addrs_insert order_pos hb
    frame := fun b hb hmem =>
      hframe b hb fun hb' => hmem (List.mem_cons_of_mem _ (hlocate b hb')) }

/-- At an internal node: what the code has done to the located child, it has done
to the node once the climb has passed it. -/
theorem InsertedBelow.node
    (ht : Rep m.nodes parent out (Lib.Tree.node a c)) (hnodup : (Lib.Tree.node a c).addrs.Nodup)
    (hm : m.Granted ((IndexTree.insert (Lib.Tree.node a c) key value m.nodes.length).2 -
      m.nodes.length))
    (hbelow : ∀ o, Rep m.nodes (some a) o (c.locate key) →
      InsertedBelow m (some a) o (c.locate key) key value (fuel + 1) p) :
    InsertedBelow m parent out (Lib.Tree.node a c) key value fuel p := by
  obtain ⟨n, us, vs, before, after, nodes₁, hd⟩ :=
    InsertedBelow.childInserted ht hnodup hbelow
  have hnew : ((IndexTree.insert (Lib.Tree.node a c) key value m.nodes.length).1.trees.flatMap
      Tree.addrs).Nodup := Tree.nodup_addrs_insert order_pos hnodup ht.addr_lt
  have hcase : (∃ t', ((c.locate key).insert key value m.nodes.length).1 = .one t') ∨
      ∃ l k r, ((c.locate key).insert key value m.nodes.length).1 = .cons l k (.one r) :=
    Tree.insert_cases order_pos _ _
  have hle := hd.inner.length_le
  have hlength := hd.length_keys
  change NodeInserted m parent out a c (IndexTree.insert (Lib.Tree.node a c) key value
    m.nodes.length).1 ((c.locate key).insert key value m.nodes.length).2 fuel p
  -- from here on only the chain and the number of labels count
  simp only [IndexTree.insert, Tree.insert_node] at *
  generalize Tree.insert bptreeOrder id key value (c.locate key) m.nodes.length = r at *
  obtain ⟨g, i⟩ := r
  simp only at *
  rcases hcase with ⟨t', rfl⟩ | ⟨l, k, r, rfl⟩
  · -- the child absorbed the entry, so the node keeps its keys
    rcases Tree.splitNode_cases order_pos a (id i) (c.splice key (.one t')) with
      ⟨-, hsplit⟩ | ⟨hfull, -⟩
    · rw [hsplit]
      exact hd.absorb
    · rw [hlength, Chain.keys_one, List.length_nil] at hfull
      simp only [bptreeMaxKeys, bptreeOrder] at hle hfull
      omega
  · -- the child was split: attach its second half
    simp only [Chain.keys_cons, Chain.keys_one, List.length_cons, List.length_nil] at hlength
    rcases Tree.splitNode_cases order_pos a (id i) (c.splice key (.cons l k (.one r))) with
      ⟨hroom, hsplit⟩ | ⟨hfull, cl, k', cr, hcut, hcl, hsplit⟩
    · -- there is room for the separator
      rw [hsplit] at hnew ⊢
      simp only [Chain.trees_one, List.flatMap_cons, List.flatMap_nil, List.append_nil,
        Tree.addrs_node, List.nodup_cons] at hnew
      refine hd.attach ?_ hnew.1
      simp only [bptreeMaxKeys, bptreeOrder] at hroom ⊢
      omega
    · -- the node is full, so the split takes one label more
      rw [hsplit] at hm hnew ⊢
      simp only [Chain.trees_one, Chain.trees_cons, List.flatMap_cons, List.flatMap_nil,
        List.append_nil, Tree.addrs_node] at hnew
      refine hd.split (by simpa using hm) ?_ hcut hcl ?_
      · simp only [bptreeMaxKeys, bptreeOrder] at hfull hle ⊢
        omega
      · -- the new node's own label is in neither half
        rw [List.flatMap_append]
        refine hnew.sublist (List.Sublist.cons_cons _ ?_)
        exact List.Sublist.append_left (List.sublist_cons_self _ _) _

end Inner

/-- The code inserts into every represented subtree as the tree does. -/
theorem insertedBelow {t : IndexTree h} (ht : Rep m.nodes parent out t) (hnodup : t.addrs.Nodup)
    (hm : m.Granted ((t.insert key value m.nodes.length).2 - m.nodes.length)) (fuel : Nat) :
    InsertedBelow m parent out t key value fuel
      (bptreeInsertAt (fuel + h) (t.leafFor key).addr key value) := by
  induction t using Tree.induction generalizing parent out fuel with
  | hleaf a es => exact insertedBelow_leaf ht hm fuel
  | hnode h a c ih =>
    refine InsertedBelow.node ht hnodup hm fun o hrep => ?_
    have hsub : (c.locate key).addrs.Sublist (c.trees.flatMap Tree.addrs) :=
      List.sublist_flatten_of_mem (List.mem_map_of_mem (c.locate_mem key))
    have hgranted := hm.mono (Nat.sub_le_sub_right (Nat.le_add_right _ _) m.nodes.length)
    have hrec := ih _ (c.locate_mem key) hrep (hnodup.sublist (hsub.trans (List.sublist_cons_self _ _)))
      hgranted (fuel + 1)
    rw [Tree.leafFor_node]
    rwa [Nat.add_right_comm] at hrec

end Climb

/-! ## The root -/

/-- The memory's index is the tree: heap shape, order and occupancy. -/
structure IsIndex (m : Memory) {h : Nat} (t : IndexTree h) : Prop where
  root : m.root = some t.addr
  rep : Rep m.nodes none none t
  nodup : t.addrs.Nodup
  within : t.Within ⊥ ⊤
  filled : t.Filled bptreeOrder 1 1

/-- The nodes an insertion into the tree allocates: one for each split, and a new
root when the old one was split. -/
def IndexTree.allocs {h : Nat} (t : IndexTree h) (key : Int) (value : RecPtr) (n : Nat) : Nat :=
  (t.insert key value n).2 - n + (t.insert key value n).1.keys.length

section Root

variable {m : Memory} {h : Nat} {key k : Int} {value : RecPtr}

/-- `bptree_create_new_root` over the halves of the old root. -/
theorem run_bptreeCreateNewRoot {l r : IndexTree h} (hm : m.Granted 1)
    (hkids : Linked (Rep m.nodes none) none [l, r]) (hnodup : (l.addrs ++ r.addrs).Nodup) :
    ∃ nodes', (bptreeCreateNewRoot l.addr k r.addr).run m =
        some (true, { m.withNodes nodes' 1 with root := some m.nodes.length }) ∧
      Rep nodes' none none (Lib.Tree.node m.nodes.length (.cons l k (.one r))) ∧
      nodes'.length = m.nodes.length + 1 := by
  obtain ⟨hl, hr, -⟩ := hkids
  obtain ⟨hnl, hnr, hdisj⟩ := List.nodup_append.mp hnodup
  obtain ⟨ln, hln, -⟩ := hl.root
  obtain ⟨rn, hrn, -⟩ := hr.root
  have hlt := (List.getElem?_eq_some_iff.mp hln).1
  have hrt := (List.getElem?_eq_some_iff.mp hrn).1
  set N := m.nodes.length with hN
  have hne : l.addr ≠ r.addr := hdisj _ l.addr_mem_addrs _ r.addr_mem_addrs
  set root : BPTreeNode := { BPTreeNode.fresh false with
    keys := (BPTreeNode.fresh false).keys.setIfInBounds 0 k
    children := ((BPTreeNode.fresh false).children.setIfInBounds 0 (some l.addr)).setIfInBounds 1
      (some r.addr)
    numKeys := 1 } with hroot
  have hinner : InnerNode root none (Chain.cons l k (.one r)) :=
    { isLeaf := rfl, numKeys := rfl, keys := rfl, children := rfl, parent := rfl }
  -- the three nodes the code writes
  set nodes₁ := (m.nodes ++ [BPTreeNode.fresh false]).set N root with hnodes₁
  set nodes₂ := nodes₁.set l.addr { ln with parent := some N } with hnodes₂
  set nodes₃ := nodes₂.set r.addr { rn with parent := some N } with hnodes₃
  -- the new node is behind all others, so the old ones are still there
  have hold : ∀ b < N, nodes₁[b]? = m.nodes[b]? := fun b hb => by
    rw [hnodes₁, List.getElem?_set_ne hb.ne', List.getElem?_append_left hb]
  have hl₁ : nodes₁[l.addr]? = some ln := by rw [hold _ hlt, hln]
  have hr₂ : nodes₂[r.addr]? = some rn := by
    rw [hnodes₂, List.getElem?_set_ne hne, hold _ hrt, hrn]
  -- each half gets the parent, and the write to the other half misses it
  have hrepl : Rep nodes₃ (some N) (some r.firstLeaf.addr) l := by
    have hrep₁ := hl.frame fun b hb => hold b (hl.addr_lt b hb)
    refine (hrep₁.reparent hnl hl₁).frame fun b hb => ?_
    rw [hnodes₃, List.getElem?_set_ne fun heq => hdisj b hb _ r.addr_mem_addrs heq.symm]
  have hrepr : Rep nodes₃ (some N) none r := by
    refine Rep.reparent (hr.frame fun b hb => ?_) hnr hr₂
    rw [hnodes₂, List.getElem?_set_ne fun heq => hdisj _ l.addr_mem_addrs b hb heq,
      hold b (hr.addr_lt b hb)]
  refine ⟨nodes₃, ?_, rep_node.mpr ⟨root, ?_, hinner, hrepl, hrepr, trivial⟩, ?_⟩
  · have hnew : (m.withNodes (m.nodes ++ [BPTreeNode.fresh false]) 1).nodes[N]? =
        some (BPTreeNode.fresh false) := by simp [hN]
    rw [bptreeCreateNewRoot, run_bind_of (run_bptreeCreateNode hm false)]
    dsimp only
    rw [run_bind_of (run_modifyNode _ hnew _), ← hroot, Memory.withNodes_setNode,
      run_bind_of (run_modifyNode (m.withNodes nodes₁ 1) hl₁ _), Memory.withNodes_setNode,
      run_bind_of (run_modifyNode (m.withNodes nodes₂ 1) hr₂ _), Memory.withNodes_setNode,
      run_bind_of (run_setRoot _ _)]
    rfl
  · rw [hnodes₃, List.getElem?_set_ne hrt.ne, hnodes₂, List.getElem?_set_ne hlt.ne, hnodes₁,
      List.getElem?_set_self (by simp [hN])]
  · simp [hnodes₃, hnodes₂, hnodes₁, hN]

section Insert

variable {t : IndexTree h} {g : Chain Int (IndexTree h)} {taken fuel : Nat} {p : Prog Bool}
  {nodes' : List BPTreeNode}

/-- The index when the climb has reached its root: the trees of `g` are in the place of `t`, and
have taken so many nodes. -/
private structure ClimbedTo (m : Memory) (t : IndexTree h) (key : Int) (value : RecPtr)
    (g : Chain Int (IndexTree h)) (taken fuel : Nat) (p : Prog Bool) (nodes' : List BPTreeNode) :
    Prop where
  length : nodes'.length = m.nodes.length + taken
  run : p.run m = (climb (fuel + 1) g).run (m.withNodes nodes' taken)
  rep : Linked (Rep nodes' none) none g.trees
  toList : g.trees.flatMap Tree.toList = Tree.insertEntry key value t.toList
  between : g.Between Tree.Within ⊥ ⊤
  nodup : (g.trees.flatMap Tree.addrs).Nodup
  head : g.head.addr = t.addr
  addrs : (g.trees.flatMap Tree.addrs).Perm (t.addrs ++ List.range' m.nodes.length taken)

/-- The memory's index has the entry, and has allocated so many nodes. -/
private def IndexInserted (m : Memory) (t : IndexTree h) (key : Int) (value : RecPtr)
    (allocs : Nat) (p : Prog Bool) : Prop :=
  ∃ nodes' root' h', ∃ t' : IndexTree h',
    p.run m = some (true, { m.withNodes nodes' allocs with root := root' }) ∧
    IsIndex { m with nodes := nodes', root := root' } t' ∧
    t'.toList = Tree.insertEntry key value t.toList ∧
    nodes'.length = m.nodes.length + allocs ∧
    t'.addrs.Perm (t.addrs ++ List.range' m.nodes.length allocs)

/-- The root was not split, so it is still the root. -/
private theorem ClimbedTo.one {t' : IndexTree h} (ht : IsIndex m t)
    (hd : ClimbedTo m t key value (.one t') taken fuel p nodes')
    (hfilled : t'.Filled bptreeOrder 1 1) : IndexInserted m t key value taken p := by
  refine ⟨nodes', m.root, h, t', ?_, ?_, by simpa using hd.toList, hd.length,
    by simpa using hd.addrs⟩
  · rw [hd.run]
    simp [climb, Memory.withNodes]
  · exact {
      root := by
        rw [ht.root, ← hd.head]
        rfl
      rep := hd.rep.1
      nodup := by simpa using hd.nodup
      within := hd.between
      filled := hfilled }

/-- The root was split: a new root goes over its halves, and takes one node more. -/
private theorem ClimbedTo.cons {l r : IndexTree h}
    (hd : ClimbedTo m t key value (.cons l k (.one r)) taken fuel p nodes')
    (hm : m.Granted (taken + 1))
    (hl : l.Filled bptreeOrder (bptreeOrder / 2) ((bptreeOrder - 1) / 2))
    (hr : r.Filled bptreeOrder (bptreeOrder / 2) ((bptreeOrder - 1) / 2)) :
    IndexInserted m t key value (taken + 1) p := by
  obtain ⟨hlength, hrun, hrep, htoList, hbetween, hnodup, -, haddrs⟩ := hd
  simp only [Chain.trees_cons, Chain.trees_one, List.flatMap_cons, List.flatMap_nil,
    List.append_nil] at htoList hnodup hrep haddrs
  obtain ⟨nodes'', hroot, hrep', hlength'⟩ :=
    run_bptreeCreateNewRoot (m := m.withNodes nodes' taken) (k := k)
      (Memory.Granted.withNodes hm nodes') hrep hnodup
  have hkids : (Chain.cons l k (.one r)).trees.flatMap Tree.addrs = l.addrs ++ r.addrs := by simp
  refine ⟨nodes'', some nodes'.length, h + 1, .node nodes'.length (.cons l k (.one r)), ?_, ?_,
    by simpa using htoList, ?_, ?_⟩
  · -- the halves have no parent, so the climb makes the root
    obtain ⟨ln, hln, hparent⟩ := hrep.1.root
    rw [hrun, climb, Chain.head, bptreeInsertIntoParent,
      run_bind_of (run_getNode_of (m.withNodes nodes' _) hln), hparent]
    exact hroot.trans (by simp)
  · exact {
      root := rfl
      rep := hrep'
      nodup := by
        rw [Tree.addrs_node, hkids]
        refine List.nodup_cons.mpr ⟨fun hmem => ?_, hnodup⟩
        -- the new root is not one of the nodes before
        rcases List.mem_append.mp hmem with hmem | hmem
        · exact (hrep.1.addr_lt _ hmem).false
        · exact (hrep.2.1.addr_lt _ hmem).false
      within := Tree.within_node.mpr hbetween
      filled := by
        refine Tree.filled_node.mpr ⟨by simp, by simp, fun u hu => ?_⟩
        rcases List.mem_cons.mp hu with rfl | hu
        · exact hl
        · obtain rfl := List.mem_singleton.mp hu
          exact hr }
  · rw [hlength', Memory.withNodes_nodes, hlength, Nat.add_assoc]
  · -- the new root takes the label after those of the halves
    rw [Tree.addrs_node, hkids, List.range'_concat, hlength, ← List.append_assoc]
    refine ((haddrs.cons _).trans ?_)
    simpa using (List.perm_append_singleton (m.nodes.length + taken)
      (t.addrs ++ List.range' m.nodes.length taken)).symm

/-- The climb from the leaf to the root, as one step. -/
private theorem IsIndex.climbedTo (ht : IsIndex m t) (hnew : key ∉ t.toList.map Prod.fst)
    (hm : m.Granted ((t.insert key value m.nodes.length).2 - m.nodes.length)) :
    ∃ taken fuel nodes', (t.insert key value m.nodes.length).2 = m.nodes.length + taken ∧
      ClimbedTo m t key value (t.insert key value m.nodes.length).1 taken fuel
        (bptreeInsertAt m.nodes.length (t.leafFor key).addr key value) nodes' := by
  have hlt := ht.rep.height_lt ht.nodup
  -- the nodes outnumber the levels, so the fuel lasts to the root and one step over it
  obtain ⟨fuel, hfuel⟩ : ∃ fuel, m.nodes.length = fuel + 1 + h :=
    ⟨m.nodes.length - h - 1, by omega⟩
  obtain ⟨nodes', hlen, hrun, hrep, -⟩ := insertedBelow ht.rep ht.nodup hm (fuel + 1)
  obtain ⟨taken, htaken, haddrs⟩ : ∃ taken,
      (t.insert key value m.nodes.length).2 = m.nodes.length + taken ∧
      ((t.insert key value m.nodes.length).1.trees.flatMap Tree.addrs).Perm
        (t.addrs ++ (List.range' m.nodes.length taken).map id) :=
    Tree.insert_addrs order_pos t m.nodes.length
  rw [List.map_id] at haddrs
  rw [← hfuel, htaken, Nat.add_sub_cancel_left] at hrun
  refine ⟨taken, fuel, nodes', htaken, ?_⟩
  exact {
    length := hlen.trans htaken
    run := hrun
    rep := hrep
    toList := Tree.insert_toList order_pos ht.within bot_le (WithTop.coe_lt_top key) _
    between := Tree.insert_between (by decide) ht.within bot_le (WithTop.coe_lt_top key) hnew _
    nodup := Tree.nodup_addrs_insert order_pos ht.nodup ht.rep.addr_lt
    head := Tree.insert_head_addr order_pos _ _
    addrs := haddrs }

/-- Inserting a new key into the index of the memory. The tree takes the nodes it allocates. -/
theorem IsIndex.insertAt (ht : IsIndex m t) (hnew : key ∉ t.toList.map Prod.fst)
    (hm : m.Granted (t.allocs key value m.nodes.length)) :
    ∃ nodes' root' h', ∃ t' : IndexTree h',
      (bptreeInsertAt m.nodes.length (t.leafFor key).addr key value).run m =
        some (true, { m.withNodes nodes' (t.allocs key value m.nodes.length) with root := root' }) ∧
      IsIndex { m with nodes := nodes', root := root' } t' ∧
      t'.toList = Tree.insertEntry key value t.toList ∧
      nodes'.length = m.nodes.length + t.allocs key value m.nodes.length ∧
      t'.addrs.Perm (t.addrs ++ List.range' m.nodes.length
        (t.allocs key value m.nodes.length)) := by
  have hfilled : (∃ t', (t.insert key value m.nodes.length).1 = .one t' ∧
        t'.Filled bptreeOrder 1 1) ∨
      ∃ l k r, (t.insert key value m.nodes.length).1 = .cons l k (.one r) ∧
        l.Filled bptreeOrder (bptreeOrder / 2) ((bptreeOrder - 1) / 2) ∧
        r.Filled bptreeOrder (bptreeOrder / 2) ((bptreeOrder - 1) / 2) :=
    Tree.insert_filled (by decide) ht.filled _
  -- the splits take `taken` nodes, and a split root takes one more
  obtain ⟨taken, fuel, nodes', htaken, hd⟩ := ht.climbedTo hnew (hm.mono (Nat.le_add_right _ _))
  have hallocs : t.allocs key value m.nodes.length =
      taken + (t.insert key value m.nodes.length).1.keys.length := by
    rw [IndexTree.allocs, htaken, Nat.add_sub_cancel_left]
  rw [hallocs] at hm ⊢
  rcases hfilled with ⟨t', hg, hfull⟩ | ⟨l, k, r, hg, hl, hr⟩
  · rw [hg] at hd ⊢
    exact hd.one ht hfull
  · rw [hg] at hd hm ⊢
    exact hd.cons hm hl hr

end Insert

end Root

/-! ## Lookup in a leaf -/

section Lookup

variable {n : BPTreeNode} {parent next : Option NodePtr} {es : List (Int × RecPtr)} {key : Int}

/-- The scan of a leaf for a key. -/
theorem LeafNode.findKey_eq (hn : LeafNode n parent next es) (key : Int) :
    n.findKey key = es.findIdx fun e => e.1 == key := by
  have hle : (es.findIdx fun e => e.1 == key) ≤ es.length := List.findIdx_le_length
  have hget : ∀ j (hj : j < es.length), n.keys[j]! = es[j].1 := fun j hj => by
    have hkeys : n.keys.toList.take n.numKeys = es.map Prod.fst := hn.keys
    have hj' : (n.keys.toList.take n.numKeys)[j]? = some es[j].1 := by
      rw [hkeys]
      simp [hj]
    exact getElem!_used hj'
  refine firstIndex_eq (by rw [hn.numKeys]; exact hle) (fun j hj => ?_) (fun hlt => ?_)
  · have hbefore := List.not_of_lt_findIdx hj
    rw [hget j (hj.trans_le hle)]
    simpa [bne] using hbefore
  · rw [hn.numKeys] at hlt
    have hat := List.findIdx_getElem (w := hlt)
    rw [hget _ hlt]
    simpa [bne] using hat

/-- The key is in the leaf when the scan stops early. -/
theorem LeafNode.findKey_lt (hn : LeafNode n parent next es) (key : Int) :
    n.findKey key < n.numKeys ↔ key ∈ es.map Prod.fst := by
  rw [hn.findKey_eq, hn.numKeys, List.findIdx_lt_length]
  simp

private theorem lookup_eq_getElem? (es : List (Int × RecPtr)) (key : Int) :
    es.lookup key = es[es.findIdx fun e => e.1 == key]?.map Prod.snd := by
  induction es with
  | nil => rfl
  | cons e rest ih =>
    obtain ⟨k, v⟩ := e
    by_cases hk : key = k
    · simp [hk, List.findIdx_cons]
    · have hne' : (k == key) = false := by simpa using Ne.symm hk
      simp [Tree.lookup_cons_pair, hk, hne', List.findIdx_cons, ih]

/-- The value the scan of a leaf returns. -/
theorem LeafNode.value_findKey (hn : LeafNode n parent next es) (key : Int) :
    (if n.findKey key < n.numKeys then n.values[n.findKey key]! else none) = es.lookup key := by
  rw [lookup_eq_getElem?, ← hn.findKey_eq]
  have hvalues : n.values.toList.take n.numKeys = es.map fun e => some e.2 := hn.values
  by_cases hlt : n.findKey key < n.numKeys
  · rw [if_pos hlt]
    have hlt' : n.findKey key < es.length := hn.numKeys ▸ hlt
    have hget : (n.values.toList.take n.numKeys)[n.findKey key]? =
        some (some es[n.findKey key].2) := by
      rw [hvalues]
      simp [hlt']
    rw [getElem!_used hget]
    simp [hlt']
  · rw [if_neg hlt, List.getElem?_eq_none (hn.numKeys ▸ not_lt.mp hlt)]
    rfl

end Lookup

/-- The leaf nodes of a represented tree. -/
theorem Rep.leafNode {nodes : List BPTreeNode} {parent out : Option NodePtr} {h : Nat}
    {t : IndexTree h} (ht : Rep nodes parent out t) {l : Leaf NodePtr Int RecPtr}
    (hl : l ∈ t.leaves) :
    ∃ n parent' next, nodes[l.addr]? = some n ∧ LeafNode n parent' next l.entries := by
  induction t using Tree.induction generalizing parent out with
  | hleaf a es =>
    obtain rfl := List.mem_singleton.mp hl
    obtain ⟨n, hn, hleaf⟩ := rep_leaf.mp ht
    exact ⟨n, _, _, hn, hleaf⟩
  | hnode h a c ih =>
    obtain ⟨n, -, -, hkids⟩ := rep_node.mp ht
    obtain ⟨u, hu, hlu⟩ := List.mem_flatMap.mp hl
    obtain ⟨o, hrep⟩ := hkids.of_mem hu
    exact ih u hu hrep hlu

/-! ## The functions of the index -/

section Index

variable {m : Memory} {h : Nat} {t : IndexTree h}

/-- `bptree_find_leaf` -/
theorem IsIndex.run_bptreeFindLeaf (ht : IsIndex m t) (key : Int) :
    (bptreeFindLeaf key).run m = some (some (t.leafFor key).addr, m) := by
  have hdescend := run_bptreeDescend ht.rep key (ht.rep.height_lt ht.nodup)
  rw [bptreeFindLeaf, run_bind_of (run_getRoot m), ht.root]
  dsimp only
  rw [run_bind_of (run_countNodes m), run_bind_of hdescend]
  rfl

/-- `bptree_search` -/
theorem IsIndex.run_bptreeSearch (ht : IsIndex m t) (key : Int) :
    (bptreeSearch key).run m = some (t.toList.lookup key, m) := by
  obtain ⟨n, parent, next, hn, hleaf⟩ := ht.rep.leafNode (t.leafFor_mem_leaves key)
  rw [bptreeSearch, run_bind_of (ht.run_bptreeFindLeaf key)]
  dsimp only
  rw [run_bind_of (run_getNode_of _ hn), ← ht.within.lookup_leafFor, ← hleaf.value_findKey key]
  split <;> rfl

/-- A key is in the tree when it is in its leaf. -/
theorem IsIndex.mem_leafFor (ht : IsIndex m t) (key : Int) :
    key ∈ (t.leafFor key).entries.map Prod.fst ↔ key ∈ t.toList.map Prod.fst := by
  have hkey : ∀ es : List (Int × RecPtr), key ∈ es.map Prod.fst ↔ es.lookup key ≠ none := by
    intro es
    rw [ne_eq, List.lookup_eq_none_iff]
    simp
  rw [hkey, hkey, ht.within.lookup_leafFor]

/-- `bptree_insert` refuses a key that is there and inserts any other. -/
theorem IsIndex.run_bptreeInsert (ht : IsIndex m t) (key : Int) (value : RecPtr) :
    (bptreeInsert key value).run m =
      if key ∈ t.toList.map Prod.fst then some (false, m)
      else (bptreeInsertAt m.nodes.length (t.leafFor key).addr key value).run m := by
  obtain ⟨n, parent, next, hn, hleaf⟩ := ht.rep.leafNode (t.leafFor_mem_leaves key)
  have hfind := (hleaf.findKey_lt key).trans (ht.mem_leafFor key)
  rw [bptreeInsert, run_bind_of (run_getRoot m), ht.root]
  dsimp only
  rw [run_bind_of (ht.run_bptreeFindLeaf key), run_bind_of (run_deref_some _ _),
    run_bind_of (run_getNode_of _ hn)]
  by_cases hmem : key ∈ t.toList.map Prod.fst
  · rw [if_pos (hfind.mpr hmem), if_pos hmem]
    rfl
  · rw [if_neg (mt hfind.mp hmem), if_neg hmem, bptreeInsertAt, run_bind_of (run_getNode_of _ hn)]
    by_cases hroom : n.numKeys < bptreeMaxKeys
    · rw [if_pos hroom, if_pos hroom]
    · rw [if_neg hroom, if_neg hroom, run_bind_of (run_countNodes m)]

/-- A full leaf whose new sibling gets no memory is left alone. -/
theorem IsIndex.run_bptreeInsertAt_refused (ht : IsIndex m t) {key : Int}
    (hfull : (t.leafFor key).entries.length = bptreeMaxKeys) {m' : Memory}
    (hrefused : m.takeAlloc = (false, m')) (value : RecPtr) (fuel : Nat) :
    (bptreeInsertAt fuel (t.leafFor key).addr key value).run m = some (false, m') := by
  obtain ⟨n, parent, next, hn, hleaf⟩ := ht.rep.leafNode (t.leafFor_mem_leaves key)
  have hcount : ¬ n.numKeys < bptreeMaxKeys := by rw [hleaf.numKeys, hfull]; exact lt_irrefl _
  have hcalloc : callocNode.run m = some (none, m') := by rw [run_callocNode, hrefused]
  rw [bptreeInsertAt, run_bind_of (run_getNode_of _ hn), if_neg hcount,
    bptreeSplitLeafAndInsert, bptreeCreateNode, bind_assoc, run_bind_of hcalloc]
  rfl

end Index

/-! ## Allocations of an insertion -/

/-- The nodes a descent visits, the leaf last. -/
def bptreePath (nodes : List BPTreeNode) (key : Int) : Nat → NodePtr → List BPTreeNode
  | 0, _ => []
  | fuel + 1, p =>
    match nodes[p]? with
    | none => []
    | some n =>
      if n.isLeaf then [n]
      else match n.children[n.childIndex key]! with
        | none => [n]
        | some child => n :: bptreePath nodes key fuel child

/-- How many nodes at the end of a path are full: those a split runs through. -/
def fullRun (path : List BPTreeNode) : Nat :=
  (path.reverse.takeWhile fun n => n.numKeys == bptreeMaxKeys).length

/-- The nodes `bptree_insert` allocates for a key that is not there: a sibling for
every split, and a new root when the split reaches it. -/
def Memory.insertAllocs (m : Memory) (key : Int) : Nat :=
  match m.root with
  | none => 1
  | some root =>
    let path := bptreePath m.nodes key m.nodes.length root
    if fullRun path = path.length then path.length + 1 else fullRun path

theorem fullRun_le (path : List BPTreeNode) : fullRun path ≤ path.length := by
  have h := (List.takeWhile_sublist (l := path.reverse) fun n => n.numKeys == bptreeMaxKeys).length_le
  rwa [List.length_reverse] at h

theorem fullRun_cons (n : BPTreeNode) (path : List BPTreeNode) :
    fullRun (n :: path) =
      if fullRun path = path.length ∧ n.numKeys = bptreeMaxKeys then path.length + 1
      else fullRun path := by
  rw [fullRun, List.reverse_cons, List.takeWhile_append, List.length_reverse, ← fullRun]
  by_cases hpath : fullRun path = path.length
  · by_cases hn : n.numKeys = bptreeMaxKeys
    · rw [if_pos hpath, if_pos ⟨hpath, hn⟩]
      simp [hn]
    · rw [if_pos hpath, if_neg fun h => hn h.2, hpath]
      simp [show ¬ n.numKeys = 3 from hn]
  · rw [if_neg hpath, if_neg fun h => hpath h.1]
    rfl

/-- The tree takes as many labels as its path has full nodes at the end, and is
split when all of them are full. -/
theorem Rep.insert_allocs {nodes : List BPTreeNode} {parent out : Option NodePtr} {h : Nat}
    {t : IndexTree h} (ht : Rep nodes parent out t) (key : Int) (value : RecPtr) (n : Nat)
    {fuel : Nat} (hfuel : h < fuel) :
    (t.insert key value n).2 = n + fullRun (bptreePath nodes key fuel t.addr) ∧
      (t.insert key value n).1.keys.length =
        if fullRun (bptreePath nodes key fuel t.addr) = (bptreePath nodes key fuel t.addr).length
        then 1 else 0 := by
  obtain ⟨fuel, rfl⟩ : ∃ f, fuel = f + 1 := ⟨fuel - 1, by omega⟩
  induction t using Tree.induction generalizing parent out fuel with
  | hleaf a es =>
    obtain ⟨nd, hnd, hleaf⟩ := rep_leaf.mp ht
    have hle := hleaf.length_le
    have hlen : (Tree.insertEntry key value es).length = es.length + 1 :=
      Tree.length_insertEntry es
    have hpath : bptreePath nodes key (fuel + 1) (Tree.leaf a es).addr = [nd] := by
      simp [bptreePath, hnd, hleaf.isLeaf]
    -- the run of full nodes at the end of the path is the leaf, or empty
    have hrun : fullRun [nd] = if es.length = bptreeMaxKeys then 1 else 0 := by
      rw [fullRun_cons, hleaf.numKeys]
      by_cases hfull : es.length = bptreeMaxKeys
      · rw [if_pos ⟨rfl, hfull⟩, if_pos hfull]
        rfl
      · rw [if_neg fun h => hfull h.2, if_neg hfull]
        rfl
    rw [hpath, hrun]
    simp only [IndexTree.insert, Tree.insert_leaf]
    rcases Tree.splitLeaf_cases order_pos a (id n) (Tree.insertEntry key value es)
      with ⟨hroom, h⟩ | ⟨hfull, l, k, w, r, hes, hl, h⟩
    · have hne : ¬ es.length = bptreeMaxKeys := by
        simp only [bptreeMaxKeys, bptreeOrder] at hroom ⊢
        omega
      rw [h, if_neg hne]
      exact ⟨rfl, rfl⟩
    · have heq : es.length = bptreeMaxKeys := by
        simp only [bptreeMaxKeys, bptreeOrder] at hfull hle ⊢
        omega
      rw [h, if_pos heq]
      exact ⟨rfl, rfl⟩
  | hnode h a c ih =>
    obtain ⟨nd, hnd, hinner, hkids⟩ := rep_node.mp ht
    obtain ⟨o, hrep⟩ := hkids.of_mem (c.locate_mem key)
    obtain ⟨fuel, rfl⟩ : ∃ f, fuel = f + 1 := ⟨fuel - 1, by omega⟩
    obtain ⟨us, vs, before, after, hf⟩ := c.exists_focus key
    obtain ⟨htaken, hsplit⟩ := ih _ (c.locate_mem key) hrep fuel (by omega)
    have hle := hinner.length_le
    have hpath : bptreePath nodes key (fuel + 1 + 1) (Lib.Tree.node a c).addr =
        nd :: bptreePath nodes key (fuel + 1) (c.locate key).addr := by
      rw [bptreePath, Tree.addr_node, hnd]
      simp [hinner.isLeaf, hinner.child_eq key]
    -- the node gains a key exactly when the whole path below is full
    have hcount := congrArg List.length
      (hf.splice_keys (IndexTree.insert (c.locate key) key value n).1)
    have hkeys := congrArg List.length hf.keys_eq
    simp only [List.length_append, hsplit] at hcount hkeys
    rw [hpath, fullRun_cons, hinner.numKeys]
    simp only [IndexTree.insert, Tree.insert_node] at *
    rw [htaken]
    generalize bptreePath nodes key (fuel + 1) (c.locate key).addr = path at *
    have hmax : (bptreeMaxKeys : Nat) + 1 = bptreeOrder := rfl
    rcases Tree.splitNode_cases order_pos a (id (n + fullRun path)) (c.splice key
      (Tree.insert bptreeOrder id key value (c.locate key) n).1) with
      ⟨hroom, h⟩ | ⟨hfull, l, k, r, hcut, hl, h⟩
    · rw [h]
      -- no split here: the run of full nodes ends at this node or below it
      by_cases hall : fullRun path = path.length
      · have hne : ¬ c.keys.length = bptreeMaxKeys := by
          rw [if_pos hall] at hcount
          omega
        rw [if_neg fun h => hne h.2]
        simp [hall]
      · have hle := fullRun_le path
        have hne : ¬ fullRun path = (nd :: path).length := by
          rw [List.length_cons]
          omega
        rw [if_neg fun h => hall h.1, if_neg hne]
        exact ⟨rfl, rfl⟩
    · -- a split means that the child was split and the node was full
      have hall : fullRun path = path.length := by
        by_contra hne
        rw [if_neg hne] at hcount
        omega
      have heq : c.keys.length = bptreeMaxKeys := by
        rw [if_pos hall] at hcount
        omega
      rw [h, if_pos ⟨hall, heq⟩, hall]
      simp [Nat.add_assoc]

/-- A path ends in the leaf of the key. -/
theorem Rep.path_eq {nodes : List BPTreeNode} {parent out : Option NodePtr} {h : Nat}
    {t : IndexTree h} (ht : Rep nodes parent out t) (key : Int) {fuel : Nat} (hfuel : h < fuel) :
    ∃ above n parent' next, bptreePath nodes key fuel t.addr = above ++ [n] ∧
      LeafNode n parent' next (t.leafFor key).entries := by
  obtain ⟨fuel, rfl⟩ : ∃ f, fuel = f + 1 := ⟨fuel - 1, by omega⟩
  induction t using Tree.induction generalizing parent out fuel with
  | hleaf a es =>
    obtain ⟨n, hn, hleaf⟩ := rep_leaf.mp ht
    exact ⟨[], n, parent, out, by simp [bptreePath, hn, hleaf.isLeaf], hleaf⟩
  | hnode h a c ih =>
    obtain ⟨n, hn, hinner, hkids⟩ := rep_node.mp ht
    obtain ⟨o, hrep⟩ := hkids.of_mem (c.locate_mem key)
    obtain ⟨fuel, rfl⟩ : ∃ f, fuel = f + 1 := ⟨fuel - 1, by omega⟩
    obtain ⟨above, l, parent', next, hpath, hleaf⟩ := ih _ (c.locate_mem key) hrep fuel (by omega)
    refine ⟨n :: above, l, parent', next, ?_, hleaf⟩
    rw [bptreePath, Tree.addr_node, hn]
    simp [hinner.isLeaf, hinner.child_eq key, hpath]

section IndexAllocs

variable {m : Memory} {h : Nat} {t : IndexTree h}

/-- The allocations counted on the heap are those of the tree. -/
theorem IsIndex.insertAllocs_eq (ht : IsIndex m t) (key : Int) (value : RecPtr) :
    m.insertAllocs key = t.allocs key value m.nodes.length := by
  obtain ⟨htaken, hsplit⟩ := ht.rep.insert_allocs key value m.nodes.length
    (ht.rep.height_lt ht.nodup)
  rw [Memory.insertAllocs, ht.root, IndexTree.allocs, htaken, hsplit]
  dsimp only
  split_ifs with hall
  · omega
  · omega

/-- An insertion that allocates has met a full leaf. -/
theorem IsIndex.full_of_insertAllocs (ht : IsIndex m t) {key : Int}
    (hallocs : m.insertAllocs key ≠ 0) :
    (t.leafFor key).entries.length = bptreeMaxKeys := by
  obtain ⟨above, n, parent, next, hpath, hleaf⟩ :=
    ht.rep.path_eq key (ht.rep.height_lt ht.nodup)
  by_contra hroom
  refine hallocs ?_
  have hn : ¬ n.numKeys = bptreeMaxKeys := by rwa [hleaf.numKeys]
  have hrun : fullRun (above ++ [n]) = 0 := by
    rw [fullRun, List.reverse_append, List.reverse_singleton, List.singleton_append,
      List.takeWhile_cons_of_neg (by simpa using hn)]
    rfl
  rw [Memory.insertAllocs, ht.root]
  dsimp only
  rw [hpath, hrun, if_neg (by simp)]

end IndexAllocs

/-! ## Entries of the index -/

/-- The index of the memory holds exactly these entries, in key order. -/
def Indexed (m : Memory) (es : List (Int × RecPtr)) : Prop :=
  (m.root = none ∧ es = []) ∨ ∃ h, ∃ t : IndexTree h, IsIndex m t ∧ t.toList = es

/-- The same memory with another index; `k` allocations were made for it. -/
def Memory.withIndex (m : Memory) (nodes : List BPTreeNode) (root : Option NodePtr) (k : Nat) :
    Memory :=
  { m with nodes, root, allocs := m.allocs.drop k }

section Indexed

variable {m : Memory} {es : List (Int × RecPtr)}

theorem Indexed.sorted (hm : Indexed m es) : (es.map Prod.fst).Pairwise (· < ·) := by
  rcases hm with ⟨-, rfl⟩ | ⟨h, t, ht, rfl⟩
  · exact List.Pairwise.nil
  · exact ht.within.sorted

/-- Only the nodes and the root matter. -/
theorem Indexed.congr {m' : Memory} (hm : Indexed m es) (hnodes : m'.nodes = m.nodes)
    (hroot : m'.root = m.root) : Indexed m' es := by
  rcases hm with ⟨hnone, rfl⟩ | ⟨h, t, ht, rfl⟩
  · exact .inl ⟨hroot.trans hnone, rfl⟩
  · exact .inr ⟨h, t, { ht with root := hroot.trans ht.root, rep := hnodes ▸ ht.rep }, rfl⟩

/-- `bptree_search` -/
theorem Indexed.run_bptreeSearch (hm : Indexed m es) (key : Int) :
    (bptreeSearch key).run m = some (es.lookup key, m) := by
  rcases hm with ⟨hnone, rfl⟩ | ⟨h, t, ht, rfl⟩
  · rw [bptreeSearch, bptreeFindLeaf, bind_assoc, run_bind_of (run_getRoot m), hnone]
    rfl
  · exact ht.run_bptreeSearch key

/-- `bptree_insert` of a key that is there changes nothing. -/
theorem Indexed.run_bptreeInsert_of_mem (hm : Indexed m es) {key : Int}
    (hkey : key ∈ es.map Prod.fst) (value : RecPtr) :
    (bptreeInsert key value).run m = some (false, m) := by
  rcases hm with ⟨-, rfl⟩ | ⟨h, t, ht, rfl⟩
  · simp at hkey
  · rw [ht.run_bptreeInsert key value, if_pos hkey]

/-- `bptree_insert` of a new key, with memory for every node it needs. -/
theorem Indexed.run_bptreeInsert (hm : Indexed m es) {key : Int} (hkey : key ∉ es.map Prod.fst)
    (hgranted : m.Granted (m.insertAllocs key)) (value : RecPtr) :
    ∃ nodes' root', (bptreeInsert key value).run m =
        some (true, m.withIndex nodes' root' (m.insertAllocs key)) ∧
      nodes'.length = m.nodes.length + m.insertAllocs key ∧
      Indexed (m.withIndex nodes' root' (m.insertAllocs key)) (Tree.insertEntry key value es) := by
  rcases hm with ⟨hnone, rfl⟩ | ⟨h, t, ht, rfl⟩
  · -- the first key makes the root
    have hallocs : m.insertAllocs key = 1 := by rw [Memory.insertAllocs, hnone]
    rw [hallocs] at hgranted ⊢
    set leaf : BPTreeNode := { BPTreeNode.fresh true with
      keys := (BPTreeNode.fresh true).keys.setIfInBounds 0 key
      values := (BPTreeNode.fresh true).values.setIfInBounds 0 (some value)
      numKeys := 1 } with hleaf
    have hnew : (m.nodes ++ [BPTreeNode.fresh true])[m.nodes.length]? =
        some (BPTreeNode.fresh true) := by simp
    refine ⟨m.nodes ++ [leaf], some m.nodes.length, ?_, by simp, .inr ⟨0,
      .leaf m.nodes.length [(key, value)], ?_, rfl⟩⟩
    · rw [bptreeInsert, run_bind_of (run_getRoot m), hnone]
      dsimp only
      rw [run_bind_of (run_bptreeCreateNode hgranted true), run_bind_of (run_setRoot _ _)]
      dsimp only
      rw [run_bind_of (run_modifyNode _ hnew _), ← hleaf]
      simp [Memory.setNode, Memory.withNodes, Memory.withIndex]
    · exact {
        root := rfl
        rep := rep_leaf.mpr ⟨leaf, by simp [Memory.withIndex], ⟨rfl, rfl, rfl, rfl, rfl, rfl⟩⟩
        nodup := by simp
        within := Tree.within_leaf.mpr (by simp)
        filled := Tree.filled_leaf.mpr (by simp) }
  · -- otherwise it goes into the tree
    rw [ht.insertAllocs_eq key value] at hgranted ⊢
    obtain ⟨nodes', root', h', t', hrun, ht', hlist, hlen, -⟩ := ht.insertAt hkey hgranted
    refine ⟨nodes', root', ?_, hlen, .inr ⟨h', t', ?_, hlist⟩⟩
    · rw [ht.run_bptreeInsert key value, if_neg hkey, hrun]
      rfl
    · exact { ht' with }

/-- `bptree_insert` of a new key whose first allocation fails changes nothing. -/
theorem Indexed.run_bptreeInsert_refused (hm : Indexed m es) {key : Int}
    (hkey : key ∉ es.map Prod.fst) (hallocs : m.insertAllocs key ≠ 0) {m' : Memory}
    (hrefused : m.takeAlloc = (false, m')) (value : RecPtr) :
    (bptreeInsert key value).run m = some (false, m') := by
  rcases hm with ⟨hnone, rfl⟩ | ⟨h, t, ht, rfl⟩
  · have hcalloc : callocNode.run m = some (none, m') := by rw [run_callocNode, hrefused]
    have hroot : m'.root = none := by
      have h := congrArg Memory.root (m.takeAlloc_snd)
      rw [hrefused] at h
      exact h.trans hnone
    rw [bptreeInsert, run_bind_of (run_getRoot m), hnone]
    dsimp only
    rw [bptreeCreateNode, bind_assoc, run_bind_of hcalloc]
    dsimp only
    rw [pure_bind, run_bind_of (run_setRoot _ _)]
    dsimp only
    rw [← hroot]
    rfl
  · rw [ht.run_bptreeInsert key value, if_neg hkey,
      ht.run_bptreeInsertAt_refused (ht.full_of_insertAllocs hallocs) hrefused]

end Indexed

end SqlApi.Core

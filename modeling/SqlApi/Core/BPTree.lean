import SqlApi.Core.Memory

/-!
# `bptree.c`: the primary-key index

The functions of `bptree.c` on the node heap, loop by loop. Two loops of the
source have no bound of their own, the descent to a leaf and the climb through
`parent` pointers; both get the number of allocated nodes as fuel. A walk that
visits more nodes than there are has visited one twice and goes on forever.

The writes of a loop that fills one node's arrays are gathered into one
`setNode`; pointers of other nodes are written one by one, in source order.
-/

namespace SqlApi.Core

open SqlApi.Lib

/-! ## Array loops -/

/-- `i = 0; while (i < n && p(i)) i++;` started at `i` with `n - i` rounds left. -/
def firstIndexFrom (p : Nat → Bool) : Nat → Nat → Nat
  | 0, i => i
  | rounds + 1, i => if p i then firstIndexFrom p rounds (i + 1) else i

/-- `i = 0; while (i < n && p(i)) i++;` -/
def firstIndex (n : Nat) (p : Nat → Bool) : Nat := firstIndexFrom p n 0

section Arrays

variable {α : Type} {n m : Nat} [Inhabited α]

/-- `for (i = start; i > stop; i--) a[i] = a[i - 1];` -/
def shiftUp (stop : Nat) (a : Vector α n) : (start : Nat) → Vector α n
  | 0 => a
  | i + 1 => if stop < i + 1 then shiftUp stop (a.setIfInBounds (i + 1) a[i]!) i else a

/-- `for (i = 0; i < count; i++) dst[i] = src[start + i];` -/
def copyFrom (src : Vector α m) (start : Nat) (dst : Vector α n) : (count : Nat) → Vector α n
  | 0 => dst
  | i + 1 => (copyFrom src start dst i).setIfInBounds i src[start + i]!

/-- The merge of `bptree_split_leaf_and_insert`: copy `old` into `temp` with `new`
at `insertIndex`. -/
def mergeInto (old : Vector α n) (new : α) (insertIndex : Nat) :
    (rounds index tempIndex : Nat) → Vector α m → Vector α m
  -- behind the loop: the new element may belong at the end
  | 0, _, tempIndex, temp =>
    if tempIndex = insertIndex then temp.setIfInBounds tempIndex new else temp
  -- one round: the new element first if this is its place, then the old one
  | rounds + 1, index, tempIndex, temp =>
    if tempIndex = insertIndex then
      let temp := temp.setIfInBounds tempIndex new
      mergeInto old new insertIndex rounds (index + 1) (tempIndex + 2)
        (temp.setIfInBounds (tempIndex + 1) old[index]!)
    else
      mergeInto old new insertIndex rounds (index + 1) (tempIndex + 1)
        (temp.setIfInBounds tempIndex old[index]!)

end Arrays

/-! ## Descent -/

/-- `bptree_create_node` -/
def bptreeCreateNode (isLeaf : Bool) : Prog (Option NodePtr) := do
  match ← callocNode with
  | none => pure none
  | some node =>
    modifyNode node fun n => { n with isLeaf }
    pure (some node)

/-- `bptree_find_insert_index` -/
def bptreeFindInsertIndex (keys : Vector Int bptreeMaxKeys) (numKeys : Nat) (key : Int) : Nat :=
  firstIndex numKeys fun i => decide (keys[i]! < key)

/-- The child a key descends to: `while (index < num_keys && key >= keys[index])`. -/
def BPTreeNode.childIndex (n : BPTreeNode) (key : Int) : Nat :=
  firstIndex n.numKeys fun i => decide (n.keys[i]! ≤ key)

/-- The loop of `bptree_find_leaf`, from `current`. -/
def bptreeDescend (key : Int) : Nat → NodePtr → Prog NodePtr
  | 0, _ => undefined
  | fuel + 1, current => do
    let n ← getNode current
    if n.isLeaf then pure current
    else
      let child ← deref n.children[n.childIndex key]!
      bptreeDescend key fuel child

/-- `bptree_find_leaf` -/
def bptreeFindLeaf (key : Int) : Prog (Option NodePtr) := do
  match ← getRoot with
  | none => pure none
  | some root =>
    let fuel ← countNodes
    let leaf ← bptreeDescend key fuel root
    pure (some leaf)

/-! ## Insertion -/

/-- `bptree_insert_into_leaf` -/
def bptreeInsertIntoLeaf (leaf : NodePtr) (key : Int) (value : RecPtr) : Prog Unit := do
  let n ← getNode leaf
  let position := bptreeFindInsertIndex n.keys n.numKeys key
  setNode leaf { n with
    keys := (shiftUp position n.keys n.numKeys).setIfInBounds position key
    values := (shiftUp position n.values n.numKeys).setIfInBounds position (some value)
    numKeys := n.numKeys + 1 }

/-- `bptree_create_new_root` -/
def bptreeCreateNewRoot (left : NodePtr) (key : Int) (right : NodePtr) : Prog Bool := do
  match ← bptreeCreateNode false with
  -- without memory the two halves stay without a common root
  | none => pure false
  | some root =>
    modifyNode root fun n => { n with
      keys := n.keys.setIfInBounds 0 key
      children := (n.children.setIfInBounds 0 (some left)).setIfInBounds 1 (some right)
      numKeys := 1 }
    modifyNode left fun n => { n with parent := some root }
    modifyNode right fun n => { n with parent := some root }
    setRoot (some root)
    pure true

/-- `bptree_insert_into_internal` -/
def bptreeInsertIntoInternal (parent : NodePtr) (insertIndex : Nat) (key : Int)
    (rightChild : NodePtr) : Prog Unit := do
  let n ← getNode parent
  setNode parent { n with
    keys := (shiftUp insertIndex n.keys n.numKeys).setIfInBounds insertIndex key
    children := (shiftUp (insertIndex + 1) n.children (n.numKeys + 1)).setIfInBounds
      (insertIndex + 1) (some rightChild) }
  modifyNode rightChild fun r => { r with parent := some parent }
  modifyNode parent fun n => { n with numKeys := n.numKeys + 1 }

/-- `if (children[index] != NULL) children[index]->parent = parent;` for each child. -/
def bptreeSetParents (parent : NodePtr) : List (Option NodePtr) → Prog Unit
  | [] => pure ()
  | none :: rest => bptreeSetParents parent rest
  | some child :: rest => do
    modifyNode child fun n => { n with parent := some parent }
    bptreeSetParents parent rest

/-- `bptree_split_internal_and_insert`; `insertIntoParent` is the recursive call
at its end. -/
def bptreeSplitInternalAndInsert (insertIntoParent : NodePtr → Int → NodePtr → Prog Bool)
    (parent : NodePtr) (insertIndex : Nat) (key : Int) (rightChild : NodePtr) : Prog Bool := do
  let promoteIndex := bptreeOrder / 2
  match ← bptreeCreateNode false with
  | none => pure false
  | some rightParent =>
    let n ← getNode parent
    -- temporary arrays that include the new key and child
    let tempKeys : Vector Int bptreeOrder :=
      (shiftUp insertIndex (copyFrom n.keys 0 (Vector.replicate _ 0) n.numKeys)
        n.numKeys).setIfInBounds insertIndex key
    let tempChildren : Vector (Option NodePtr) (bptreeOrder + 1) :=
      (shiftUp (insertIndex + 1) (copyFrom n.children 0 (Vector.replicate _ none) (n.numKeys + 1))
        (n.numKeys + 1)).setIfInBounds (insertIndex + 1) (some rightChild)
    -- the left half stays
    setNode parent { n with
      numKeys := promoteIndex
      keys := copyFrom tempKeys 0 n.keys promoteIndex
      children := copyFrom tempChildren 0 n.children (promoteIndex + 1) }
    bptreeSetParents parent (tempChildren.toList.take (promoteIndex + 1))
    -- the right half moves
    modifyNode rightParent fun r => { r with
      parent := n.parent
      numKeys := bptreeOrder - (promoteIndex + 1)
      keys := copyFrom tempKeys (promoteIndex + 1) r.keys (bptreeOrder - (promoteIndex + 1))
      children := copyFrom tempChildren (promoteIndex + 1) r.children
        (bptreeOrder - (promoteIndex + 1) + 1) }
    bptreeSetParents rightParent (tempChildren.toList.drop (promoteIndex + 1))
    insertIntoParent parent tempKeys[promoteIndex]! rightParent

/-- `bptree_insert_into_parent` -/
def bptreeInsertIntoParent : Nat → NodePtr → Int → NodePtr → Prog Bool
  | 0, _, _, _ => undefined
  | fuel + 1, left, key, right => do
    let l ← getNode left
    match l.parent with
    -- the node that split was the root
    | none => bptreeCreateNewRoot left key right
    | some parent =>
      let n ← getNode parent
      -- the place of the left half among the children
      let insertIndex := firstIndex (n.numKeys + 1) fun i => n.children[i]! != some left
      if n.numKeys < bptreeMaxKeys then
        bptreeInsertIntoInternal parent insertIndex key right
        pure true
      else
        bptreeSplitInternalAndInsert (bptreeInsertIntoParent fuel) parent insertIndex key right

/-- `bptree_split_leaf_and_insert` -/
def bptreeSplitLeafAndInsert (fuel : Nat) (leaf : NodePtr) (key : Int) (value : RecPtr) :
    Prog Bool := do
  let leftCount := bptreeOrder / 2
  match ← bptreeCreateNode true with
  | none => pure false
  | some rightLeaf =>
    let n ← getNode leaf
    let insertIndex := bptreeFindInsertIndex n.keys n.numKeys key
    -- merge the existing keys with the new key in sorted order
    let tempKeys : Vector Int bptreeOrder :=
      mergeInto n.keys key insertIndex n.numKeys 0 0 (Vector.replicate _ 0)
    let tempValues : Vector (Option RecPtr) bptreeOrder :=
      mergeInto n.values (some value) insertIndex n.numKeys 0 0 (Vector.replicate _ none)
    -- the left half stays, the right half moves into the new sibling
    setNode leaf { n with
      numKeys := leftCount
      keys := copyFrom tempKeys 0 n.keys leftCount
      values := copyFrom tempValues 0 n.values leftCount
      next := some rightLeaf }
    modifyNode rightLeaf fun r => { r with
      parent := n.parent
      numKeys := bptreeOrder - leftCount
      keys := copyFrom tempKeys leftCount r.keys (bptreeOrder - leftCount)
      values := copyFrom tempValues leftCount r.values (bptreeOrder - leftCount)
      next := n.next }
    let r ← getNode rightLeaf
    bptreeInsertIntoParent fuel leaf r.keys[0]! rightLeaf

/-- Where `key` is in the used part of a key array, or `num_keys`. -/
def BPTreeNode.findKey (n : BPTreeNode) (key : Int) : Nat :=
  firstIndex n.numKeys fun i => n.keys[i]! != key

/-- `bptree_insert` -/
def bptreeInsert (key : Int) (value : RecPtr) : Prog Bool := do
  match ← getRoot with
  -- an empty tree: the root is set before it is tested, so it stays NULL on failure
  | none =>
    let root ← bptreeCreateNode true
    setRoot root
    match root with
    | none => pure false
    | some root =>
      modifyNode root fun n => { n with
        keys := n.keys.setIfInBounds 0 key
        values := n.values.setIfInBounds 0 (some value)
        numKeys := 1 }
      pure true
  | some _ =>
    let leaf ← deref (← bptreeFindLeaf key)
    let n ← getNode leaf
    -- a key that is there already changes nothing
    if n.findKey key < n.numKeys then pure false
    else if n.numKeys < bptreeMaxKeys then
      bptreeInsertIntoLeaf leaf key value
      pure true
    else
      -- no climb is longer than the number of nodes
      let fuel ← countNodes
      bptreeSplitLeafAndInsert fuel leaf key value

/-- `bptree_search` -/
def bptreeSearch (key : Int) : Prog (Option RecPtr) := do
  match ← bptreeFindLeaf key with
  | none => pure none
  | some leaf =>
    let n ← getNode leaf
    if n.findKey key < n.numKeys then pure n.values[n.findKey key]! else pure none

end SqlApi.Core

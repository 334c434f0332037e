import SqlApi.Lib.Chain
import Mathlib.Data.List.Sort
import Mathlib.Data.List.Nodup
import Mathlib.Algebra.Order.BigOperators.Group.List
import Mathlib.Algebra.Group.Action.Defs
import Mathlib.Algebra.Order.Ring.Nat

/-!
# B+ trees as labelled search trees

A tree of height `h` over labels `A`, keys `K` and values `V`. The labels are
where a concrete tree keeps the addresses of its nodes; nothing below reads
them. Two invariants hold by construction: all leaves are at depth `h`, and an
internal node has one more child than separator keys.

The remaining invariants are predicates:

- `Within lo hi`: the keys of the leaves and the separators lie where the
  separators above them say, and each node is sorted.
- `Filled`: the occupancy bounds of a tree of the given order.

`insert` is insertion with splits: a subtree is replaced by a chain of one or
two subtrees, and an overfull parent is cut in turn.
-/

namespace SqlApi.Lib

/-- A leaf: a label and the entries it holds. -/
structure Leaf (A K V : Type) where
  addr : A
  entries : List (K × V)

/-- An internal node: a label and the chain of its children. -/
structure Inner (A K T : Type) where
  addr : A
  kids : Chain K T

/-- Trees whose leaves are all at depth `h`. -/
def Tree (A K V : Type) : Nat → Type
  | 0 => Leaf A K V
  | h + 1 => Inner A K (Tree A K V h)

namespace Tree

variable {A K V : Type}

/-- The tree consisting of one leaf. -/
def leaf (a : A) (es : List (K × V)) : Tree A K V 0 := Leaf.mk a es

/-- The tree with the given root label and children. -/
def node {h : Nat} (a : A) (c : Chain K (Tree A K V h)) : Tree A K V (h + 1) := Inner.mk a c

/-- Case analysis: a leaf or an internal node, by height. -/
@[elab_as_elim]
theorem cases {motive : (h : Nat) → Tree A K V h → Prop}
    (hleaf : ∀ a es, motive 0 (leaf a es))
    (hnode : ∀ h a (c : Chain K (Tree A K V h)), motive (h + 1) (node a c)) :
    ∀ {h : Nat} (t : Tree A K V h), motive h t
  | 0, t => hleaf t.addr t.entries
  | h + 1, t => hnode h t.addr t.kids

/-- Induction over a tree: the hypothesis of a node covers all its children. -/
@[elab_as_elim]
theorem induction {motive : (h : Nat) → Tree A K V h → Prop}
    (hleaf : ∀ a es, motive 0 (leaf a es))
    (hnode : ∀ h a (c : Chain K (Tree A K V h)), (∀ t ∈ c.trees, motive h t) →
      motive (h + 1) (node a c)) :
    ∀ {h : Nat} (t : Tree A K V h), motive h t
  | 0, t => hleaf t.addr t.entries
  | h + 1, t => hnode h t.addr t.kids fun u _ => induction hleaf hnode u

/-! ## Contents -/

/-- The label of the root. -/
def addr : {h : Nat} → Tree A K V h → A
  | 0, t => Leaf.addr t
  | _ + 1, t => Inner.addr t

/-- The leaves, left to right. -/
def leaves : {h : Nat} → Tree A K V h → List (Leaf A K V)
  | 0, t => [t]
  | _ + 1, t => (Inner.kids t).trees.flatMap leaves

/-- The entries, left to right. -/
def toList : {h : Nat} → Tree A K V h → List (K × V)
  | 0, t => Leaf.entries t
  | _ + 1, t => (Inner.kids t).trees.flatMap toList

/-- The labels of all nodes. -/
def addrs : {h : Nat} → Tree A K V h → List A
  | 0, t => [Leaf.addr t]
  | _ + 1, t => Inner.addr t :: (Inner.kids t).trees.flatMap addrs

/-- All keys of a tree: those of its entries and its separators. -/
def allKeys : {h : Nat} → Tree A K V h → List K
  | 0, t => (Leaf.entries t).map Prod.fst
  | _ + 1, t => (Inner.kids t).keys ++ (Inner.kids t).trees.flatMap allKeys

/-- The leftmost leaf. -/
def firstLeaf : {h : Nat} → Tree A K V h → Leaf A K V
  | 0, t => t
  | _ + 1, t => (Inner.kids t).head.firstLeaf

section Leaf

variable (a : A) (es : List (K × V))

@[simp] theorem addr_leaf : (leaf a es).addr = a := rfl
@[simp] theorem leaves_leaf : (leaf a es).leaves = [⟨a, es⟩] := rfl
@[simp] theorem toList_leaf : (leaf a es).toList = es := rfl
@[simp] theorem addrs_leaf : (leaf a es).addrs = [a] := rfl
@[simp] theorem allKeys_leaf : (leaf a es).allKeys = es.map Prod.fst := rfl
@[simp] theorem firstLeaf_leaf : (leaf a es).firstLeaf = ⟨a, es⟩ := rfl

end Leaf

section Node

variable {h : Nat} (a : A) (c : Chain K (Tree A K V h))

@[simp] theorem addr_node : (node a c).addr = a := rfl
@[simp] theorem leaves_node : (node a c).leaves = c.trees.flatMap leaves := rfl
@[simp] theorem toList_node : (node a c).toList = c.trees.flatMap toList := rfl
@[simp] theorem addrs_node : (node a c).addrs = a :: c.trees.flatMap addrs := rfl
@[simp] theorem allKeys_node : (node a c).allKeys = c.keys ++ c.trees.flatMap allKeys := rfl
@[simp] theorem firstLeaf_node : (node a c).firstLeaf = c.head.firstLeaf := rfl

end Node

/-- The entries of a tree are those of its leaves. -/
theorem toList_eq_flatMap_leaves {h : Nat} (t : Tree A K V h) :
    t.toList = t.leaves.flatMap Leaf.entries := by
  induction t using induction with
  | hleaf a es => simp
  | hnode h a c ih =>
    simp only [toList_node, leaves_node, List.flatMap_assoc]
    exact List.flatMap_congr ih

theorem addr_mem_addrs {h : Nat} (t : Tree A K V h) : t.addr ∈ t.addrs := by
  induction t using cases with
  | hleaf a es => simp
  | hnode h a c => simp

/-- The leaves begin with the leftmost one. -/
theorem leaves_eq_firstLeaf_cons {h : Nat} (t : Tree A K V h) :
    ∃ ls, t.leaves = t.firstLeaf :: ls := by
  induction t using induction with
  | hleaf a es => exact ⟨[], rfl⟩
  | hnode h a c ih =>
    obtain ⟨ts, hts⟩ := c.trees_eq_head_cons
    obtain ⟨ls, hls⟩ := ih c.head (by simp [hts])
    exact ⟨ls ++ ts.flatMap leaves, by simp [hts, hls]⟩

/-- The labels of the leaves are among the labels, in order. -/
theorem leaves_addr_sublist {h : Nat} (t : Tree A K V h) :
    (t.leaves.map Leaf.addr).Sublist t.addrs := by
  induction t using induction with
  | hleaf a es => simp
  | hnode h a c ih =>
    rw [leaves_node, addrs_node, List.map_flatMap]
    refine List.Sublist.cons _ ?_
    generalize c.trees = ts at ih
    induction ts with
    | nil => simp
    | cons u ts iht =>
      rw [List.flatMap_cons, List.flatMap_cons]
      exact (ih u (by simp)).append (iht fun v hv => ih v (by simp [hv]))

/-- The key of an entry is a key of the tree. -/
theorem key_mem_allKeys {h : Nat} {t : Tree A K V h} {e : K × V} (he : e ∈ t.toList) :
    e.1 ∈ t.allKeys := by
  induction t using induction with
  | hleaf a es => exact List.mem_map_of_mem he
  | hnode h a c ih =>
    obtain ⟨u, hu, heu⟩ := List.mem_flatMap.mp he
    exact List.mem_append_right _ (List.mem_flatMap.mpr ⟨u, hu, ih u hu heu⟩)

/-! ## Order -/

section Order

variable [LinearOrder K]

/-- Sorted nodes inside the interval `[lo, hi)`, separators included. -/
def Within : {h : Nat} → WithBot K → WithTop K → Tree A K V h → Prop
  | 0, lo, hi, t =>
    ((Leaf.entries t).map Prod.fst).Pairwise (· < ·) ∧
      ∀ e ∈ Leaf.entries t, lo ≤ (e.1 : WithBot K) ∧ (e.1 : WithTop K) < hi
  | _ + 1, lo, hi, t => (Inner.kids t).Between Within lo hi

theorem within_leaf {lo : WithBot K} {hi : WithTop K} {a : A} {es : List (K × V)} :
    (leaf a es).Within lo hi ↔ (es.map Prod.fst).Pairwise (· < ·) ∧
      ∀ e ∈ es, lo ≤ (e.1 : WithBot K) ∧ (e.1 : WithTop K) < hi := Iff.rfl

theorem within_node {h : Nat} {lo : WithBot K} {hi : WithTop K} {a : A}
    {c : Chain K (Tree A K V h)} : (node a c).Within lo hi ↔ c.Between Within lo hi := Iff.rfl

/-- All keys of an ordered tree lie in its interval. -/
theorem Within.bounds {h : Nat} {t : Tree A K V h} {lo : WithBot K} {hi : WithTop K}
    (ht : t.Within lo hi) :
    ∀ k ∈ t.allKeys, lo ≤ (k : WithBot K) ∧ (k : WithTop K) < hi := by
  induction t using induction generalizing lo hi with
  | hleaf a es =>
    intro k hk
    obtain ⟨e, he, rfl⟩ := List.mem_map.mp hk
    exact (within_leaf.mp ht).2 e he
  | hnode h a c ih =>
    intro k hk
    rcases List.mem_append.mp hk with hk | hk
    · obtain ⟨hlo, hhi⟩ := (within_node.mp ht).keys_sorted.2 k hk
      exact ⟨hlo.le, hhi⟩
    · obtain ⟨u, hu, hku⟩ := List.mem_flatMap.mp hk
      obtain ⟨x, y, hx, hy, hP⟩ := (within_node.mp ht).of_mem hu
      obtain ⟨h₁, h₂⟩ := ih u hu hP k hku
      exact ⟨hx.trans h₁, h₂.trans_le hy⟩

/-- The entries of an ordered tree lie in its interval. -/
theorem Within.entry_bounds {h : Nat} {t : Tree A K V h} {lo : WithBot K} {hi : WithTop K}
    (ht : t.Within lo hi) {e : K × V} (he : e ∈ t.toList) :
    lo ≤ (e.1 : WithBot K) ∧ (e.1 : WithTop K) < hi :=
  ht.bounds _ (key_mem_allKeys he)

/-- The entries of a chain of ordered trees are sorted. -/
private theorem sorted_flatMap_toList {h : Nat} {c : Chain K (Tree A K V h)} {lo : WithBot K}
    {hi : WithTop K} (hc : c.Between Within lo hi)
    (ih : ∀ u ∈ c.trees, ∀ a b, u.Within a b → (u.toList.map Prod.fst).Pairwise (· < ·)) :
    ((c.trees.flatMap toList).map Prod.fst).Pairwise (· < ·) := by
  induction c generalizing lo with
  | one u => simpa using ih u (by simp) _ _ hc
  | cons u k rest ihc =>
    obtain ⟨-, -, hu, hrest⟩ := hc
    simp only [Chain.trees_cons, List.flatMap_cons, List.map_append, List.pairwise_append]
    refine ⟨ih u (by simp) _ _ hu, ihc hrest fun v hv => ih v (by simp [hv]), ?_⟩
    -- left of the separator against right of it
    intro x hx y hy
    obtain ⟨e, he, rfl⟩ := List.mem_map.mp hx
    obtain ⟨f, hf, rfl⟩ := List.mem_map.mp hy
    obtain ⟨v, hv, hfv⟩ := List.mem_flatMap.mp hf
    obtain ⟨p, q, hp, -, hvw⟩ := hrest.of_mem hv
    have hek : e.1 < k := WithTop.coe_lt_coe.mp (hu.entry_bounds he).2
    have hkf : k ≤ f.1 := WithBot.coe_le_coe.mp (hp.trans (hvw.entry_bounds hfv).1)
    exact hek.trans_le hkf

/-- The entries of an ordered tree are sorted. -/
theorem Within.sorted {h : Nat} {t : Tree A K V h} {lo : WithBot K} {hi : WithTop K}
    (ht : t.Within lo hi) : (t.toList.map Prod.fst).Pairwise (· < ·) := by
  induction t using induction generalizing lo hi with
  | hleaf a es => exact (within_leaf.mp ht).1
  | hnode h a c ih => exact sorted_flatMap_toList ht fun u hu a b hu' => ih u hu hu'

/-! ## Descent -/

/-- The leaf a key belongs to. -/
def leafFor (key : K) : {h : Nat} → Tree A K V h → Leaf A K V
  | 0, t => t
  | _ + 1, t => ((Inner.kids t).locate key).leafFor key

@[simp] theorem leafFor_leaf (key : K) (a : A) (es : List (K × V)) :
    (leaf a es).leafFor key = ⟨a, es⟩ := rfl

@[simp] theorem leafFor_node (key : K) {h : Nat} (a : A) (c : Chain K (Tree A K V h)) :
    (node a c).leafFor key = (c.locate key).leafFor key := rfl

/-- The descent splits the leaves: before the leaf of a key every entry is below
the key, after it every entry is above. -/
theorem Within.leafFor_split {h : Nat} {t : Tree A K V h} {lo : WithBot K} {hi : WithTop K}
    {key : K} (ht : t.Within lo hi) (hlo : lo ≤ (key : WithBot K)) (hhi : (key : WithTop K) < hi) :
    ∃ pre post, t.leaves = pre ++ t.leafFor key :: post ∧
      (∀ e ∈ pre.flatMap Leaf.entries, e.1 < key) ∧
      (∀ e ∈ post.flatMap Leaf.entries, key < e.1) := by
  induction t using induction generalizing lo hi with
  | hleaf a es => exact ⟨[], [], by simp⟩
  | hnode h a c ih =>
    -- the leaf of the key is in one child; the leaves of the children around it are around it
    obtain ⟨us, vs, before, after, hf, ⟨x, y, -, -, hx, hy, hP⟩, hus, hvs⟩ :=
      (within_node.mp ht).exists_focus hlo hhi
    obtain ⟨pre, post, hleaves, hpre, hpost⟩ := ih _ (c.locate_mem key) hP hx hy
    refine ⟨us.flatMap leaves ++ pre, post ++ vs.flatMap leaves, ?_, ?_, ?_⟩
    · simp [hf.trees_eq, hleaves]
    · intro e he
      rw [List.flatMap_append, List.mem_append] at he
      rcases he with he | he
      · rw [List.flatMap_assoc, List.mem_flatMap] at he
        obtain ⟨u, hu, he⟩ := he
        rw [← toList_eq_flatMap_leaves] at he
        obtain ⟨p, q, hw, hq⟩ := hus u hu
        exact (WithTop.coe_lt_coe.mp (hw.entry_bounds he).2).trans_le hq
      · exact hpre e he
    · intro e he
      rw [List.flatMap_append, List.mem_append] at he
      rcases he with he | he
      · exact hpost e he
      · rw [List.flatMap_assoc, List.mem_flatMap] at he
        obtain ⟨v, hv, he⟩ := he
        rw [← toList_eq_flatMap_leaves] at he
        obtain ⟨p, q, hw, hp⟩ := hvs v hv
        exact hp.trans_le (WithBot.coe_le_coe.mp (hw.entry_bounds he).1)

theorem leafFor_mem_leaves {h : Nat} (t : Tree A K V h) (key : K) : t.leafFor key ∈ t.leaves := by
  induction t using induction with
  | hleaf a es => simp
  | hnode h a c ih =>
    exact List.mem_flatMap.mpr ⟨_, c.locate_mem key, ih _ (c.locate_mem key)⟩

/-- Looking a key up in its leaf is looking it up in the whole tree. -/
theorem Within.lookup_leafFor {h : Nat} {t : Tree A K V h} {key : K} (ht : t.Within ⊥ ⊤) :
    (t.leafFor key).entries.lookup key = t.toList.lookup key := by
  obtain ⟨pre, post, hleaves, hpre, hpost⟩ :=
    ht.leafFor_split bot_le (WithTop.coe_lt_top key)
  have hmiss : ∀ l : List (K × V), (∀ e ∈ l, e.1 ≠ key) → l.lookup key = none := by
    intro l hl
    exact List.lookup_eq_none_iff.mpr fun e he => by simpa using fun h' => hl e he h'.symm
  rw [toList_eq_flatMap_leaves, hleaves, List.flatMap_append, List.flatMap_cons,
    List.lookup_append, List.lookup_append, hmiss _ fun e he => (hpre e he).ne,
    hmiss _ fun e he => (hpost e he).ne']
  simp

end Order

/-! ## Insertion into sorted entries -/

section Entries

variable [LinearOrder K]

/-- Insert an entry before the first one whose key is not smaller. -/
def insertEntry (key : K) (v : V) (es : List (K × V)) : List (K × V) :=
  es.orderedInsert (fun a b => a.1 ≤ b.1) (key, v)

variable {key : K} {v : V}

theorem insertEntry_append_left {pre es : List (K × V)} (hpre : ∀ e ∈ pre, e.1 < key) :
    insertEntry key v (pre ++ es) = pre ++ insertEntry key v es := by
  induction pre with
  | nil => rfl
  | cons e rest ih =>
    have he : ¬ key ≤ e.1 := not_le.mpr (hpre e (by simp))
    have hrest := ih fun f hf => hpre f (by simp [hf])
    simp only [insertEntry] at hrest
    simp [insertEntry, he, hrest]

theorem insertEntry_append_right {es post : List (K × V)} (hpost : ∀ e ∈ post, key < e.1) :
    insertEntry key v (es ++ post) = insertEntry key v es ++ post := by
  induction es with
  | nil =>
    cases post with
    | nil => rfl
    | cons e rest =>
      have he : key ≤ e.1 := (hpost e (by simp)).le
      simp [insertEntry, List.orderedInsert, he]
  | cons e rest ih =>
    simp only [insertEntry] at ih
    by_cases he : key ≤ e.1 <;> simp [insertEntry, List.orderedInsert, he, ih]

theorem length_insertEntry (es : List (K × V)) :
    (insertEntry key v es).length = es.length + 1 := by
  simp [insertEntry, List.orderedInsert_length]

theorem mem_insertEntry {es : List (K × V)} {e : K × V} :
    e ∈ insertEntry key v es ↔ e = (key, v) ∨ e ∈ es := by
  simp [insertEntry, List.mem_orderedInsert]

/-- Inserting a new key keeps the entries sorted. -/
theorem sorted_insertEntry {es : List (K × V)} (hes : (es.map Prod.fst).Pairwise (· < ·))
    (hkey : key ∉ es.map Prod.fst) :
    ((insertEntry key v es).map Prod.fst).Pairwise (· < ·) := by
  -- the induction is on the entries: the new one stands before the first that is not below it
  induction es with
  | nil => simp [insertEntry]
  | cons e rest ih =>
    obtain ⟨he, hrest⟩ := List.pairwise_cons.mp hes
    simp only [List.map_cons, List.mem_cons, not_or] at hkey
    by_cases hle : key ≤ e.1
    · have hlt : key < e.1 := lt_of_le_of_ne hle hkey.1
      simp only [insertEntry, List.orderedInsert, hle, if_true, List.map_cons]
      refine List.pairwise_cons.mpr ⟨?_, hes⟩
      intro k hk
      rcases List.mem_cons.mp hk with rfl | hk
      · exact hlt
      · exact hlt.trans (he k hk)
    · have hlt : e.1 < key := not_le.mp hle
      simp only [insertEntry, List.orderedInsert, hle, if_false, List.map_cons]
      refine List.pairwise_cons.mpr ⟨?_, ih hrest hkey.2⟩
      intro k hk
      obtain ⟨f, hf, rfl⟩ := List.mem_map.mp hk
      rcases mem_insertEntry.mp hf with rfl | hf
      · exact hlt
      · exact he f.1 (List.mem_map_of_mem hf)

omit [LinearOrder K] in
theorem lookup_cons_pair [DecidableEq K] (k k' : K) (w : V) (es : List (K × V)) :
    ((k', w) :: es).lookup k = if k = k' then some w else es.lookup k := by
  by_cases hk : k = k'
  · simp [hk]
  · have hne : (k == k') = false := by simpa using hk
    rw [List.lookup_cons, hne, if_neg hk]

/-- Inserting a new key binds it and changes no other key. -/
theorem lookup_insertEntry {es : List (K × V)} (hkey : key ∉ es.map Prod.fst) (k : K) :
    (insertEntry key v es).lookup k = if k = key then some v else es.lookup k := by
  induction es with
  | nil => simp [insertEntry, lookup_cons_pair]
  | cons e rest ih =>
    obtain ⟨k', w⟩ := e
    simp only [List.map_cons, List.mem_cons, not_or] at hkey
    by_cases hle : key ≤ k'
    · simp [insertEntry, hle, lookup_cons_pair]
    · have hrest := ih hkey.2
      simp only [insertEntry] at hrest
      simp only [insertEntry, List.orderedInsert, hle, if_false, lookup_cons_pair, hrest]
      by_cases hk : k = key
      · subst hk
        simp [hkey.1]
      · simp [hk]

end Entries

/-! ## Insertion into trees -/

section Insert

variable [LinearOrder K]

/-- Entries as one leaf, or as two when there are `order` of them. -/
def splitLeaf (order : Nat) (a b : A) (es : List (K × V)) : Chain K (Tree A K V 0) :=
  if es.length < order then .one (leaf a es)
  else match es.drop (order / 2) with
    | [] => .one (leaf a es)
    | e :: right => .cons (leaf a (es.take (order / 2))) e.1 (.one (leaf b (e :: right)))

/-- Children as one node, or as two with the middle separator between them when
there are `order` separators. -/
def splitNode (order : Nat) (a b : A) {h : Nat} (c : Chain K (Tree A K V h)) :
    Chain K (Tree A K V (h + 1)) :=
  if c.keys.length < order then .one (node a c)
  else match c.cut (order / 2) with
    | none => .one (node a c)
    | some (l, k, r) => .cons (node a l) k (.one (node b r))

/-- Insert into a subtree. The result is the chain that replaces the subtree,
and the next unused label: a split takes one. -/
def insert (order : Nat) (label : Nat → A) (key : K) (v : V) :
    {h : Nat} → Tree A K V h → Nat → Chain K (Tree A K V h) × Nat
  | 0, t, n =>
    let g := splitLeaf order (Leaf.addr t) (label n) (insertEntry key v (Leaf.entries t))
    (g, n + g.keys.length)
  | _ + 1, t, n =>
    let r := insert order label key v ((Inner.kids t).locate key) n
    let g := splitNode order (Inner.addr t) (label r.2) ((Inner.kids t).splice key r.1)
    (g, r.2 + g.keys.length)

variable {order : Nat} {label : Nat → A} {key : K} {v : V}

theorem insert_leaf (a : A) (es : List (K × V)) (n : Nat) :
    (leaf a es).insert order label key v n =
      let g := splitLeaf order a (label n) (insertEntry key v es)
      (g, n + g.keys.length) := rfl

theorem insert_node {h : Nat} (a : A) (c : Chain K (Tree A K V h)) (n : Nat) :
    (node a c).insert order label key v n =
      let r := (c.locate key).insert order label key v n
      let g := splitNode order a (label r.2) (c.splice key r.1)
      (g, r.2 + g.keys.length) := rfl

omit [LinearOrder K] in
/-- A split leaf: one leaf, or two around the first key of the right one. -/
theorem splitLeaf_cases (horder : 0 < order) (a b : A) (es : List (K × V)) :
    (es.length < order ∧ splitLeaf order a b es = .one (leaf a es)) ∨
    (order ≤ es.length ∧ ∃ l k w r, es = l ++ (k, w) :: r ∧ l.length = order / 2 ∧
      splitLeaf order a b es = .cons (leaf a l) k (.one (leaf b ((k, w) :: r)))) := by
  by_cases hlen : es.length < order
  · exact .inl ⟨hlen, by simp [splitLeaf, hlen]⟩
  · refine .inr ⟨not_lt.mp hlen, ?_⟩
    have hhalf : order / 2 < es.length := by omega
    obtain ⟨⟨k, w⟩, r, hdrop⟩ : ∃ e r, es.drop (order / 2) = e :: r :=
      List.exists_cons_of_length_pos (by rw [List.length_drop]; omega)
    refine ⟨es.take (order / 2), k, w, r, ?_, ?_, ?_⟩
    · rw [← hdrop, List.take_append_drop]
    · simp [hhalf.le]
    · simp [splitLeaf, hlen, hdrop]

omit [LinearOrder K] in
/-- A split node: one node, or two around the middle separator. -/
theorem splitNode_cases (horder : 0 < order) (a b : A) {h : Nat}
    (c : Chain K (Tree A K V h)) :
    (c.keys.length < order ∧ splitNode order a b c = .one (node a c)) ∨
    (order ≤ c.keys.length ∧ ∃ l k r, c = l.append k r ∧ l.keys.length = order / 2 ∧
      splitNode order a b c = .cons (node a l) k (.one (node b r))) := by
  by_cases hlen : c.keys.length < order
  · exact .inl ⟨hlen, by simp [splitNode, hlen]⟩
  · refine .inr ⟨not_lt.mp hlen, ?_⟩
    obtain ⟨l, k, r, hcut⟩ := Chain.cut_isSome (n := order / 2) (c := c) (by omega)
    obtain ⟨hc, hl⟩ := Chain.cut_eq_some hcut
    exact ⟨l, k, r, hc, hl, by simp [splitNode, hlen, hcut]⟩

/-- Insertion replaces a subtree by one subtree or by two, and takes as many
labels as it has splits. -/
theorem insert_cases (horder : 0 < order) {h : Nat} (t : Tree A K V h) (n : Nat) :
    (∃ t', (t.insert order label key v n).1 = .one t') ∨
    ∃ l k r, (t.insert order label key v n).1 = .cons l k (.one r) := by
  induction t using cases with
  | hleaf a es =>
    rcases splitLeaf_cases horder a (label n) (insertEntry key v es) with ⟨-, h⟩ | ⟨-, h⟩
    · exact .inl ⟨_, h⟩
    · obtain ⟨l, k, w, r, -, -, h⟩ := h
      exact .inr ⟨_, _, _, h⟩
  | hnode h a c =>
    rcases splitNode_cases horder a (label ((c.locate key).insert order label key v n).2)
      (c.splice key ((c.locate key).insert order label key v n).1) with ⟨-, h⟩ | ⟨-, h⟩
    · exact .inl ⟨_, h⟩
    · obtain ⟨l, k, r, -, -, h⟩ := h
      exact .inr ⟨_, _, _, h⟩

/-- Insertion inserts into the entries. -/
theorem insert_toList (horder : 0 < order) {h : Nat} {t : Tree A K V h} {lo : WithBot K}
    {hi : WithTop K} (ht : t.Within lo hi) (hlo : lo ≤ (key : WithBot K))
    (hhi : (key : WithTop K) < hi) (n : Nat) :
    (t.insert order label key v n).1.trees.flatMap toList = insertEntry key v t.toList := by
  induction t using induction generalizing lo hi with
  | hleaf a es =>
    rcases splitLeaf_cases horder a (label n) (insertEntry key v es) with ⟨-, h⟩ | ⟨-, h⟩
    · simp [insert_leaf, h]
    · -- a split leaf holds the same entries in two parts
      obtain ⟨l, k, w, r, hes, -, h⟩ := h
      simp only [insert_leaf, h]
      simp [hes]
  | hnode h a c ih =>
    obtain ⟨us, vs, before, after, hf, ⟨x, y, -, -, hx, hy, hP⟩, hus, hvs⟩ :=
      (within_node.mp ht).exists_focus hlo hhi
    have hkid := ih _ (c.locate_mem key) hP hx hy
    -- the changed child lists the new entry, and the key belongs into no other child
    have hsplice : (c.splice key ((c.locate key).insert order label key v n).1).trees.flatMap toList
        = insertEntry key v (c.trees.flatMap toList) := by
      rw [hf.splice_trees, hf.trees_eq]
      simp only [List.flatMap_append, List.flatMap_cons, hkid, List.append_assoc]
      rw [insertEntry_append_left, insertEntry_append_right]
      · intro e he
        obtain ⟨u, hu, he⟩ := List.mem_flatMap.mp he
        obtain ⟨p, q, hw, hp⟩ := hvs u hu
        exact hp.trans_le (WithBot.coe_le_coe.mp (hw.entry_bounds he).1)
      · intro e he
        obtain ⟨u, hu, he⟩ := List.mem_flatMap.mp he
        obtain ⟨p, q, hw, hq⟩ := hus u hu
        exact (WithTop.coe_lt_coe.mp (hw.entry_bounds he).2).trans_le hq
    rw [insert_node, toList_node, ← hsplice]
    rcases splitNode_cases horder a (label ((c.locate key).insert order label key v n).2)
      (c.splice key ((c.locate key).insert order label key v n).1) with ⟨-, h⟩ | ⟨-, h⟩
    · simp [h]
    · obtain ⟨l, k, r, hc, -, h⟩ := h
      simp only [h]
      simp [hc]

private theorem splitLeaf_between (horder : 2 ≤ order) {lo : WithBot K} {hi : WithTop K} {a b : A}
    {es : List (K × V)} (hsorted : (es.map Prod.fst).Pairwise (· < ·))
    (hes : ∀ e ∈ es, lo ≤ (e.1 : WithBot K) ∧ (e.1 : WithTop K) < hi) :
    (splitLeaf order a b es).Between Within lo hi := by
  have hpos : 0 < order := by omega
  rcases splitLeaf_cases hpos a b es with ⟨-, h⟩ | ⟨-, h⟩
  · rw [h]
    exact ⟨hsorted, hes⟩
  · obtain ⟨l, k, w, r, rfl, hl, h⟩ := h
    rw [h]
    simp only [List.map_append, List.map_cons, List.pairwise_append] at hsorted
    obtain ⟨hsl, hsr, hlr⟩ := hsorted
    -- the left half is not empty, so the separator is above the lower bound
    obtain ⟨e, l', rfl⟩ := List.exists_cons_of_length_pos (l := l) (by omega)
    have hek : e.1 < k := hlr e.1 (by simp) k (by simp)
    refine ⟨(hes e (by simp)).1.trans_lt (WithBot.coe_lt_coe.mpr hek), (hes (k, w) (by simp)).2,
      ⟨hsl, ?_⟩, ⟨hsr, ?_⟩⟩
    · intro f hf
      exact ⟨(hes f (List.mem_append_left _ hf)).1, WithTop.coe_lt_coe.mpr
        (hlr f.1 (List.mem_map_of_mem hf) k (by simp))⟩
    · intro f hf
      refine ⟨?_, (hes f (List.mem_append_right _ hf)).2⟩
      rcases List.mem_cons.mp hf with rfl | hf
      · exact le_rfl
      · exact WithBot.coe_le_coe.mpr
          ((List.pairwise_cons.mp hsr).1 f.1 (List.mem_map_of_mem hf)).le

/-- Inserting a new key keeps a subtree ordered, between the same bounds. -/
theorem insert_between (horder : 2 ≤ order) {h : Nat} {t : Tree A K V h} {lo : WithBot K}
    {hi : WithTop K} (ht : t.Within lo hi) (hlo : lo ≤ (key : WithBot K))
    (hhi : (key : WithTop K) < hi) (hnew : key ∉ t.toList.map Prod.fst) (n : Nat) :
    (t.insert order label key v n).1.Between Within lo hi := by
  induction t using induction generalizing lo hi with
  | hleaf a es =>
    obtain ⟨hsorted, hes⟩ := within_leaf.mp ht
    rw [insert_leaf]
    refine splitLeaf_between horder (sorted_insertEntry hsorted hnew) fun e he => ?_
    rcases mem_insertEntry.mp he with rfl | he
    · exact ⟨hlo, hhi⟩
    · exact hes e he
  | hnode h a c ih =>
    -- the new children stand between the old separators, since the key does
    have hsplice : (c.splice key ((c.locate key).insert order label key v n).1).Between
        Within lo hi := by
      refine (within_node.mp ht).splice hlo hhi (fun x y hx hy hP => ?_) fun _ _ _ => id
      refine ih _ (c.locate_mem key) hP hx hy fun hmem => hnew ?_
      obtain ⟨e, he, rfl⟩ := List.mem_map.mp hmem
      exact List.mem_map_of_mem (List.mem_flatMap.mpr ⟨_, c.locate_mem _, he⟩)
    have hpos : 0 < order := by omega
    rw [insert_node]
    rcases splitNode_cases hpos a (label ((c.locate key).insert order label key v n).2)
      (c.splice key ((c.locate key).insert order label key v n).1) with ⟨-, h⟩ | ⟨-, h⟩
    · simp only [h]
      exact within_node.mpr hsplice
    · obtain ⟨l, k, r, hc, -, h⟩ := h
      simp only [h]
      rw [hc, Chain.between_append] at hsplice
      exact hsplice

/-! ## Occupancy -/

omit [LinearOrder K] in
/-- Occupancy for a given order: the node itself holds at least `m` entries, or
`n` separators, and every node below it at least half of what fits. -/
def Filled (order : Nat) : {h : Nat} → (m n : Nat) → Tree A K V h → Prop
  | 0, m, _, t => m ≤ (Leaf.entries t).length ∧ (Leaf.entries t).length < order
  | _ + 1, _, n, t => n ≤ (Inner.kids t).keys.length ∧ (Inner.kids t).keys.length < order ∧
      ∀ u ∈ (Inner.kids t).trees, Filled order (order / 2) ((order - 1) / 2) u

omit [LinearOrder K] in
theorem filled_leaf {m n : Nat} {a : A} {es : List (K × V)} :
    (leaf a es).Filled order m n ↔ m ≤ es.length ∧ es.length < order := Iff.rfl

omit [LinearOrder K] in
theorem filled_node {m n : Nat} {h : Nat} {a : A} {c : Chain K (Tree A K V h)} :
    (node a c).Filled order m n ↔ n ≤ c.keys.length ∧ c.keys.length < order ∧
      ∀ u ∈ c.trees, u.Filled order (order / 2) ((order - 1) / 2) := Iff.rfl

omit [LinearOrder K] in
/-- Being fuller at the root is being full enough. -/
theorem Filled.mono {h m n m' n' : Nat} {t : Tree A K V h} (ht : t.Filled order m n)
    (hm : m' ≤ m) (hn : n' ≤ n) : t.Filled order m' n' := by
  induction t using cases with
  | hleaf a es => exact ⟨hm.trans (filled_leaf.mp ht).1, (filled_leaf.mp ht).2⟩
  | hnode h a c => exact ⟨hn.trans (filled_node.mp ht).1, (filled_node.mp ht).2⟩

omit [LinearOrder K] in
/-- The entries of the children, when each has at least `b` of them. -/
private theorem mul_le_length_flatMap_toList {h b : Nat} {ts : List (Tree A K V h)}
    (hts : ∀ u ∈ ts, b ≤ u.toList.length) : ts.length * b ≤ (ts.flatMap toList).length := by
  have hsum := List.card_nsmul_le_sum (ts.map fun u => u.toList.length) b fun n hn => by
    obtain ⟨u, hu, rfl⟩ := List.mem_map.mp hn
    exact hts u hu
  rwa [List.length_map, smul_eq_mul, ← List.length_flatMap] at hsum

omit [LinearOrder K] in
/-- A tree below the root has entries exponential in its height. -/
theorem Filled.pow_le_length {h : Nat} {t : Tree A K V h}
    (ht : t.Filled order (order / 2) ((order - 1) / 2)) :
    ((order - 1) / 2 + 1) ^ h * (order / 2) ≤ t.toList.length := by
  induction t using induction with
  | hleaf a es => simpa using (filled_leaf.mp ht).1
  | hnode h a c ih =>
    obtain ⟨hkeys, -, hkids⟩ := filled_node.mp ht
    have htrees : (order - 1) / 2 + 1 ≤ c.trees.length := by
      rw [c.length_trees]
      exact Nat.succ_le_succ hkeys
    calc ((order - 1) / 2 + 1) ^ (h + 1) * (order / 2)
        = ((order - 1) / 2 + 1) * (((order - 1) / 2 + 1) ^ h * (order / 2)) := by
          rw [pow_succ', mul_assoc]
      _ ≤ c.trees.length * (((order - 1) / 2 + 1) ^ h * (order / 2)) :=
          Nat.mul_le_mul_right _ htrees
      _ ≤ (node a c).toList.length :=
          mul_le_length_flatMap_toList fun u hu => ih u hu (hkids u hu)

omit [LinearOrder K] in
/-- The whole tree, whose root may hold less. -/
theorem Filled.pow_le_length_root {h m n : Nat} {t : Tree A K V (h + 1)}
    (ht : t.Filled order m n) :
    (n + 1) * (((order - 1) / 2 + 1) ^ h * (order / 2)) ≤ t.toList.length := by
  obtain ⟨a, c⟩ := t
  obtain ⟨hkeys, -, hkids⟩ := filled_node.mp ht
  have htrees : n + 1 ≤ c.trees.length := by
    rw [c.length_trees]
    exact Nat.succ_le_succ hkeys
  exact (Nat.mul_le_mul_right _ htrees).trans
    (mul_le_length_flatMap_toList fun u hu => (hkids u hu).pow_le_length)

omit [LinearOrder K] in
/-- No leaf of a filled tree is empty. -/
theorem Filled.length_leaf_pos (horder : 2 ≤ order) {h m n : Nat} {t : Tree A K V h}
    (ht : t.Filled order m n) (hm : 0 < m) {l : Leaf A K V} (hl : l ∈ t.leaves) :
    0 < l.entries.length := by
  induction t using induction generalizing m n with
  | hleaf a es =>
    obtain rfl := List.mem_singleton.mp hl
    exact hm.trans_le (filled_leaf.mp ht).1
  | hnode h a c ih =>
    obtain ⟨u, hu, hlu⟩ := List.mem_flatMap.mp hl
    exact ih u hu ((filled_node.mp ht).2.2 u hu) (Nat.div_pos horder Nat.two_pos) hlu

/-- Insertion keeps the occupancy: the one subtree has at least what it had, two
subtrees are both at least half full. -/
theorem insert_filled (horder : 3 ≤ order) {h m n : Nat} {t : Tree A K V h}
    (ht : t.Filled order m n) (i : Nat) :
    (∃ t', (t.insert order label key v i).1 = .one t' ∧ t'.Filled order m n) ∨
    ∃ l k r, (t.insert order label key v i).1 = .cons l k (.one r) ∧
      l.Filled order (order / 2) ((order - 1) / 2) ∧
      r.Filled order (order / 2) ((order - 1) / 2) := by
  have hpos : 0 < order := by omega
  induction t using induction generalizing m n with
  | hleaf a es =>
    obtain ⟨hm, hlen⟩ := filled_leaf.mp ht
    have hes : (insertEntry key v es).length = es.length + 1 := length_insertEntry es
    rw [insert_leaf]
    rcases splitLeaf_cases hpos a (label i) (insertEntry key v es) with ⟨h', h⟩ | ⟨h', h⟩
    · exact .inl ⟨_, h, by rw [filled_leaf]; omega⟩
    · obtain ⟨l, k, w, r, hsplit, hl, h⟩ := h
      rw [hsplit, List.length_append, List.length_cons] at hes h'
      refine .inr ⟨_, _, _, h, ?_, ?_⟩
      · rw [filled_leaf]
        omega
      · rw [filled_leaf, List.length_cons]
        omega
  | hnode h a c ih =>
    obtain ⟨hn, hlen, hkids⟩ := filled_node.mp ht
    obtain ⟨us, vs, before, after, hf⟩ := c.exists_focus key
    have hloc := ih _ (c.locate_mem key) (hkids _ (c.locate_mem key))
    generalize hg : (c.locate key).insert order label key v i = g at hloc
    -- the new children are as full as the old ones, and there is at most one more
    have hnew : ∀ u ∈ (c.splice key g.1).trees, u.Filled order (order / 2) ((order - 1) / 2) := by
      intro u hu
      rw [hf.splice_trees, List.mem_append, List.mem_append] at hu
      rw [hf.trees_eq] at hkids
      rcases hu with (hu | hu) | hu
      · exact hkids u (by simp [hu])
      · rcases hloc with ⟨t', h₁, h₂⟩ | ⟨l, k, r, h₁, h₂, h₃⟩
        · rw [h₁, Chain.trees_one, List.mem_singleton] at hu
          exact hu ▸ h₂
        · rw [h₁, Chain.trees_cons, Chain.trees_one] at hu
          rcases List.mem_cons.mp hu with rfl | hu
          · exact h₂
          · exact List.mem_singleton.mp hu ▸ h₃
      · exact hkids u (by simp [hu])
    have hcount : c.keys.length ≤ (c.splice key g.1).keys.length ∧
        (c.splice key g.1).keys.length ≤ c.keys.length + 1 := by
      rw [hf.splice_keys, hf.keys_eq]
      rcases hloc with ⟨t', h₁, -⟩ | ⟨l, k, r, h₁, -, -⟩
      · simp [h₁]
      · simp [h₁]
        omega
    rw [insert_node, hg]
    rcases splitNode_cases hpos a (label g.2) (c.splice key g.1) with ⟨h', h⟩ | ⟨h', h⟩
    · exact .inl ⟨_, h, filled_node.mpr ⟨by omega, h', hnew⟩⟩
    · obtain ⟨l, k, r, hc, hl, h⟩ := h
      have hr : (c.splice key g.1).keys.length = l.keys.length + (r.keys.length + 1) := by
        simp [hc]
      rw [hc, Chain.trees_append] at hnew
      refine .inr ⟨_, _, _, h, filled_node.mpr ⟨by omega, by omega, fun u hu => ?_⟩,
        filled_node.mpr ⟨by omega, by omega, fun u hu => ?_⟩⟩
      · exact hnew u (by simp [hu])
      · exact hnew u (by simp [hu])

/-! ## Labels -/

/-- Insertion keeps the labels and adds fresh ones, consecutive from `n`. -/
theorem insert_addrs (horder : 0 < order) {h : Nat} (t : Tree A K V h) (n : Nat) :
    ∃ m, (t.insert order label key v n).2 = n + m ∧
      ((t.insert order label key v n).1.trees.flatMap addrs).Perm
        (t.addrs ++ (List.range' n m).map label) := by
  induction t using induction with
  | hleaf a es =>
    rw [insert_leaf]
    rcases splitLeaf_cases horder a (label n) (insertEntry key v es) with ⟨-, h⟩ | ⟨-, h⟩
    · exact ⟨0, by simp [h]⟩
    · obtain ⟨l, k, w, r, -, -, h⟩ := h
      exact ⟨1, by simp [h]⟩
  | hnode h a c ih =>
    obtain ⟨us, vs, before, after, hf⟩ := c.exists_focus key
    obtain ⟨m, hm, hperm⟩ := ih _ (c.locate_mem key)
    rw [insert_node]
    generalize (c.locate key).insert order label key v n = r at hm hperm ⊢
    obtain ⟨g, i⟩ := r
    obtain rfl : i = n + m := hm
    -- the labels of the other children stay, and those of the changed one grow
    have hsplice : ((c.splice key g).trees.flatMap addrs).Perm
        (c.trees.flatMap addrs ++ (List.range' n m).map label) := by
      rw [hf.splice_trees, hf.trees_eq]
      simp only [List.flatMap_append, List.flatMap_cons, List.append_assoc]
      refine List.Perm.append_left _ ?_
      refine (hperm.append_right _).trans ?_
      rw [List.append_assoc]
      exact List.Perm.append_left _ List.perm_append_comm
    rcases splitNode_cases horder a (label (n + m)) (c.splice key g) with ⟨-, h⟩ | ⟨-, h⟩
    · exact ⟨m, by simp [h], by simpa [h] using hsplice⟩
    · -- the new label is the one after those the subtree has taken
      obtain ⟨l, k, r, hc, -, h⟩ := h
      refine ⟨m + 1, by simp [h, Nat.add_assoc], ?_⟩
      rw [hc, Chain.trees_append, List.flatMap_append] at hsplice
      simp only [h, Chain.trees_cons, Chain.trees_one, List.flatMap_cons, List.flatMap_nil,
        addrs_node, List.append_nil, List.cons_append, List.range'_concat, List.map_append,
        List.map_cons, List.map_nil, Nat.one_mul]
      refine List.Perm.cons a ?_
      rw [← List.append_assoc]
      refine List.perm_middle.trans ?_
      exact (List.Perm.cons _ hsplice).trans (List.perm_append_singleton _ _).symm

/-- Labels are taken upwards. -/
theorem le_insert {h : Nat} (t : Tree A K V h) (n : Nat) : n ≤ (t.insert order label key v n).2 := by
  induction t using induction with
  | hleaf a es =>
    rw [insert_leaf]
    exact Nat.le_add_right _ _
  | hnode h a c ih =>
    rw [insert_node]
    exact (ih _ (c.locate_mem key)).trans (Nat.le_add_right _ _)

/-- Insertion takes at most one label on each level. -/
theorem insert_le (horder : 0 < order) {h : Nat} (t : Tree A K V h) (n : Nat) :
    (t.insert order label key v n).2 ≤ n + (h + 1) := by
  -- a level hands at most one new tree up, so each level takes at most one label
  have hkeys : ∀ {h : Nat} (t : Tree A K V h) (n : Nat),
      (t.insert order label key v n).1.keys.length ≤ 1 := by
    intro h t n
    rcases insert_cases horder t n with ⟨t', ht⟩ | ⟨l, k, r, ht⟩
    · rw [ht]
      exact Nat.zero_le 1
    · rw [ht]
      exact Nat.le_refl 1
  induction t using induction with
  | hleaf a es => exact Nat.add_le_add_left (hkeys (leaf a es) n) n
  | hnode h a c ih =>
    have hrec := ih _ (c.locate_mem key)
    have htop := hkeys (node a c) n
    rw [insert_node] at htop ⊢
    dsimp only at htop ⊢
    omega

/-- The leftmost of the replacing subtrees keeps the label of the subtree. -/
theorem insert_head_addr (horder : 0 < order) {h : Nat} (t : Tree A K V h) (n : Nat) :
    (t.insert order label key v n).1.head.addr = t.addr := by
  induction t using cases with
  | hleaf a es =>
    rw [insert_leaf]
    rcases splitLeaf_cases horder a (label n) (insertEntry key v es) with ⟨-, h⟩ | ⟨-, h⟩
    · simp [h, Chain.head]
    · obtain ⟨l, k, w, r, -, -, h⟩ := h
      simp only [h, Chain.head, addr_leaf]
  | hnode h a c =>
    rw [insert_node]
    generalize (c.locate key).insert order label key v n = r
    rcases splitNode_cases horder a (label r.2) (c.splice key r.1) with ⟨-, h⟩ | ⟨-, h⟩
    · simp [h, Chain.head]
    · obtain ⟨l, k, r, -, -, h⟩ := h
      simp only [h, Chain.head, addr_node]

/-- Insertion keeps the leftmost leaf where it is. -/
theorem insert_firstLeaf_addr (horder : 0 < order) {h : Nat} (t : Tree A K V h) (n : Nat) :
    (t.insert order label key v n).1.head.firstLeaf.addr = t.firstLeaf.addr := by
  induction t using induction with
  | hleaf a es =>
    rw [insert_leaf]
    rcases splitLeaf_cases horder a (label n) (insertEntry key v es) with ⟨-, h⟩ | ⟨-, h⟩
    · simp [h, Chain.head]
    · obtain ⟨l, k, w, r, -, -, h⟩ := h
      simp only [h, Chain.head, firstLeaf_leaf]
  | hnode h a c ih =>
    -- the first child is the changed one or stays, and either keeps its first leaf
    have hsplice : (c.splice key ((c.locate key).insert order label key v n).1).head.firstLeaf.addr
        = c.head.firstLeaf.addr := by
      rcases c.head_splice key ((c.locate key).insert order label key v n).1 with ⟨h₁, h₂⟩ | h₂
      · rw [h₂, ih _ (c.locate_mem key), h₁]
      · rw [h₂]
    rw [insert_node]
    generalize (c.locate key).insert order label key v n = r at hsplice ⊢
    rcases splitNode_cases horder a (label r.2) (c.splice key r.1) with ⟨-, h⟩ | ⟨-, h⟩
    · simpa [h, Chain.head] using hsplice
    · obtain ⟨l, k, r', hc, -, h⟩ := h
      rw [hc, Chain.head_append] at hsplice
      simpa only [h, Chain.head, firstLeaf_node] using hsplice

/-- A label after insertion is an old one or a fresh one. -/
theorem mem_addrs_insert (horder : 0 < order) {h : Nat} {t : Tree Nat K V h} {n a : Nat}
    (ha : a ∈ (t.insert order id key v n).1.trees.flatMap addrs) : a ∈ t.addrs ∨ n ≤ a := by
  obtain ⟨m, -, hperm⟩ : ∃ m, (t.insert order id key v n).2 = n + m ∧
      ((t.insert order id key v n).1.trees.flatMap addrs).Perm
        (t.addrs ++ (List.range' n m).map id) := t.insert_addrs horder n
  rcases List.mem_append.mp (hperm.mem_iff.mp ha) with ha | ha
  · exact .inl ha
  · simp only [List.map_id, List.mem_range'_1] at ha
    exact .inr ha.1

/-- Fresh labels keep the labels distinct. -/
theorem nodup_addrs_insert (horder : 0 < order) {h : Nat} {t : Tree Nat K V h}
    (ht : t.addrs.Nodup) {n : Nat} (hlt : ∀ a ∈ t.addrs, a < n) :
    ((t.insert order id key v n).1.trees.flatMap addrs).Nodup := by
  obtain ⟨m, -, hperm⟩ : ∃ m, (t.insert order id key v n).2 = n + m ∧
      ((t.insert order id key v n).1.trees.flatMap addrs).Perm
        (t.addrs ++ (List.range' n m).map id) := t.insert_addrs horder n
  refine hperm.nodup_iff.mpr (List.nodup_append.mpr ⟨ht, ?_, ?_⟩)
  · simpa using List.nodup_range'
  · intro a ha b hb
    have := hlt a ha
    simp only [List.map_id, List.mem_range'_1] at hb
    omega

end Insert

/-! ## Subtrees by position -/

/-- The subtree reached by a path of child indices. -/
def subtree : {h : Nat} → Tree A K V h → List Nat → Option ((h' : Nat) × Tree A K V h')
  | h, t, [] => some ⟨h, t⟩
  | 0, _, _ :: _ => none
  | _ + 1, t, i :: path => (Inner.kids t).trees[i]?.bind fun u => u.subtree path

@[simp] theorem subtree_nil {h : Nat} (t : Tree A K V h) : t.subtree [] = some ⟨h, t⟩ := by
  cases h <;> rfl

@[simp] theorem subtree_leaf_cons (a : A) (es : List (K × V)) (i : Nat) (path : List Nat) :
    (leaf a es).subtree (i :: path) = none := rfl

@[simp] theorem subtree_node_cons {h : Nat} (a : A) (c : Chain K (Tree A K V h)) (i : Nat)
    (path : List Nat) :
    (node a c).subtree (i :: path) = c.trees[i]?.bind fun u => u.subtree path := rfl

theorem subtree_append {h : Nat} (t : Tree A K V h) (path rest : List Nat) :
    t.subtree (path ++ rest) = (t.subtree path).bind fun u => u.2.subtree rest := by
  induction t using induction generalizing path with
  | hleaf a es => cases path <;> simp
  | hnode h a c ih =>
    cases path with
    | nil => simp
    | cons i path =>
      rw [List.cons_append, subtree_node_cons, subtree_node_cons]
      cases hv : c.trees[i]? with
      | none => rfl
      | some v => exact ih v (List.mem_of_getElem? hv) path

/-- What passes from a node to its children holds of every subtree. -/
theorem subtree_of_inherited {P : (h : Nat) → Tree A K V h → Prop}
    (hP : ∀ h a (c : Chain K (Tree A K V h)), P (h + 1) (node a c) → ∀ u ∈ c.trees, P h u)
    {h : Nat} {t : Tree A K V h} {path : List Nat} {u : (h' : Nat) × Tree A K V h'}
    (hu : t.subtree path = some u) (ht : P h t) : P u.1 u.2 := by
  -- the induction is on the tree, along the path: the property goes from a node to its children
  induction t using induction generalizing path with
  | hleaf a es =>
    cases path with
    | nil =>
      obtain rfl := Option.some.inj hu
      exact ht
    | cons i path => simp at hu
  | hnode h a c ih =>
    cases path with
    | nil =>
      obtain rfl := Option.some.inj hu
      exact ht
    | cons i path =>
      rw [subtree_node_cons, Option.bind_eq_some_iff] at hu
      obtain ⟨v, hv, hu⟩ := hu
      have hmem := List.mem_of_getElem? hv
      exact ih v hmem hu (hP h a c ht v hmem)

/-- A longer path leads to a lower subtree. -/
theorem subtree_height {h : Nat} {t : Tree A K V h} {path : List Nat}
    {u : (h' : Nat) × Tree A K V h'} (hu : t.subtree path = some u) : path.length + u.1 = h := by
  -- every step of the path goes down one level
  induction t using induction generalizing path with
  | hleaf a es =>
    cases path with
    | nil =>
      obtain rfl := Option.some.inj hu
      rfl
    | cons i path => simp at hu
  | hnode h a c ih =>
    cases path with
    | nil =>
      obtain rfl := Option.some.inj hu
      simp
    | cons i path =>
      rw [subtree_node_cons, Option.bind_eq_some_iff] at hu
      obtain ⟨v, hv, hu⟩ := hu
      have hheight := ih v (List.mem_of_getElem? hv) hu
      rw [List.length_cons]
      omega

/-- The labels and keys of a subtree are labels and keys of the tree. -/
theorem subtree_subset {h : Nat} {t : Tree A K V h} {path : List Nat}
    {u : (h' : Nat) × Tree A K V h'} (hu : t.subtree path = some u) :
    u.2.addrs ⊆ t.addrs ∧ u.2.allKeys ⊆ t.allKeys := by
  refine subtree_of_inherited (P := fun _ u => u.addrs ⊆ t.addrs ∧ u.allKeys ⊆ t.allKeys)
    (fun h a c hc u hmem => ⟨fun x hx => hc.1 ?_, fun x hx => hc.2 ?_⟩) hu
    ⟨List.Subset.refl _, List.Subset.refl _⟩
  · exact List.mem_cons_of_mem _ (List.mem_flatMap.mpr ⟨u, hmem, hx⟩)
  · exact List.mem_append_right _ (List.mem_flatMap.mpr ⟨u, hmem, hx⟩)

/-- With distinct labels, a label has one path. -/
theorem subtree_injective {h : Nat} {t : Tree A K V h} (ht : t.addrs.Nodup) {path path' : List Nat}
    {u u' : (h' : Nat) × Tree A K V h'} (hu : t.subtree path = some u)
    (hu' : t.subtree path' = some u') (haddr : u.2.addr = u'.2.addr) : path = path' := by
  induction t using induction generalizing path path' with
  | hleaf a es =>
    cases path <;> cases path' <;> simp_all
  | hnode h a c ih =>
    obtain ⟨hroot, hkids⟩ := List.nodup_cons.mp ht
    -- a subtree further down does not have the root's label
    have hbelow : ∀ {i : Nat} {rest : List Nat} {w : (h' : Nat) × Tree A K V h'},
        (node a c).subtree (i :: rest) = some w → w.2.addr ≠ a := by
      intro i rest w hw heq
      rw [subtree_node_cons, Option.bind_eq_some_iff] at hw
      obtain ⟨v, hv, hw⟩ := hw
      refine hroot (List.mem_flatMap.mpr ⟨v, List.mem_of_getElem? hv, ?_⟩)
      exact heq ▸ (subtree_subset hw).1 (addr_mem_addrs _)
    cases path with
    | nil =>
      obtain rfl := Option.some.inj hu
      cases path' with
      | nil => rfl
      | cons j rest' => exact absurd haddr.symm (hbelow hu')
    | cons i rest =>
      cases path' with
      | nil =>
        obtain rfl := Option.some.inj hu'
        exact absurd haddr (hbelow hu)
      | cons j rest' =>
        rw [subtree_node_cons, Option.bind_eq_some_iff] at hu hu'
        obtain ⟨v, hv, hu⟩ := hu
        obtain ⟨v', hv', hu'⟩ := hu'
        have hmem : u.2.addr ∈ v.addrs := (subtree_subset hu).1 (addr_mem_addrs _)
        have hmem' : u.2.addr ∈ v'.addrs := haddr ▸ (subtree_subset hu').1 (addr_mem_addrs _)
        obtain ⟨hnodup, hdisj⟩ := List.nodup_flatMap.mp hkids
        have hij : i = j := by
          obtain ⟨hi, rfl⟩ := List.getElem?_eq_some_iff.mp hv
          obtain ⟨hj, rfl⟩ := List.getElem?_eq_some_iff.mp hv'
          by_contra hne
          rcases Nat.lt_or_gt_of_ne hne with hlt | hlt
          · exact List.pairwise_iff_getElem.mp hdisj i j hi hj hlt hmem hmem'
          · exact List.pairwise_iff_getElem.mp hdisj j i hj hi hlt hmem' hmem
        subst hij
        obtain rfl := Option.some.inj (hv.symm.trans hv')
        have hmemv := List.mem_of_getElem? hv
        rw [ih v hmemv (hnodup v hmemv) hu hu']

end Tree

end SqlApi.Lib

import Mathlib.Order.WithBot

/-!
# Chains: subtrees with separators between them

An internal node of a search tree holds one more subtree than separator keys.
`Chain K T` is that alternation as a data type, so a node with a missing or a
surplus subtree cannot be written down:

`t₀ k₀ t₁ k₁ … tₙ`

- **Descent**: `locate` picks the subtree a key belongs to, the one after the
  last separator that is not above the key; `slot` is its index.
- **Update**: `splice` replaces that subtree by a chain, `cut` divides a chain
  at a separator.
- **Order**: `Between P lo hi` gives every subtree the interval its neighbours
  cut out.
-/

namespace SqlApi.Lib

/-- Subtrees `T` separated by keys `K`, at least one subtree. -/
inductive Chain (K T : Type) where
  /-- A single subtree. -/
  | one (t : T) : Chain K T
  /-- A subtree, the separator after it, and the rest. -/
  | cons (t : T) (k : K) (rest : Chain K T) : Chain K T

namespace Chain

variable {K T U : Type}

/-! ## Keys and subtrees -/

/-- The separators, left to right. -/
def keys : Chain K T → List K
  | .one _ => []
  | .cons _ k rest => k :: rest.keys

/-- The subtrees, left to right. -/
def trees : Chain K T → List T
  | .one t => [t]
  | .cons t _ rest => t :: rest.trees

/-- The leftmost subtree. -/
def head : Chain K T → T
  | .one t => t
  | .cons t _ _ => t

/-- Two chains side by side with a separator between them. -/
def append : Chain K T → K → Chain K T → Chain K T
  | .one t, k, d => .cons t k d
  | .cons t k' rest, k, d => .cons t k' (rest.append k d)

@[simp] theorem keys_one (t : T) : (Chain.one t : Chain K T).keys = [] := rfl

@[simp] theorem keys_cons (t : T) (k : K) (c : Chain K T) :
    (Chain.cons t k c).keys = k :: c.keys := rfl

@[simp] theorem trees_one (t : T) : (Chain.one t : Chain K T).trees = [t] := rfl

@[simp] theorem trees_cons (t : T) (k : K) (c : Chain K T) :
    (Chain.cons t k c).trees = t :: c.trees := rfl

@[simp] theorem keys_append (c : Chain K T) (k : K) (d : Chain K T) :
    (c.append k d).keys = c.keys ++ k :: d.keys := by
  induction c with
  | one t => rfl
  | cons t k' rest ih => simp [append, ih]

@[simp] theorem trees_append (c : Chain K T) (k : K) (d : Chain K T) :
    (c.append k d).trees = c.trees ++ d.trees := by
  induction c with
  | one t => rfl
  | cons t k' rest ih => simp [append, ih]

@[simp] theorem head_append (c : Chain K T) (k : K) (d : Chain K T) :
    (c.append k d).head = c.head := by
  cases c <;> rfl

/-- One more subtree than separators. -/
theorem length_trees (c : Chain K T) : c.trees.length = c.keys.length + 1 := by
  induction c with
  | one t => rfl
  | cons t k rest ih => simp [ih]

/-- The subtrees begin with the leftmost one. -/
theorem trees_eq_head_cons (c : Chain K T) : ∃ ts, c.trees = c.head :: ts := by
  cases c with
  | one t => exact ⟨[], rfl⟩
  | cons t k rest => exact ⟨rest.trees, rfl⟩

/-! ## Descent and update -/

section Search

variable [LT K] [DecidableLT K]

/-- The subtree a key belongs to. -/
def locate (key : K) : Chain K T → T
  | .one t => t
  | .cons t k rest => if key < k then t else rest.locate key

/-- The index of the subtree a key belongs to. -/
def slot (key : K) : Chain K T → Nat
  | .one _ => 0
  | .cons _ k rest => if key < k then 0 else rest.slot key + 1

/-- Replace the subtree a key belongs to by a chain. -/
def splice (key : K) : Chain K T → Chain K T → Chain K T
  | .one _, g => g
  | .cons t k rest, g => if key < k then g.append k rest else .cons t k (rest.splice key g)

/-- What surrounds the located subtree: the subtrees and separators before and
after it, which `splice` keeps. -/
structure Focus (key : K) (c : Chain K T) (pre post : List T) (before after : List K) : Prop where
  trees_eq : c.trees = pre ++ c.locate key :: post
  keys_eq : c.keys = before ++ after
  length_eq : pre.length = before.length
  slot_eq : c.slot key = pre.length
  below : ∀ k ∈ before, ¬ key < k
  above : ∀ k ∈ after.head?, key < k
  splice_trees : ∀ g : Chain K T, (c.splice key g).trees = pre ++ g.trees ++ post
  splice_keys : ∀ g : Chain K T, (c.splice key g).keys = before ++ g.keys ++ after

theorem Focus.one {key : K} (t : T) : Focus key (.one t) [] [] [] [] := by
  constructor <;> simp [locate, slot, splice]

/-- The first separator is above the key: the focus is the first subtree. -/
theorem Focus.here {key k : K} (t : T) (rest : Chain K T) (hk : key < k) :
    Focus key (.cons t k rest) [] rest.trees [] (k :: rest.keys) := by
  constructor <;> simp [locate, slot, splice, hk]

/-- The first separator is not above the key: the focus is further right. -/
theorem Focus.cons {key k : K} {t : T} {rest : Chain K T} {pre post : List T}
    {before after : List K} (hf : Focus key rest pre post before after) (hk : ¬ key < k) :
    Focus key (.cons t k rest) (t :: pre) post (k :: before) after where
  trees_eq := by simp [locate, hk, hf.trees_eq]
  keys_eq := by simp [hf.keys_eq]
  length_eq := by simp [hf.length_eq]
  slot_eq := by simp [slot, hk, hf.slot_eq]
  below := by simpa [hk] using hf.below
  above := hf.above
  splice_trees g := by simp [splice, hk, hf.splice_trees]
  splice_keys g := by simp [splice, hk, hf.splice_keys]

/-- Every key has a focus. -/
theorem exists_focus (key : K) (c : Chain K T) :
    ∃ pre post before after, Focus key c pre post before after := by
  induction c with
  | one t => exact ⟨[], [], [], [], .one t⟩
  | cons t k rest ih =>
    by_cases hk : key < k
    · exact ⟨[], rest.trees, [], k :: rest.keys, .here t rest hk⟩
    · obtain ⟨pre, post, before, after, hf⟩ := ih
      exact ⟨t :: pre, post, k :: before, after, hf.cons hk⟩

theorem locate_mem (key : K) (c : Chain K T) : c.locate key ∈ c.trees := by
  obtain ⟨pre, post, before, after, hf⟩ := exists_focus key c
  simp [hf.trees_eq]

/-- Splicing replaces the leftmost subtree or leaves it alone. -/
theorem head_splice (key : K) (c g : Chain K T) :
    (c.head = c.locate key ∧ (c.splice key g).head = g.head) ∨
      (c.splice key g).head = c.head := by
  cases c with
  | one t => exact .inl ⟨rfl, rfl⟩
  | cons t k rest =>
    by_cases hk : key < k
    · exact .inl ⟨by simp [head, locate, hk], by simp [splice, hk]⟩
    · exact .inr (by simp [head, splice, hk])

end Search

/-! ## Cutting -/

/-- Divide a chain at its `n`-th separator, which leaves the chain. -/
def cut : Nat → Chain K T → Option (Chain K T × K × Chain K T)
  | _, .one _ => none
  | 0, .cons t k rest => some (.one t, k, rest)
  | n + 1, .cons t k rest => (rest.cut n).map fun (l, k', r) => (.cons t k l, k', r)

theorem cut_eq_some {n : Nat} {c l r : Chain K T} {k : K} (hcut : c.cut n = some (l, k, r)) :
    c = l.append k r ∧ l.keys.length = n := by
  induction c generalizing n l k r with
  | one t => simp [cut] at hcut
  | cons t k' rest ih =>
    cases n with
    | zero =>
      simp only [cut, Option.some.injEq, Prod.mk.injEq] at hcut
      obtain ⟨rfl, rfl, rfl⟩ := hcut
      exact ⟨rfl, rfl⟩
    | succ n =>
      simp only [cut, Option.map_eq_some_iff, Prod.mk.injEq] at hcut
      obtain ⟨⟨l', k₁, r'⟩, hrest, rfl, rfl, rfl⟩ := hcut
      obtain ⟨rfl, hlen⟩ := ih hrest
      exact ⟨rfl, by simp [hlen]⟩

theorem cut_isSome {n : Nat} {c : Chain K T} (hn : n < c.keys.length) :
    ∃ l k r, c.cut n = some (l, k, r) := by
  induction c generalizing n with
  | one t => simp at hn
  | cons t k rest ih =>
    cases n with
    | zero => exact ⟨_, _, _, rfl⟩
    | succ n =>
      obtain ⟨l, k', r, hrest⟩ := ih (by simpa using hn)
      exact ⟨.cons t k l, k', r, by simp [cut, hrest]⟩

/-! ## Order -/

section Between

variable [LinearOrder K] {P Q : WithBot K → WithTop K → T → Prop} {lo : WithBot K}
  {hi : WithTop K} {key : K}

/-- The separators increase strictly inside `(lo, hi)`, and every subtree
satisfies `P` on the interval between its neighbouring separators. -/
def Between (P : WithBot K → WithTop K → T → Prop) :
    WithBot K → WithTop K → Chain K T → Prop
  | lo, hi, .one t => P lo hi t
  | lo, hi, .cons t k rest =>
    lo < (k : WithBot K) ∧ (k : WithTop K) < hi ∧ P lo k t ∧ rest.Between P k hi

theorem Between.mono (hPQ : ∀ a b, ∀ t, P a b t → Q a b t) {c : Chain K T}
    (h : c.Between P lo hi) : c.Between Q lo hi := by
  induction c generalizing lo with
  | one t => exact hPQ _ _ _ h
  | cons t k rest ih => exact ⟨h.1, h.2.1, hPQ _ _ _ h.2.2.1, ih h.2.2.2⟩

/-- The separators lie strictly inside the interval and increase strictly. -/
theorem Between.keys_sorted {c : Chain K T} (h : c.Between P lo hi) :
    c.keys.Pairwise (· < ·) ∧ ∀ k ∈ c.keys, lo < (k : WithBot K) ∧ (k : WithTop K) < hi := by
  induction c generalizing lo with
  | one t => simp
  | cons t k rest ih =>
    obtain ⟨hlo, hhi, -, hrest⟩ := h
    obtain ⟨hsorted, hin⟩ := ih hrest
    have habove : ∀ k' ∈ rest.keys, k < k' := fun k' hk' =>
      WithBot.coe_lt_coe.mp (hin k' hk').1
    refine ⟨List.pairwise_cons.mpr ⟨habove, hsorted⟩, ?_⟩
    intro k' hk'
    rcases List.mem_cons.mp hk' with rfl | hk'
    · exact ⟨hlo, hhi⟩
    · exact ⟨hlo.trans (hin k' hk').1, (hin k' hk').2⟩

/-- Each subtree satisfies `P` on some subinterval. -/
theorem Between.of_mem {c : Chain K T} (h : c.Between P lo hi) {t : T} (ht : t ∈ c.trees) :
    ∃ a b, lo ≤ a ∧ b ≤ hi ∧ P a b t := by
  induction c generalizing lo with
  | one u =>
    obtain rfl := List.mem_singleton.mp ht
    exact ⟨lo, hi, le_rfl, le_rfl, h⟩
  | cons u k rest ih =>
    obtain ⟨hlo, hhi, hu, hrest⟩ := h
    rcases List.mem_cons.mp ht with rfl | ht
    · exact ⟨lo, k, le_rfl, hhi.le, hu⟩
    · obtain ⟨a, b, ha, hb, hP⟩ := ih hrest ht
      exact ⟨a, b, hlo.le.trans ha, hb, hP⟩

/-- The `i`-th separator bounds the `i`-th subtree from above and the next one
from below. -/
theorem Between.of_getElem? {c : Chain K T} (h : c.Between P lo hi) {i : Nat} {k : K} {l r : T}
    (hk : c.keys[i]? = some k) (hl : c.trees[i]? = some l) (hr : c.trees[i + 1]? = some r) :
    (∃ a, lo ≤ a ∧ P a k l) ∧ ∃ b, b ≤ hi ∧ P k b r := by
  -- the induction is on the chain, towards the separator that is asked for
  induction c generalizing lo i with
  | one u => simp at hk
  | cons u k' rest ih =>
    obtain ⟨hlo, hhi, hu, hrest⟩ := h
    cases i with
    | zero =>
      simp only [keys_cons, List.getElem?_cons_zero, Option.some.injEq] at hk
      simp only [trees_cons, List.getElem?_cons_zero, Option.some.injEq] at hl
      subst hk hl
      refine ⟨⟨lo, le_rfl, hu⟩, ?_⟩
      cases rest with
      | one v =>
        simp only [trees_cons, trees_one, List.getElem?_cons_succ, List.getElem?_cons_zero,
          Option.some.injEq] at hr
        subst hr
        exact ⟨hi, le_rfl, hrest⟩
      | cons v k'' rest =>
        simp only [trees_cons, List.getElem?_cons_succ, List.getElem?_cons_zero,
          Option.some.injEq] at hr
        subst hr
        exact ⟨k'', hrest.2.1.le, hrest.2.2.1⟩
    | succ i =>
      obtain ⟨⟨a, ha, hPl⟩, hright⟩ := ih hrest (by simpa using hk) (by simpa using hl)
        (by simpa using hr)
      exact ⟨⟨a, hlo.le.trans ha, hPl⟩, hright⟩

/-- Two chains side by side are ordered exactly when each is on its side of the
separator. -/
theorem between_append {c d : Chain K T} {k : K} :
    (c.append k d).Between P lo hi ↔
      lo < (k : WithBot K) ∧ (k : WithTop K) < hi ∧ c.Between P lo k ∧ d.Between P k hi := by
  induction c generalizing lo with
  | one t => rfl
  | cons t k' rest ih =>
    simp only [append, Between, ih]
    constructor
    · rintro ⟨hlo, hhi, ht, hkk, hk, hrest, hd⟩
      exact ⟨hlo.trans hkk, hk, ⟨hlo, WithTop.coe_lt_coe.mpr (WithBot.coe_lt_coe.mp hkk), ht,
        hrest⟩, hd⟩
    · rintro ⟨-, hk, ⟨hlo, hkk, ht, hrest⟩, hd⟩
      exact ⟨hlo, hkk.trans hk, ht, WithBot.coe_lt_coe.mpr (WithTop.coe_lt_coe.mp hkk), hk,
        hrest, hd⟩

/-- Splicing keeps the order when the replacement fits the interval of the
subtree it replaces. -/
theorem Between.splice {c g : Chain K T} (h : c.Between P lo hi) (hlo : lo ≤ (key : WithBot K))
    (hhi : (key : WithTop K) < hi)
    (hg : ∀ a b, a ≤ (key : WithBot K) → (key : WithTop K) < b → P a b (c.locate key) →
      g.Between Q a b)
    (hPQ : ∀ a b, ∀ t, P a b t → Q a b t) : (c.splice key g).Between Q lo hi := by
  induction c generalizing lo with
  | one t => exact hg lo hi hlo hhi h
  | cons t k rest ih =>
    obtain ⟨hk, hk', ht, hrest⟩ := h
    by_cases hlt : key < k
    · simp only [Chain.splice, hlt, if_true]
      simp only [locate, hlt, if_true] at hg
      exact between_append.mpr ⟨hk, hk', hg lo k hlo (WithTop.coe_lt_coe.mpr hlt) ht,
        hrest.mono hPQ⟩
    · simp only [Chain.splice, hlt, if_false]
      simp only [locate, hlt, if_false] at hg
      exact ⟨hk, hk', hPQ _ _ _ ht, ih hrest (WithBot.coe_le_coe.mpr (not_lt.mp hlt)) hg⟩

/-- Subtrees to the right of a separator start at or above it. -/
theorem Between.of_mem_right {k : K} {c : Chain K T} (h : c.Between P k hi) {t : T}
    (ht : t ∈ c.trees) : ∃ x : K, ∃ y : WithTop K, k ≤ x ∧ y ≤ hi ∧ P x y t := by
  induction c generalizing k with
  | one u =>
    obtain rfl := List.mem_singleton.mp ht
    exact ⟨k, hi, le_rfl, le_rfl, h⟩
  | cons u k' rest ih =>
    obtain ⟨hlo, hhi, hu, hrest⟩ := h
    rcases List.mem_cons.mp ht with rfl | ht
    · exact ⟨k, k', le_rfl, hhi.le, hu⟩
    · obtain ⟨x, y, hx, hy, hP⟩ := ih hrest ht
      exact ⟨x, y, (WithBot.coe_lt_coe.mp hlo).le.trans hx, hy, hP⟩

/-- The interval of the located subtree contains the key; the subtrees before it
end at or below the key, those after it start above the key. -/
theorem Between.exists_focus {c : Chain K T} (h : c.Between P lo hi)
    (hlo : lo ≤ (key : WithBot K)) (hhi : (key : WithTop K) < hi) :
    ∃ pre post before after, Focus key c pre post before after ∧
      (∃ a b, lo ≤ a ∧ b ≤ hi ∧ a ≤ (key : WithBot K) ∧ (key : WithTop K) < b ∧
        P a b (c.locate key)) ∧
      (∀ t ∈ pre, ∃ x : WithBot K, ∃ y : K, P x y t ∧ y ≤ key) ∧
      (∀ t ∈ post, ∃ x : K, ∃ y : WithTop K, P x y t ∧ key < x) := by
  induction c generalizing lo with
  | one t =>
    exact ⟨[], [], [], [], .one t, ⟨lo, hi, le_rfl, le_rfl, hlo, hhi, h⟩, by simp, by simp⟩
  | cons t k rest ih =>
    obtain ⟨hk, hk', ht, hrest⟩ := h
    -- the key goes to the first child whose separator is above it
    by_cases hlt : key < k
    · refine ⟨[], rest.trees, [], k :: rest.keys, .here t rest hlt, ⟨lo, k, le_rfl, hk'.le, hlo,
        WithTop.coe_lt_coe.mpr hlt, by simpa [Chain.locate, hlt] using ht⟩, by simp, ?_⟩
      intro u hu
      obtain ⟨x, y, hx, -, hP⟩ := hrest.of_mem_right hu
      exact ⟨x, y, hP, hlt.trans_le hx⟩
    · have hle : k ≤ key := not_lt.mp hlt
      obtain ⟨pre, post, before, after, hf, ⟨a, b, ha, hb, ha', hb', hP⟩, hpre, hpost⟩ :=
        ih hrest (WithBot.coe_le_coe.mpr hle)
      refine ⟨t :: pre, post, k :: before, after, hf.cons hlt,
        ⟨a, b, hk.le.trans ha, hb, ha', hb', by simpa [Chain.locate, hlt] using hP⟩, ?_, hpost⟩
      intro u hu
      rcases List.mem_cons.mp hu with rfl | hu
      · exact ⟨lo, k, ht, hle⟩
      · exact hpre u hu

end Between

end Chain

end SqlApi.Lib

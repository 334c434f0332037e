import SqlApi.Core.RecordTypes
import SqlApi.Core.TableFailure

/-!
# The auto-increment counter

`table_insert` numbers a record with `table->next_id++` before the index is asked, and
nothing looks at the value. A run is a list of calls with whatever memory they get; the
counter moves in those that get their row array and their record, and fewer than
`2 ^ 31 - 1` of them is what an `int` has room for.

## How the proof goes

`CounterInv` relates the counter to the number of calls that have moved it. One call moves it by one
or leaves it, by what its memory granted; the run lemma adds the calls up. As long as the sum stays
below the bound the ids are 1, 2, 3 and so on. At the bound the increment overflows, which is
undefined behaviour in C; the model goes on with the wrapped value to say what a compiler does.
-/

namespace SqlApi.Core

open SqlApi.Lib

/-! ## Runs -/

/-- One call of a run, with the memory before and after it. -/
structure InsertStep where
  before : Memory
  call : InsertCall
  result : Option RecPtr
  after : Memory

/-- Calls of `table_insert` one after another, from `table_create` on. -/
inductive InsertRun : List InsertStep → Memory → Prop
  | create : InsertRun [] tableCreate
  | insert {t : List InsertStep} {m m' : Memory} (call : InsertCall) (result : Option RecPtr) :
      InsertRun t m → call.run m = some (result, m') →
      InsertRun (t ++ [⟨m, call, result, m'⟩]) m'

/-- The id of the record a call returns. -/
def InsertStep.id? (s : InsertStep) : Option Int :=
  s.result.bind fun p => (s.after.record? p).map Record.id

/-- The ids given out in a run. -/
def insertedIds (t : List InsertStep) : List Int := t.filterMap InsertStep.id?

instance (m : Memory) (k : Nat) : Decidable (m.Granted k) :=
  inferInstanceAs (Decidable (∀ ok ∈ m.allocs.take k, ok = true))

/-- The call gets memory for the row array and for the record, so it comes to
`table->next_id++`. -/
def InsertStep.Counts (s : InsertStep) : Prop :=
  (s.call.start s.before).Granted ((s.call.start s.before).rowAllocs + 1)

instance (s : InsertStep) : Decidable s.Counts :=
  inferInstanceAs (Decidable ((s.call.start s.before).Granted _))

/-- How often a run increments the counter. -/
def increments (t : List InsertStep) : Nat := t.countP fun s => decide s.Counts

/-! ## What is expected of the counter -/

/-- No `int` is greater than all of these. -/
def NoFreshId (ids : List Int) : Prop := ∀ x, IsInt x → ∃ id ∈ ids, x ≤ id

/-- The counter, the rows and the index are as before. -/
structure LeftAlone (m m' : Memory) : Prop where
  nextId : m'.table.nextId = m.table.nextId
  size : m'.table.size = m.table.size
  rows : m'.table.rows.take m.table.size = m.table.rows.take m.table.size
  records : ∀ p, some p ∈ m.table.rows.take m.table.size → m'.record? p = m.record? p
  nodes : m'.nodes = m.nodes
  root : m'.root = m.root

/-- Ids ascend, the counter stays an `int`, and a call for which there is no id left is
refused without a trace. -/
structure NeverOverflows (t : List InsertStep) : Prop where
  ascending : (insertedIds t).Pairwise (· < ·)
  inRange : ∀ s ∈ t, s.Counts → IsInt (s.before.table.nextId + 1)
  refused : ∀ earlier s later, t = earlier ++ s :: later → NoFreshId (insertedIds earlier) →
    s.result = none ∧ LeftAlone s.before s.after

/-! ## One call -/

section Call

variable {m m' : Memory} {name : List UInt8} {age : Int} {result : Option RecPtr}

/-- `table_ensure_capacity` always returns, and keeps the counter. -/
theorem run_tableEnsureCapacity_eq (m : Memory) : ∃ m',
    tableEnsureCapacity.run m = some (decide (m.Granted m.rowAllocs), m') ∧
      m'.table.nextId = m.table.nextId ∧ m'.allocs = m.allocs.drop m.rowAllocs := by
  unfold tableEnsureCapacity
  rw [run_bind_of (run_getTable m)]
  by_cases hroom : m.table.size < m.table.capacity
  · have hzero : m.rowAllocs = 0 := if_pos hroom
    have hgranted : m.Granted 0 := nofun
    rw [if_pos hroom, hzero, decide_eq_true hgranted]
    exact ⟨m, rfl, rfl, rfl⟩
  · have hone : m.rowAllocs = 1 := if_neg hroom
    rw [if_neg hroom, hone]
    -- the array has to grow, and one allocation decides
    by_cases hgranted : m.Granted 1
    · have hmalloc : malloc.run m = some (true, { m with allocs := m.allocs.drop 1 }) := by
        rw [run_malloc, Memory.Granted.takeAlloc hgranted]
      rw [run_bind_of hmalloc, if_pos rfl, run_bind_of (run_setTable _ _),
        decide_eq_true hgranted]
      exact ⟨_, rfl, rfl, rfl⟩
    · have hhead : m.allocs[0]? = some false := by
        by_contra hne
        exact hgranted (Memory.granted_succ_iff.mpr ⟨nofun, hne⟩)
      have hmalloc : malloc.run m = some (false, { m with allocs := m.allocs.drop 1 }) := by
        rw [run_malloc, Memory.takeAlloc_of_head hhead]
      rw [run_bind_of hmalloc, if_neg Bool.false_ne_true, decide_eq_false hgranted]
      exact ⟨_, rfl, rfl, rfl⟩

/-- A call that comes to `table->next_id++`, whatever state the index is in: the counter
moves on, and a record that is returned has the old value. -/
theorem tableInsert_counts (hgranted : m.Granted (m.rowAllocs + 1))
    (hrun : (tableInsert name age).run m = some (result, m')) :
    m'.table.nextId = wrapInt (m.table.nextId + 1) ∧
      ∀ p, result = some p → m'.record? p = some (newRecord m.table.nextId name age) := by
  obtain ⟨m₁, hcapacity, hnext, hallocs⟩ := run_tableEnsureCapacity_eq m
  have hrows : m.Granted m.rowAllocs := hgranted.mono (Nat.le_succ _)
  have hcalloc : callocRecord.run m₁ = some (some m₁.records.length,
      { m₁ with allocs := m₁.allocs.drop 1, records := m₁.records ++ [some .zero] }) := by
    rw [run_callocRecord, Memory.Granted.takeAlloc (hgranted.drop hallocs)]
  unfold tableInsert at hrun
  rw [run_bind_of hcapacity, if_pos (decide_eq_true hrows), run_bind_of hcalloc] at hrun
  dsimp only at hrun
  rw [run_bind_of (run_getTable _), run_bind_of (run_setTable _ _)] at hrun
  have hset (r : Record) : (m₁.records ++ [some Record.zero]).set m₁.records.length
      (some r) = m₁.records ++ [some r] := by
    rw [List.set_append_right _ _ le_rfl]
    simp
  have hlast (r : Record) : (m₁.records ++ [some r])[m₁.records.length]?.join = some r := by simp
  -- the record is filled in with the old value of the counter
  have hwrite (table : Table) (allocs : List Bool) (r : Record) :
      (setRecord m₁.records.length r).run
        ⟨m₁.nodes, m₁.root, m₁.records ++ [some .zero], table, allocs⟩ =
      some ((), ⟨m₁.nodes, m₁.root, m₁.records ++ [some r], table, allocs⟩) := by
    rw [run_setRecord, if_pos (by simp [Memory.record?]), hset]
  rw [run_bind_of (hwrite _ _ _), run_bind_of (run_getTable _)] at hrun
  split at hrun
  case isFalse => cases hrun
  case isTrue =>
    rw [run_bind_of (run_setTable _ _), Prog.run, Program.run_bind,
      Option.bind_eq_some_iff] at hrun
    obtain ⟨⟨inserted, m₂⟩, hinsert, hrest⟩ := hrun
    -- the index keeps off the table and the records
    obtain ⟨htable, hrecords⟩ := (onIndex_bptreeInsert _ _).run hinsert
    rw [← hnext]
    cases inserted with
    | true =>
      obtain ⟨rfl, rfl⟩ := Prod.mk.inj (Option.some.inj hrest)
      refine ⟨congrArg Table.nextId htable, fun p hp => ?_⟩
      obtain rfl := Option.some.inj hp
      change m₂.records[_]?.join = _
      rw [hrecords]
      exact hlast _
    | false =>
      -- the index refuses the row: the record is freed, the counter stays where it is
      have hlive : (m₂.record? m₁.records.length).isSome = true := by
        rw [Memory.record?, hrecords, hlast]
        rfl
      have hfree : (freeRecord m₁.records.length).run m₂ = some ((),
          { m₂ with records := m₂.records.set m₁.records.length none }) := by
        rw [run_freeRecord, if_pos hlive]
      change Prog.run (freeRecord _ >>= _) m₂ = _ at hrest
      rw [run_bind_of hfree] at hrest
      obtain ⟨rfl, rfl⟩ := Prod.mk.inj (Option.some.inj hrest)
      refine ⟨congrArg Table.nextId htable, ?_⟩
      rintro p ⟨⟩

/-- A call that does not come so far. -/
theorem tableInsert_noMemory (hrefused : ¬ m.Granted (m.rowAllocs + 1))
    (hrun : (tableInsert name age).run m = some (result, m')) :
    m'.table.nextId = m.table.nextId ∧ result = none := by
  obtain ⟨m₁, hcapacity, hnext, hallocs⟩ := run_tableEnsureCapacity_eq m
  unfold tableInsert at hrun
  rw [run_bind_of hcapacity] at hrun
  by_cases hrows : m.Granted m.rowAllocs
  · -- it is the record that there is no memory for
    have hhead : m₁.allocs[0]? = some false := by
      by_contra hne
      refine hrefused (Memory.granted_succ_iff.mpr ⟨hrows, ?_⟩)
      rwa [hallocs, List.getElem?_drop] at hne
    have hcalloc : callocRecord.run m₁ = some (none, { m₁ with allocs := m₁.allocs.drop 1 }) := by
      rw [run_callocRecord, Memory.takeAlloc_of_head hhead]
    rw [if_pos (decide_eq_true hrows), run_bind_of hcalloc] at hrun
    obtain ⟨rfl, rfl⟩ := Prod.mk.inj (Option.some.inj hrun)
    exact ⟨hnext, rfl⟩
  · rw [if_neg (by simpa using hrows)] at hrun
    obtain ⟨rfl, rfl⟩ := Prod.mk.inj (Option.some.inj hrun)
    exact ⟨hnext, rfl⟩

/-- The same of a call with its own memory. -/
theorem InsertCall.run_counter {call : InsertCall} (hrun : call.run m = some (result, m')) :
    (InsertStep.mk m call result m').Counts ∧ m'.table.nextId = wrapInt (m.table.nextId + 1) ∧
      (∀ id, (InsertStep.mk m call result m').id? = some id → id = m.table.nextId) ∨
    ¬ (InsertStep.mk m call result m').Counts ∧ m'.table.nextId = m.table.nextId ∧
      (InsertStep.mk m call result m').id? = none := by
  obtain ⟨⟨result', m₁⟩, hinsert, heq⟩ := Option.map_eq_some_iff.mp hrun
  obtain ⟨rfl, rfl⟩ := Prod.mk.inj heq
  by_cases hgranted : (call.start m).Granted ((call.start m).rowAllocs + 1)
  · obtain ⟨hnext, hrecord⟩ := tableInsert_counts hgranted hinsert
    refine .inl ⟨hgranted, hnext, fun id hid => ?_⟩
    obtain ⟨p, hp, hid⟩ := Option.bind_eq_some_iff.mp hid
    obtain ⟨r, hr, rfl⟩ := Option.map_eq_some_iff.mp hid
    obtain rfl := Option.some.inj ((hrecord p hp).symm.trans hr)
    rfl
  · obtain ⟨hnext, rfl⟩ := tableInsert_noMemory hgranted hinsert
    exact .inr ⟨hgranted, hnext, rfl⟩

end Call

/-! ## Runs of calls -/

section Runs

variable {t : List InsertStep} {s : InsertStep} {m : Memory}

theorem insertedIds_append (t : List InsertStep) (s : InsertStep) :
    insertedIds (t ++ [s]) = insertedIds t ++ s.id?.toList := by
  cases h : s.id? <;> simp [insertedIds, h]

theorem increments_append (t : List InsertStep) (s : InsertStep) :
    increments (t ++ [s]) = increments t + if s.Counts then 1 else 0 := by
  by_cases h : s.Counts <;> simp [increments, h]

/-- While there is room the counter is one more than the number of increments, which no id
passes. -/
structure CounterInv (t : List InsertStep) (m : Memory) : Prop where
  nextId : m.table.nextId = increments t + 1
  ids : ∀ id ∈ insertedIds t, id ≤ increments t
  ascending : (insertedIds t).Pairwise (· < ·)
  inRange : ∀ s ∈ t, s.Counts → IsInt (s.before.table.nextId + 1)

/-- A call keeps the invariant, unless it is the one increment too many. -/
theorem CounterInv.step (h : CounterInv t m) {call : InsertCall} {result : Option RecPtr}
    {m' : Memory} (hrun : call.run m = some (result, m'))
    (hroom : increments (t ++ [⟨m, call, result, m'⟩]) < 2 ^ 31 - 1) :
    CounterInv (t ++ [⟨m, call, result, m'⟩]) m' := by
  rw [increments_append] at hroom
  have hnow := h.nextId
  rcases InsertCall.run_counter hrun with ⟨hcounts, hnext, hid⟩ | ⟨hquiet, hnext, hid⟩
  · -- the id that is given out is the counter, which is greater than all before
    rw [if_pos hcounts] at hroom
    have hint : IsInt (m.table.nextId + 1) := by
      rw [hnow]
      exact ⟨by omega, by omega⟩
    have hnew : ∀ id ∈ (InsertStep.mk m call result m').id?.toList, id = m.table.nextId :=
      fun id hmem => hid id (Option.mem_toList.mp hmem)
    refine {
      nextId := ?_
      ids := fun id hmem => ?_
      ascending := ?_
      inRange := fun s hs hcounts' => ?_ }
    · -- there is room for one id more, so the counter does not wrap around
      rw [hnext, wrapInt_eq_self hint.1 hint.2, hnow, increments_append, if_pos hcounts]
      push_cast
      rfl
    · rw [increments_append, if_pos hcounts]
      rw [insertedIds_append] at hmem
      rcases List.mem_append.mp hmem with hmem | hmem
      · have hle := h.ids id hmem
        push_cast
        omega
      · rw [hnew id hmem, hnow]
        push_cast
        omega
    · -- the new id is greater than the earlier ones
      rw [insertedIds_append]
      refine List.pairwise_append.mpr ⟨h.ascending, ?_, fun id hmem id' hmem' => ?_⟩
      · cases (InsertStep.mk m call result m').id? with
        | none => exact List.Pairwise.nil
        | some id => exact List.pairwise_singleton _ _
      · have hle := h.ids id hmem
        rw [hnew id' hmem', hnow]
        omega
    · rcases List.mem_append.mp hs with hs | hs
      · exact h.inRange s hs hcounts'
      · rw [List.mem_singleton.mp hs]
        exact hint
  · -- nothing is given out and nothing moves
    rw [if_neg hquiet] at hroom
    have hsame : increments (t ++ [⟨m, call, result, m'⟩]) = increments t := by
      rw [increments_append, if_neg hquiet, Nat.add_zero]
    have hids : insertedIds (t ++ [⟨m, call, result, m'⟩]) = insertedIds t := by
      rw [insertedIds_append, hid]
      exact List.append_nil _
    refine {
      nextId := by rw [hnext, hnow, hsame]
      ids := by
        rw [hsame, hids]
        exact h.ids
      ascending := hids ▸ h.ascending
      inRange := fun s hs hcounts' => ?_ }
    rcases List.mem_append.mp hs with hs | hs
    · exact h.inRange s hs hcounts'
    · rw [List.mem_singleton.mp hs] at hcounts'
      exact absurd hcounts' hquiet

/-- So a run with room for all its increments keeps it. -/
theorem InsertRun.counter (h : InsertRun t m) (hroom : increments t < 2 ^ 31 - 1) :
    CounterInv t m := by
  induction h with
  | create => exact ⟨rfl, nofun, List.Pairwise.nil, nofun⟩
  | @insert t m m' call result _ hrun ih =>
    have hstep := increments_append t ⟨m, call, result, m'⟩
    exact (ih (by omega)).step hrun hroom

/-- In a run without room the counter leaves the range of `int`. -/
theorem InsertRun.overflows (h : InsertRun t m) (hfull : 2 ^ 31 - 1 ≤ increments t) :
    ∃ s ∈ t, s.Counts ∧ s.before.table.nextId = 2 ^ 31 - 1 := by
  induction h with
  | create => exact absurd hfull (by decide)
  | @insert t m m' call result ht hrun ih =>
    by_cases hroom : increments t < 2 ^ 31 - 1
    · -- this call is the first without room
      rw [increments_append] at hfull
      split at hfull
      next hcounts =>
        refine ⟨_, List.mem_append_right _ (List.mem_singleton_self _), hcounts, ?_⟩
        have hnow := (ht.counter hroom).nextId
        change m.table.nextId = 2 ^ 31 - 1
        omega
      next => omega
    · -- an earlier call was
      obtain ⟨s, hs, hover⟩ := ih (not_lt.mp hroom)
      exact ⟨s, List.mem_append_left _ hs, hover⟩

/-- The counter of a run never overflows if and only if fewer than `2 ^ 31 - 1` of its calls
get memory for the row array and the record. -/
theorem tableInsert_counter_iff (h : InsertRun t m) :
    NeverOverflows t ↔ increments t < 2 ^ 31 - 1 := by
  constructor
  · intro hnever
    by_contra hfull
    obtain ⟨s, hs, hcounts, hnext⟩ := h.overflows (not_lt.mp hfull)
    have hint := hnever.inRange s hs hcounts
    rw [hnext] at hint
    exact absurd hint.2 (by decide)
  · intro hroom
    have hinv := h.counter hroom
    refine ⟨hinv.ascending, hinv.inRange, fun earlier s later hsplit hnone => ?_⟩
    -- the greatest `int` has not been given out
    obtain ⟨id, hid, hle⟩ := hnone (2 ^ 31 - 1) ⟨by decide, by decide⟩
    have hmem : id ∈ insertedIds t := by
      rw [hsplit, insertedIds, List.filterMap_append]
      exact List.mem_append_left _ hid
    have hbound := hinv.ids id hmem
    omega

/-- A row, and a call that is refused its record. -/
theorem tableInsert_counter_iff_two : ∃ t m, InsertRun t m ∧
    t.map InsertStep.call = [⟨bytes "Ann", 30, []⟩, ⟨bytes "Bob", 25, [false]⟩] ∧
    (NeverOverflows t ↔ increments t < 2 ^ 31 - 1) := by
  have hone := InsertRun.create.insert ⟨bytes "Ann", 30, []⟩ (some 0) (by rfl)
  have htwo := hone.insert ⟨bytes "Bob", 25, [false]⟩ none (by rfl)
  exact ⟨_, _, htwo, rfl, tableInsert_counter_iff htwo⟩

/-- With memory for everything there are runs of any length up to `2 ^ 32`, in which every
call counts. -/
theorem exists_insertRun (name : List UInt8) (age : Int) {n : Nat} (hn : n ≤ 2 ^ 32) :
    ∃ t m rows, InsertRun t m ∧ t.map InsertStep.call = List.replicate n ⟨name, age, []⟩ ∧
      increments t = n ∧ m.NoFailure ∧ TableInv m rows ∧ Numbered m rows ∧ rows.length = n := by
  induction n with
  | zero =>
    exact ⟨[], tableCreate, [], .create, rfl, rfl, rfl, tableCreate_inv, tableCreate_numbered, rfl⟩
  | succ n ih =>
    obtain ⟨t, m, rows, ht, hcalls, hcount, hok, hm, hnumbered, hlength⟩ := ih (by omega)
    set call : InsertCall := ⟨name, age, []⟩ with hcall
    have hroom : rows.length < 2 ^ 32 := by omega
    -- with no failure ahead the call appends one row
    obtain ⟨m', hrun, hm', hnumbered'⟩ :=
      (hm.withAllocs []).run_tableInsert_numbered (hnumbered.congr rfl) rfl hroom name age
    have hinsert : call.run m = some (some m.records.length, { m' with allocs := [] }) := by
      have hstart : (tableInsert call.name call.age).run (call.start m) =
          some (some m.records.length, m') := hrun
      rw [InsertCall.run, hstart]
      rfl
    have hcounts : (InsertStep.mk m call (some m.records.length)
        { m' with allocs := [] }).Counts := by
      rintro ok ⟨⟩
    refine ⟨_, _, _, ht.insert call _ hinsert, ?_, ?_, rfl, hm'.withAllocs [],
      hnumbered'.congr rfl, ?_⟩
    · rw [List.map_append, hcalls, List.replicate_succ']
      rfl
    · rw [increments_append, if_pos hcounts, hcount]
    · rw [List.length_append, hlength]
      rfl

/-- With `2 ^ 31 - 1` rows the counter has left the range of `int`: the next id is the least
`int`, not the greatest so far. -/
theorem tableInsert_counter_wraps : ∃ t m, InsertRun t m ∧
    t.map InsertStep.call = List.replicate (2 ^ 31 - 1) ⟨bytes "Ann", 30, []⟩ ∧
    m.table.nextId = -2 ^ 31 ∧ ¬ NeverOverflows t := by
  obtain ⟨t, m, rows, ht, hcalls, hcount, -, -, hnumbered, hlength⟩ :=
    exists_insertRun (bytes "Ann") 30 (show 2 ^ 31 - 1 ≤ 2 ^ 32 by decide)
  refine ⟨t, m, ht, hcalls, ?_, fun hnever => ?_⟩
  · rw [hnumbered.next (by omega), hlength]
    rfl
  · obtain ⟨s, hs, hcounts, hnext⟩ := ht.overflows hcount.ge
    have hint := hnever.inRange s hs hcounts
    rw [hnext] at hint
    exact absurd hint.2 (by decide)

end Runs

end SqlApi.Core

import SqlApi.Core.RecordFrame
import SqlApi.Core.SqlGrammar

/-!
# Values of the C types

The numbers in a table are values of type `int`, and the name of a record is an array of
`RECORD_NAME_SIZE` bytes. Every operation of every statement keeps it so.

Typed memory is an invariant of the operations, not of the runs: a program that writes only typed
records (`Prog.Typed`) keeps it at every single step.
-/

namespace SqlApi.Core

open SqlApi.Lib

/-- The fields of a record are values of their types. -/
structure Record.Typed (r : Record) : Prop where
  id : IsInt r.id
  age : IsInt r.age
  name : r.name.length = recordNameSize

/-- So are those of all records, and `next_id`. -/
structure Memory.Typed (m : Memory) : Prop where
  nextId : IsInt m.table.nextId
  records : ∀ p r, m.record? p = some r → r.Typed

/-- The fields of a row are values of their types. -/
structure Row.Typed (row : Row) : Prop where
  id : IsInt row.id
  age : IsInt row.age
  name : row.name.length ≤ recordNameSize

/-- The row of a record has its values; the name ends at a NUL or fills its field. -/
theorem Record.Typed.row {r : Record} (h : r.Typed) : r.row.Typed :=
  ⟨h.id, h.age, (List.takeWhile_prefix _).length_le.trans_eq h.name⟩

/-- The operation writes such values only. -/
def Op.Typed : Op → Prop
  | .setRecord _ r => r.Typed
  | .setTable table => IsInt table.nextId
  | _ => True

/-- What is read from such a table. -/
def Op.ReadsTyped : (o : Op) → Op.Ans o → Prop
  | .getTable, table => IsInt table.nextId
  | _, _ => True

/-- Code that computes with values of the C types. -/
abbrev Prog.Typed {α : Type} (p : Prog α) : Prop :=
  Program.Obeys Op.Typed Op.ReadsTyped (fun _ => True) p

private theorem typed_zero : Record.zero.Typed := by
  refine ⟨?_, ?_, List.length_replicate⟩
  all_goals exact ⟨by decide, by decide⟩

/-- A new table gives out 1 first and has no record. -/
theorem tableCreate_typed : tableCreate.Typed :=
  ⟨⟨by decide, by decide⟩, nofun⟩

/-- An operation that writes such values leaves such a memory. -/
theorem exec_of_typed {o : Op} {m : Memory} {r : Op.Ans o × Memory} (ho : o.Typed)
    (hm : m.Typed) (hr : exec o m = some r) : r.2.Typed ∧ o.ReadsTyped r.1 := by
  have hsame (m' : Memory) (htable : m'.table.nextId = m.table.nextId)
      (hrecords : m'.records = m.records) : m'.Typed := by
    refine ⟨htable ▸ hm.nextId, fun p r hp => hm.records p r ?_⟩
    rwa [Memory.record?, hrecords] at hp
  have halloc := m.takeAlloc_snd
  -- only the operations on records and on the table can write such a value
  cases o with
  | setRecord p record =>
    simp only [exec, Option.ite_none_right_eq_some, Option.some.injEq] at hr
    obtain ⟨-, rfl⟩ := hr
    -- the written record is the one the program promises to be typed
    refine ⟨⟨hm.nextId, fun q r' hq => ?_⟩, trivial⟩
    rw [Memory.record?, List.getElem?_set] at hq
    split at hq
    · split at hq
      · obtain rfl : record = r' := by simpa using hq
        exact ho
      · cases hq
    · exact hm.records q r' hq
  | freeRecord p =>
    simp only [exec, Option.ite_none_right_eq_some, Option.some.injEq] at hr
    obtain ⟨-, rfl⟩ := hr
    refine ⟨⟨hm.nextId, fun q r' hq => ?_⟩, trivial⟩
    rw [Memory.record?, List.getElem?_set] at hq
    split at hq
    · split at hq <;> cases hq
    · exact hm.records q r' hq
  | callocRecord =>
    simp only [exec] at hr
    split at hr
    next m' heq =>
      obtain rfl : m' = { m with allocs := m.allocs.drop 1 } := by rw [← halloc, heq]
      obtain rfl := Option.some.inj hr
      -- `calloc` fills the new record with zeros
      refine ⟨⟨hm.nextId, fun q r' hq => ?_⟩, trivial⟩
      rw [Memory.record?, List.getElem?_append] at hq
      split at hq
      · exact hm.records q r' hq
      · rw [List.getElem?_singleton] at hq
        split at hq
        · obtain rfl : Record.zero = r' := by simpa using hq
          exact typed_zero
        · cases hq
    next m' heq =>
      obtain rfl : m' = { m with allocs := m.allocs.drop 1 } := by rw [← halloc, heq]
      obtain rfl := Option.some.inj hr
      exact ⟨hsame _ rfl rfl, trivial⟩
  | callocNode =>
    simp only [exec] at hr
    split at hr
    all_goals
      next m' heq =>
        obtain rfl : m' = { m with allocs := m.allocs.drop 1 } := by rw [← halloc, heq]
        obtain rfl := Option.some.inj hr
        exact ⟨hsame _ rfl rfl, trivial⟩
  | malloc =>
    obtain rfl := Option.some.inj hr
    exact ⟨hsame _ (by rw [halloc]) (by rw [halloc]), trivial⟩
  | getTable =>
    obtain rfl := Option.some.inj hr
    exact ⟨hm, hm.nextId⟩
  | setTable table =>
    obtain rfl := Option.some.inj hr
    exact ⟨⟨ho, hm.records⟩, trivial⟩
  | getNode p =>
    obtain ⟨node, -, rfl⟩ := Option.map_eq_some_iff.mp hr
    exact ⟨hm, trivial⟩
  | getRecord p =>
    obtain ⟨record, -, rfl⟩ := Option.map_eq_some_iff.mp hr
    exact ⟨hm, trivial⟩
  | setNode p node =>
    simp only [exec, Option.ite_none_right_eq_some, Option.some.injEq] at hr
    obtain ⟨-, rfl⟩ := hr
    exact ⟨hsame _ rfl rfl, trivial⟩
  | undefined => cases hr
  | countNodes | getRoot | setRoot _ =>
    obtain rfl := Option.some.inj hr
    exact ⟨hsame _ rfl rfl, trivial⟩

section Typed

variable {α β : Type} {p p' : Prog α} {m m' : Memory} {a : α}

/-- One operation of such a program. -/
theorem Prog.Typed.step (hp : p.Typed) (hm : m.Typed) (hstep : p.step exec m = some (p', m')) :
    p'.Typed ∧ m'.Typed := by
  obtain ⟨o, r, ho, hr, rfl, hrest⟩ := Program.Obeys.step hp hstep
  obtain ⟨hm', hanswer⟩ := exec_of_typed ho hm hr
  exact ⟨hrest hanswer, hm'⟩

/-- All of them: what is stored stays within the types of the fields. -/
theorem Prog.Typed.run (hp : p.Typed) (hm : m.Typed) (hrun : p.run m = some (a, m')) :
    m'.Typed :=
  (Program.Obeys.run (I := Memory.Typed) hp (fun _ _ _ ho hm hr => exec_of_typed ho hm hr) hm
    hrun).1

/-- What works on the index writes no record, and what only reads writes nothing. -/
theorem Prog.OnIndex.typed (hp : p.OnIndex) : p.Typed :=
  hp.obeys fun o ho => by cases o <;> trivial

theorem Prog.ReadOnly.typed (hp : p.ReadOnly) : p.Typed :=
  hp.obeys fun o ho => by cases o <;> trivial

private theorem Prog.Typed.andThen {f : α → Prog β} (hp : p.Typed) (hf : ∀ a, (f a).Typed) :
    Prog.Typed (p >>= f) := hp.bind fun a _ => hf a

private theorem typed_pure (a : α) : Prog.Typed (pure a) := Program.obeys_pure trivial

private theorem typed_setTable {table : Table} (htable : IsInt table.nextId) :
    (setTable table).Typed := ⟨htable, fun _ _ => trivial⟩

/-- Code that goes on with the table. -/
private theorem typed_getTable {f : Table → Prog β}
    (hf : ∀ table, IsInt table.nextId → (f table).Typed) : Prog.Typed (getTable >>= f) :=
  Program.Obeys.bind (Program.obeys_perform trivial) hf

theorem typed_tableEnsureCapacity : tableEnsureCapacity.Typed := by
  refine typed_getTable fun table htable => ?_
  split
  · exact typed_pure _
  · refine readOnly_malloc.typed.andThen fun ok => ?_
    cases ok with
    | true => exact (typed_setTable htable).andThen fun _ => typed_pure _
    | false => exact typed_pure _

/-- A new record is typed if its two numbers are. -/
theorem typed_newRecord {id age : Int} (hid : IsInt id) (hage : IsInt age) (name : List UInt8) :
    (newRecord id name age).Typed := by
  refine ⟨hid, hage, ?_⟩
  change (strncpy name (recordNameSize - 1) ++ [0]).length = recordNameSize
  rw [List.length_append, length_strncpy]
  rfl

/-- The age comes from the caller, the id from the counter. -/
theorem typed_tableInsert (name : List UInt8) {age : Int} (hage : IsInt age) :
    (tableInsert name age).Typed := by
  refine typed_tableEnsureCapacity.andThen fun ok => ?_
  cases ok with
  | false => exact typed_pure _
  | true =>
    have hcalloc : callocRecord.Typed := ⟨trivial, fun _ _ => trivial⟩
    refine hcalloc.andThen fun found => ?_
    cases found with
    | none => exact typed_pure _
    | some record =>
      refine typed_getTable fun table htable => (typed_setTable (isInt_wrapInt _)).andThen fun _ => ?_
      have hset : (setRecord record (newRecord table.nextId name age)).Typed :=
        ⟨typed_newRecord htable hage name, fun _ _ => trivial⟩
      refine hset.andThen fun _ => typed_getTable fun table' htable' => ?_
      split
      · refine (typed_setTable htable').andThen fun _ => ?_
        refine (onIndex_bptreeInsert _ _).typed.andThen fun inserted => ?_
        cases inserted with
        | true =>
          exact typed_getTable fun table'' htable'' =>
            (typed_setTable htable'').andThen fun _ => typed_pure _
        | false =>
          have hfree : (freeRecord record).Typed := ⟨trivial, fun _ _ => trivial⟩
          exact hfree.andThen fun _ => typed_pure _
      · exact readOnly_undefined.typed

/-- Every statement computes with values of the C types. -/
theorem typed_sqlExecute (input : Cursor) : (sqlExecute input).Typed := by
  rw [sqlExecute_eq]
  cases hparse : sqlParse input with
  | error result => exact typed_pure result
  | ok statement =>
    cases statement with
    | select query => exact (readOnly_select query).typed
    | insert name age =>
      refine (typed_tableInsert name (isInt_of_sqlParse_insert hparse)).andThen fun inserted => ?_
      cases inserted with
      | none => exact typed_pure _
      | some record => exact (readOnly_getRecord record).typed.andThen fun _ => typed_pure _

/-- The rows that were found are values of the C types. -/
theorem HoldsRows.typed_contents {rows found : Rows} (hm : HoldsRows m rows) (ht : m.Typed)
    (hfound : found ⊆ rows) : ∀ row ∈ found.contents, row.Typed := by
  intro row hrow
  obtain ⟨found', hfound', rfl⟩ := List.mem_map.mp hrow
  exact (ht.records found'.1 found'.2 (hm.live found' (hfound hfound'))).row

end Typed

end SqlApi.Core

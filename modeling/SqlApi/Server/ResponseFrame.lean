import SqlApi.Core.RecordFrame
import SqlApi.Server.Concurrency
import SqlApi.Server.Response

/-!
# Building the answer outside the lock

`db_server_execute` gives the lock back before `api_build_execution_response` reads the
rows of the result, so other workers may insert in between, and while it reads.

- **Records**: the pointers of a result keep pointing to live records with the same
  contents, because no statement writes or frees a record that was there before it.
- **Arrays**: `Arrays` follows which array of record pointers is whose. Every `malloc`
  or `realloc` of a statement returns a new array: in an INSERT `table->rows`, in a SELECT
  the array of its result.
-/

namespace SqlApi.Server

open SqlApi.Lib SqlApi.Core

/-! ## What building an answer does -/

/-- The operations that read one of these records, or ask for a buffer; a write past the
buffer would be undefined. -/
def Op.Prints (records : List RecPtr) : Op → Prop
  | .getRecord p => p ∈ records
  | .malloc | .undefined => True
  | _ => False

section Prints

variable {α : Type} {records : List RecPtr}

private theorem prints_pure (a : α) :
    Program.Uses (Op.Prints records) (pure a : Prog α) := Program.uses_pure a

private theorem prints_malloc : Program.Uses (Op.Prints records) malloc :=
  Program.uses_perform trivial

private theorem prints_getRecord {p : RecPtr} (hp : p ∈ records) :
    Program.Uses (Op.Prints records) (getRecord p) := Program.uses_perform hp

theorem prints_apiEscapeJsonStringAlloc (input : List UInt8) :
    Program.Uses (Op.Prints records) (apiEscapeJsonStringAlloc input) := by
  refine prints_malloc.bind fun ok => ?_
  cases ok <;> exact prints_pure _

theorem prints_apiSetResponseBody (statusCode : Int) (body : List UInt8) :
    Program.Uses (Op.Prints records) (apiSetResponseBody statusCode body) := by
  refine prints_malloc.bind fun ok => ?_
  cases ok <;> exact prints_pure _

theorem prints_apiBuildErrorResponse (statusCode : Int) (errorType message : List UInt8) :
    Program.Uses (Op.Prints records) (apiBuildErrorResponse statusCode errorType message) := by
  refine (prints_apiEscapeJsonStringAlloc message).bind fun escaped => ?_
  cases escaped with
  | none => exact prints_pure _
  | some escapedMessage => exact prints_apiSetResponseBody _ _

theorem prints_apiAppend (capacity : Nat) (body : APIBody) (text : List UInt8) :
    Program.Uses (Op.Prints records) (apiAppend capacity body text) := by
  unfold apiAppend
  split
  · exact ⟨trivial, fun a => a.elim⟩
  · exact prints_pure _

theorem prints_apiSelectCapacity {rows : List RecPtr} (hrows : rows ⊆ records) (capacity : Nat) :
    Program.Uses (Op.Prints records) (apiSelectCapacity capacity rows) := by
  induction rows generalizing capacity with
  | nil => exact prints_pure _
  | cons p rows ih =>
    obtain ⟨hp, hrows⟩ := List.cons_subset.mp hrows
    exact (prints_getRecord hp).bind fun _ => ih hrows _

theorem prints_apiSelectRows {rows : List RecPtr} (hrows : rows ⊆ records) (capacity index : Nat)
    (body : APIBody) : Program.Uses (Op.Prints records) (apiSelectRows capacity index rows body) := by
  induction rows generalizing index body with
  | nil => exact prints_pure _
  | cons p rows ih =>
    obtain ⟨hp, hrows⟩ := List.cons_subset.mp hrows
    refine (prints_getRecord hp).bind fun record => ?_
    refine (prints_apiEscapeJsonStringAlloc record.name).bind fun escaped => ?_
    cases escaped with
    | none => exact prints_pure _
    | some escapedName => exact (prints_apiAppend _ _ _).bind fun _ => ih hrows _ _

/-- Building an answer reads the records of the result, and nothing else of the table. -/
theorem prints_apiBuildExecutionResponse (execution : DBServerExecution) :
    Program.Uses (Op.Prints execution.result.records) (apiBuildExecutionResponse execution) := by
  -- only the SELECT response reads records, and only those of the result
  have hselect : Program.Uses (Op.Prints execution.result.records)
      (apiBuildSelectResponse execution) := by
    have hrows : execution.result.records.take execution.result.rowCount ⊆
        execution.result.records := List.take_subset _ _
    refine (prints_apiSelectCapacity hrows 160).bind fun capacity => ?_
    refine prints_malloc.bind fun ok => ?_
    cases ok with
    | false => exact prints_pure _
    | true =>
      refine (prints_apiAppend _ _ _).bind fun head => ?_
      refine (prints_apiSelectRows hrows capacity 0 head).bind fun written => ?_
      cases written with
      | none => exact prints_pure _
      | some body => exact (prints_apiAppend _ _ _).bind fun _ => prints_pure _
  unfold apiBuildExecutionResponse
  split
  · exact prints_apiBuildErrorResponse _ _ _
  · split
    · exact prints_apiBuildErrorResponse _ _ _
    · exact prints_apiBuildErrorResponse _ _ _
    · exact prints_apiBuildErrorResponse _ _ _
    · exact prints_apiBuildErrorResponse _ _ _
    all_goals
      split
      · exact prints_apiSetResponseBody _ _
      · exact hselect
      · exact prints_apiBuildErrorResponse _ _ _

/-- The records are live, with the same contents. -/
def SameLive (records : List RecPtr) (m m' : Memory) : Prop :=
  ∀ p ∈ records, ∃ r, m.record? p = some r ∧ m'.record? p = some r

/-- Code that prints some records prints the same from any memory that has them, and leaves
it alone. -/
theorem run_of_prints {p : Prog α} {m m' : Memory} {a : α}
    (hp : Program.Uses (Op.Prints records) p) (hok : m.NoFailure) (hok' : m'.NoFailure)
    (hsame : SameLive records m m') (hrun : p.run m = some (a, m)) : p.run m' = some (a, m') := by
  have hop : ∀ o s t r, Op.Prints records o → s = m ∧ t = m' → exec o s = some r →
      ∃ t', exec o t = some (r.1, t') ∧ r.2 = m ∧ t' = m' := by
    rintro o _ _ r ho ⟨rfl, rfl⟩ hr
    cases o with
    | getRecord q =>
      obtain ⟨record, hrecord, hrecord'⟩ := hsame q ho
      obtain rfl : (record, _) = r := by simpa [exec, hrecord] using hr
      exact ⟨_, by simp [exec, hrecord'], rfl, rfl⟩
    | malloc =>
      have hmalloc : ∀ n : Memory, n.NoFailure → exec .malloc n = some (true, n) := by
        intro n hn
        obtain ⟨nodes, root, records, table, allocs⟩ := n
        obtain rfl : allocs = [] := hn
        rfl
      obtain rfl := Option.some.inj ((hmalloc _ hok).symm.trans hr)
      exact ⟨_, hmalloc _ hok', rfl, rfl⟩
    | undefined => cases hr
    | _ => exact ho.elim
  obtain ⟨t, ht, -, rfl⟩ := hp.run_agree (S := fun s t => s = m ∧ t = m') hop ⟨rfl, rfl⟩ hrun
  exact ht

end Prints

/-! ## The system and its arrays -/

section System

variable {W : Type}

/-- The arrays of record pointers, numbered in the order of their allocation. -/
structure Arrays (W : Type) where
  /-- How many were allocated. -/
  allocated : Nat
  /-- `table->rows` -/
  rows : Option Nat
  /-- `records` of the result a worker has or is making. -/
  result : W → Option Nat

/-- `NULL` everywhere. -/
def Arrays.init : Arrays W := ⟨0, none, fun _ => none⟩

/-- What kind of statement gets an array with its next operation, if one does. -/
def CallPhase.allocates (m : Memory) : CallPhase → Option DBServerQueryKind
  | .executing query (.call .malloc _) =>
    if m.takeAlloc.1 then some (dbServerClassifyQuery query) else none
  | _ => none

variable [DecidableEq W]

/-- `result.records = NULL` -/
def Arrays.clear (a : Arrays W) (w : W) : Arrays W :=
  { a with result := Function.update a.result w none }

/-- The array that `table_append_record` or `table_copy_records` gets. -/
def Arrays.growResult (a : Arrays W) (w : W) : Arrays W :=
  { a with allocated := a.allocated + 1, result := Function.update a.result w (some a.allocated) }

omit [DecidableEq W] in
/-- The array that `table_ensure_capacity` gets. -/
def Arrays.growRows (a : Arrays W) : Arrays W :=
  { a with allocated := a.allocated + 1, rows := some a.allocated }

/-- The arrays after an event: only INSERT grows the rows of the table. -/
def Arrays.after (a : Arrays W) (s : System W) : CallEvent W → Arrays W
  | .acquire w _ => a.clear w
  | .operation w =>
    match (s.phase w).allocates s.server.memory with
    | none => a
    | some .write => a.growRows
    | some _ => a.growResult w
  | _ => a

/-- A run together with its arrays. -/
inductive System.ArrayRun : List (CallEvent W) → System W → Arrays W → Prop
  | init : System.ArrayRun [] .init .init
  | step {t : List (CallEvent W)} {s s' : System W} {a : Arrays W} {e : CallEvent W} :
      System.ArrayRun t s a → s.Step e s' → System.ArrayRun (t ++ [e]) s' (a.after s e)

/-- What happens from some moment on. -/
inductive System.Steps (s : System W) (a : Arrays W) :
    List (CallEvent W) → System W → Arrays W → Prop
  | refl : System.Steps s a [] s a
  | step {t : List (CallEvent W)} {s' s'' : System W} {a' : Arrays W} {e : CallEvent W} :
      System.Steps s a t s' a' → s'.Step e s'' → System.Steps s a (t ++ [e]) s'' (a'.after s' e)

/-- An answer is built while the workers go on: the steps of the system and the operations
of the program that builds it come in any order. -/
inductive System.Builds {α : Type} (s : System W) (a : Arrays W) (build : Prog α) :
    System W → Arrays W → Prog α → Prop
  | start : System.Builds s a build s a build
  -- any worker takes a step in between
  | system {s' s'' : System W} {a' : Arrays W} {p : Prog α} {e : CallEvent W} :
      System.Builds s a build s' a' p → s'.Step e s'' →
      System.Builds s a build s'' (a'.after s' e) p
  -- the building goes on by one operation
  | operation {s' : System W} {a' : Arrays W} {p p' : Prog α} {memory : Memory} :
      System.Builds s a build s' a' p → p.step exec s'.server.memory = some (p', memory) →
      System.Builds s a build (s'.setMemory memory) a' p'

variable {s s' s'' : System W} {a a' a'' : Arrays W} {t t' : List (CallEvent W)} {w : W}
  {e : CallEvent W} {query : Cursor} {p : Prog SQLResult} {result : SQLResult}

theorem System.ArrayRun.run (h : System.ArrayRun t s a) : System.Run t s := by
  induction h with
  | init => exact .init
  | step _ hstep ih => exact ih.step hstep

/-- Every run has its arrays. -/
theorem System.Run.arrays (h : System.Run t s) : ∃ a, System.ArrayRun t s a := by
  induction h with
  | init => exact ⟨_, .init⟩
  | step _ hstep ih =>
    obtain ⟨a, ha⟩ := ih
    exact ⟨_, ha.step hstep⟩

theorem System.ArrayRun.steps (h : System.ArrayRun t s a) (hsteps : s.Steps a t' s' a') :
    System.ArrayRun (t ++ t') s' a' := by
  induction hsteps with
  | refl => rwa [List.append_nil]
  | step _ hstep ih =>
    rw [← List.append_assoc]
    exact ih.step hstep

/-! ## While the read lock is held -/

/-- The serial run at a state of the system. -/
private theorem System.Run.serialState (h : System.Run t s) :
    ∃ answers final, dbServerGuarded.Serial tableCreate (clientTrace t) s.clients answers final :=
  h.client.serial tableReady_tableCreate

omit [DecidableEq W] in
private theorem clients_running (hexecuting : s.phase w = .executing query p) :
    s.clients.phase w = .running query p := by
  change (s.phase w).client = _
  rw [hexecuting]
  rfl

omit [DecidableEq W] in
private theorem holds_read (hexecuting : s.phase w = .executing query p)
    (hread : dbServerClassifyQuery query = .read) :
    dbServerGuarded.holds s.clients.phase w = .read := by
  rw [Guarded.holds_of_running _ (clients_running hexecuting)]
  change (dbServerClassifyQuery query).access = .read
  rw [hread]
  rfl

/-- The table between statements, and what is left of the query computes its result. -/
theorem System.Run.of_reader (h : System.Run t s) (hexecuting : s.phase w = .executing query p)
    (hread : dbServerClassifyQuery query = .read) :
    TableReady s.server.memory ∧
      p.run s.server.memory = (sqlExecute query).run s.server.memory := by
  obtain ⟨answers, final, hserial⟩ := h.serialState
  refine ⟨(hserial.state_of_reader (holds_read hexecuting hread)).1, ?_⟩
  refine h.client.run_of_reader tableReady_tableCreate (clients_running hexecuting) ?_
  change (dbServerClassifyQuery query).access = .read
  rw [hread]
  rfl

/-- No other worker writes. -/
theorem System.Run.readOnly_of_reader (h : System.Run t s)
    (hexecuting : s.phase w = .executing query p) (hread : dbServerClassifyQuery query = .read)
    {v : W} {query' : Cursor} {p' : Prog SQLResult} (hother : s.phase v = .executing query' p') :
    p'.ReadOnly := by
  obtain ⟨answers, final, hserial⟩ := h.serialState
  exact hserial.uses_of_reader (holds_read hexecuting hread) (clients_running hother)

/-- A step of the system leaves the table alone, and the query where it is until its own
release. -/
theorem System.Run.step_of_reader (h : System.Run t s)
    (hexecuting : s.phase w = .executing query p) (hread : dbServerClassifyQuery query = .read)
    (hstep : s.Step e s') (hheld : ∀ query' result', e ≠ .release w query' result') :
    s'.server.memory = s.server.memory ∧ ∃ p', s'.phase w = .executing query p' := by
  obtain ⟨answers, final, hserial⟩ := h.serialState
  have hother {v : W} {ph : CallPhase} (hv : s.phase v = ph)
      (hph : ∀ query' p', ph ≠ .executing query' p') : v ≠ w := by
    rintro rfl
    exact hph _ _ (hv.symm.trans hexecuting)
  have hstays {v : W} (ph : CallPhase) (hne : v ≠ w) : (s.enter v ph).phase w = .executing query p :=
    (s.enter_phase_other ph hne).trans hexecuting
  cases hstep with
  | start _ hv => exact ⟨rfl, p, hstays _ (hother hv nofun)⟩
  | refuse hv _ => exact ⟨rfl, p, hstays _ (hother hv nofun)⟩
  | retry hv => exact ⟨rfl, p, hstays _ (hother hv nofun)⟩
  | timeout hv => exact ⟨rfl, p, hstays _ (hother hv nofun)⟩
  | acquire hv _ => exact ⟨rfl, p, hstays _ (hother hv nofun)⟩
  | finish hv => exact ⟨rfl, p, hstays _ (hother hv nofun)⟩
  -- another reader may run beside it, and readers do not write
  | @operation v query' q q' memory hv hop =>
    have hsame : memory = s.server.memory :=
      hserial.operation_of_reader (holds_read hexecuting hread) (clients_running hv) hop
    refine ⟨hsame, ?_⟩
    rcases eq_or_ne v w with rfl | hne
    · obtain ⟨rfl, rfl⟩ : query' = query ∧ q = p := by simpa [hexecuting] using hv.symm
      exact ⟨q', s.enter_phase_self ..⟩
    · exact ⟨p, hstays _ hne⟩
  -- only the worker itself could end its statement, which the hypothesis excludes
  | @release v query' result' hv =>
    have hne : v ≠ w := by
      rintro rfl
      exact hheld _ _ rfl
    exact ⟨rfl, p, hstays _ hne⟩

/-- So do all steps up to it. -/
theorem System.ArrayRun.steps_of_reader (h : System.ArrayRun t s a)
    (hexecuting : s.phase w = .executing query p) (hread : dbServerClassifyQuery query = .read)
    (hsteps : s.Steps a t' s' a') (hheld : ∀ query' result', .release w query' result' ∉ t') :
    s'.server.memory = s.server.memory ∧ ∃ p', s'.phase w = .executing query p' := by
  induction hsteps with
  | refl => exact ⟨rfl, p, hexecuting⟩
  | @step t' s' s'' a' e hsteps hstep ih =>
    obtain ⟨hmemory, p', hphase⟩ := ih fun query' result' hmem =>
      hheld query' result' (List.mem_append_left _ hmem)
    have hrun := (h.steps hsteps).run
    obtain ⟨hmemory', hphase'⟩ := hrun.step_of_reader hphase hread hstep fun query' result' heq =>
      hheld query' result' (List.mem_append_right _ (heq ▸ List.mem_singleton_self _))
    exact ⟨hmemory'.trans hmemory, hphase'⟩

/-- What all programs have in common they still have when a worker gets another that has it. -/
private theorem executing_enter {P : Prog SQLResult → Prop}
    (h : ∀ v query p, s.phase v = .executing query p → P p) {v : W} {ph : CallPhase}
    (hph : ∀ query p, ph = .executing query p → P p) :
    ∀ u query p, (s.enter v ph).phase u = .executing query p → P p := by
  intro u query p hu
  rcases eq_or_ne v u with rfl | hne
  · rw [System.enter_phase_self] at hu
    exact hph query p hu
  · rw [s.enter_phase_other ph hne] at hu
    exact h u query p hu

/-! ## After the release -/

/-- The first `n` records are those of `m`, and no worker is going to touch them. -/
structure Spared (n : Nat) (m : Memory) (s : System W) : Prop where
  noFailure : s.server.memory.NoFailure
  records : SameRecords n m s.server.memory
  programs : ∀ v query (p : Prog SQLResult), s.phase v = .executing query p → p.Spares n

/-- Every step of every worker spares them. -/
theorem Spared.step {n : Nat} {m : Memory} (h : Spared n m s) (hstep : s.Step e s') :
    Spared n m s' := by
  cases hstep with
  | start | refuse | retry | timeout | finish | release =>
    exact ⟨h.noFailure, h.records, executing_enter h.programs nofun⟩
  | acquire =>
    refine ⟨h.noFailure, h.records, executing_enter h.programs ?_⟩
    rintro _ _ ⟨⟩
    exact spares_sqlExecute _
  | @operation v query' q q' memory hv hop =>
    obtain ⟨hq', hsame⟩ := (h.programs v query' q hv).step h.records.length hop
    refine ⟨h.noFailure.step hop, h.records.trans hsame, executing_enter h.programs ?_⟩
    rintro _ _ ⟨⟩
    exact hq'

/-- An answer that is being built from some of these records. -/
structure Building (n : Nat) (m : Memory) (records : List RecPtr) (response : APIResponse)
    (s : System W) (p : Prog (Option APIResponse)) : Prop where
  spared : Spared n m s
  uses : Program.Uses (Op.Prints records) p
  value : p.run s.server.memory = some (some response, s.server.memory)

/-- Whatever the other workers do meanwhile, it stays the answer. -/
theorem Building.builds {n : Nat} {m : Memory} {records : List RecPtr} {response : APIResponse}
    {build p : Prog (Option APIResponse)} (h : Building n m records response s build)
    (hlive : ∀ q ∈ records, q < n ∧ ∃ r, m.record? q = some r) (hbuilds : s.Builds a build s' a' p) :
    Building n m records response s' p := by
  induction hbuilds with
  | start => exact h
  | @system s' s'' a' p e _ hstep ih =>
    have hspared := ih.spared.step hstep
    refine ⟨hspared, ih.uses, ?_⟩
    have hsame : SameLive records s'.server.memory s''.server.memory := by
      intro q hq
      obtain ⟨hlt, r, hr⟩ := hlive q hq
      exact ⟨r, (ih.spared.records.same q hlt).trans hr, (hspared.records.same q hlt).trans hr⟩
    exact run_of_prints ih.uses ih.spared.noFailure hspared.noFailure hsame ih.value
  | @operation s' a' p p' memory _ hop ih =>
    obtain ⟨huses, o, r, ho, hr, hmemory⟩ := ih.uses.step hop
    have hreads : o.Reads := by cases o <;> trivial
    have hsame : memory = s'.server.memory :=
      hmemory ▸ (exec_of_reads hreads hr).2 ih.spared.noFailure
    subst hsame
    exact ⟨ih.spared, huses, (Program.run_step hop).symm.trans ih.value⟩

/-! ## Whose array is whose -/

/-- An event changes nothing, or it is one of three changes. -/
private theorem Arrays.after_cases (a : Arrays W) (s : System W) (e : CallEvent W) :
    a.after s e = a ∨ (∃ w, a.after s e = a.clear w) ∨ a.after s e = a.growRows ∨
      ∃ w, a.after s e = a.growResult w := by
  unfold Arrays.after
  split
  · exact .inr (.inl ⟨_, rfl⟩)
  · split
    · exact .inl rfl
    · exact .inr (.inr (.inl rfl))
    · exact .inr (.inr (.inr ⟨_, rfl⟩))
  · exact .inl rfl

/-- An array that is neither `table->rows` nor another worker's. -/
structure Arrays.Private (a : Arrays W) (w : W) (array : Nat) : Prop where
  allocated : array < a.allocated
  rows : a.rows ≠ some array
  others : ∀ v ≠ w, a.result v ≠ some array

section Private

variable {array : Nat}

private theorem Arrays.Private.update (h : a.Private w array) (v : W) {array' : Option Nat}
    (hne : array' ≠ some array) : ∀ u ≠ w, Function.update a.result v array' u ≠ some array := by
  intro u hu
  rcases eq_or_ne u v with rfl | hne'
  · rwa [Function.update_self]
  · rw [Function.update_of_ne hne']
    exact h.others u hu

omit [DecidableEq W] in
private theorem Arrays.Private.ne_new (h : a.Private w array) : some a.allocated ≠ some array :=
  fun heq => h.allocated.ne (Option.some.inj heq).symm

private theorem Arrays.Private.clear (h : a.Private w array) (v : W) :
    (a.clear v).Private w array :=
  ⟨h.allocated, h.rows, h.update v nofun⟩

omit [DecidableEq W] in
private theorem Arrays.Private.growRows (h : a.Private w array) : a.growRows.Private w array :=
  ⟨Nat.lt_succ_of_lt h.allocated, h.ne_new, h.others⟩

private theorem Arrays.Private.growResult (h : a.Private w array) (v : W) :
    (a.growResult v).Private w array :=
  ⟨Nat.lt_succ_of_lt h.allocated, h.rows, h.update v h.ne_new⟩

/-- It stays so. -/
theorem Arrays.Private.after (h : a.Private w array) (s : System W) (e : CallEvent W) :
    (a.after s e).Private w array := by
  rcases a.after_cases s e with heq | ⟨v, heq⟩ | heq | ⟨v, heq⟩ <;> rw [heq]
  · exact h
  · exact h.clear v
  · exact h.growRows
  · exact h.growResult v

theorem System.Builds.private {α : Type} {build p : Prog α} (hbuilds : s.Builds a build s' a' p)
    (h : a.Private w array) : a'.Private w array := by
  induction hbuilds with
  | start => exact h
  | system _ _ ih => exact ih.after _ _
  | operation _ _ ih => exact ih

end Private

/-- Every array belongs to the table or to one result. -/
structure Arrays.Distinct (a : Arrays W) : Prop where
  rows : ∀ array, a.rows = some array → array < a.allocated
  result : ∀ w array, a.result w = some array → a.Private w array

theorem Arrays.Distinct.after (h : a.Distinct) (s : System W) (e : CallEvent W) :
    (a.after s e).Distinct := by
  have hrows : ∀ array, a.rows = some array → array < a.allocated + 1 := fun array ha =>
    Nat.lt_succ_of_lt (h.rows array ha)
  rcases a.after_cases s e with heq | ⟨v, heq⟩ | heq | ⟨v, heq⟩ <;> rw [heq]
  · exact h
  · refine ⟨h.rows, fun u array hu => ?_⟩
    rcases eq_or_ne u v with rfl | hne
    · simp [Arrays.clear] at hu
    · simp only [Arrays.clear, Function.update_of_ne hne] at hu
      exact (h.result u array hu).clear v
  · refine ⟨?_, fun u array hu => (h.result u array hu).growRows⟩
    rintro _ ⟨⟩
    exact Nat.lt_succ_self _
  · refine ⟨hrows, fun u array hu => ?_⟩
    rcases eq_or_ne u v with rfl | hne
    · -- the new array is nobody else's
      obtain rfl : a.allocated = array := by simpa [Arrays.growResult] using hu
      refine ⟨Nat.lt_succ_self _, fun ha => Nat.lt_irrefl _ (h.rows _ ha), fun w hw ha => ?_⟩
      simp only [Arrays.growResult, Function.update_of_ne hw] at ha
      exact Nat.lt_irrefl _ (h.result w _ ha).allocated
    · simp only [Arrays.growResult, Function.update_of_ne hne] at hu
      exact (h.result u array hu).growResult v

/-- A query that has no array yet returns no rows unless it gets one. -/
def Arrays.Covers (a : Arrays W) (s : System W) : Prop :=
  ∀ w query (p : Prog SQLResult), s.phase w = .executing query p →
    dbServerClassifyQuery query = .read → a.result w = none →
    p.Bare fun result => result.records = []

/-- A query without an array after its operation was not given one. -/
private theorem Arrays.refused_of_read (a : Arrays W) {v : W} (hv : s.phase v = .executing query p)
    (hread : dbServerClassifyQuery query = .read)
    (hnone : (a.after s (.operation v)).result v = none) :
    (CallPhase.executing query p).allocates s.server.memory = none ∧ a.result v = none := by
  unfold Arrays.after at hnone
  dsimp only at hnone
  rw [hv] at hnone
  cases hallocates : (CallPhase.executing query p).allocates s.server.memory with
  | none =>
    rw [hallocates] at hnone
    exact ⟨rfl, hnone⟩
  | some kind =>
    -- a reader allocates nothing but its result array
    have hkind : kind = .read := by
      rw [← hread]
      unfold CallPhase.allocates at hallocates
      split at hallocates
      next heq =>
        cases heq
        split at hallocates
        · exact (Option.some.inj hallocates).symm
        · cases hallocates
      next => cases hallocates
    rw [hallocates, hkind] at hnone
    simp [Arrays.growResult] at hnone

omit [DecidableEq W] in
/-- Code that was not given an array is still to return no rows without one. -/
private theorem bare_of_refused {Q : SQLResult → Prop} {p' : Prog SQLResult} {m m' : Memory}
    (hp : p.Bare Q) (hrefused : (CallPhase.executing query p).allocates m = none)
    (hstep : p.step exec m = some (p', m')) : p'.Bare Q := by
  cases p with
  | ret result => cases hstep
  | call o k =>
    obtain ⟨r, hr, heq⟩ := Option.map_eq_some_iff.mp hstep
    obtain ⟨rfl, -⟩ := Prod.mk.inj heq
    refine hp.2 r.1 ?_
    cases o with
    | malloc =>
      obtain rfl := Option.some.inj hr
      have hfalse : m.takeAlloc.1 = false := by simpa [CallPhase.allocates] using hrefused
      exact hfalse
    | _ => trivial

theorem Arrays.Covers.step (h : a.Covers s) (hstep : s.Step e s') : (a.after s e).Covers s' := by
  intro u query p hu hread hnone
  cases hstep with
  | @start v query' hv | @refuse v query' hv | @retry v query' hv | @timeout v query' hv
  | @release v query' result hv | @finish v query' execution hv =>
    -- these steps leave the worker that moves outside of a statement
    have hne : v ≠ u := by
      rintro rfl
      simp at hu
    simp only [System.setMetrics_phase, System.setLock_phase, s.enter_phase_other _ hne] at hu
    exact h u query p hu hread hnone
  | @acquire v query' lock hv hlock =>
    rw [System.setLock_phase] at hu
    rcases eq_or_ne v u with rfl | hne
    · -- a statement that begins has not asked for its array yet
      rw [System.enter_phase_self] at hu
      obtain ⟨rfl, rfl⟩ : query' = query ∧ sqlExecute query' = p := by simpa using hu
      refine bare_sqlExecute fun name age hparse => ?_
      rw [dbServerClassifyQuery_of_insert hparse] at hread
      cases hread
    · rw [s.enter_phase_other _ hne] at hu
      refine h u query p hu hread ?_
      simpa [Arrays.after, Arrays.clear, Function.update_of_ne hne.symm] using hnone
  | @operation v query' q q' memory hv hop =>
    rw [System.setMemory_phase] at hu
    rcases eq_or_ne v u with rfl | hne
    · rw [System.enter_phase_self] at hu
      obtain ⟨rfl, rfl⟩ : query' = query ∧ q' = p := by simpa using hu
      -- without an array after the step, none was asked for or the request was refused
      obtain ⟨hrefused, hbefore⟩ := a.refused_of_read hv hread hnone
      exact bare_of_refused (h v query' q hv hread hbefore) hrefused hop
    · rw [s.enter_phase_other _ hne] at hu
      refine h u query p hu hread ?_
      -- the step of another worker does not touch this array
      have hsame : (a.after s (.operation v)).result u = a.result u := by
        unfold Arrays.after
        dsimp only
        split
        · rfl
        · rfl
        · exact Function.update_of_ne hne.symm ..
      exact hsame.symm.trans hnone

theorem System.ArrayRun.arrays (h : System.ArrayRun t s a) : a.Distinct ∧ a.Covers s := by
  induction h with
  | init => exact ⟨⟨nofun, nofun⟩, nofun⟩
  | step _ hstep ih => exact ⟨ih.1.after _ _, ih.2.step hstep⟩

/-! ## The answer is the one at the time of the SELECT -/

/-- Every statement computes with values of the C types. -/
structure System.Typed (s : System W) : Prop where
  memory : s.server.memory.Typed
  programs : ∀ v query (p : Prog SQLResult), s.phase v = .executing query p → p.Typed

theorem System.Typed.step (h : s.Typed) (hstep : s.Step e s') : s'.Typed := by
  cases hstep with
  | start | refuse | retry | timeout | finish | release =>
    exact ⟨h.memory, executing_enter h.programs nofun⟩
  | acquire =>
    refine ⟨h.memory, executing_enter h.programs ?_⟩
    rintro _ _ ⟨⟩
    exact typed_sqlExecute _
  | @operation v query' q q' memory hv hop =>
    obtain ⟨hq', hmemory⟩ := (h.programs v query' q hv).step h.memory hop
    refine ⟨hmemory, executing_enter h.programs ?_⟩
    rintro _ _ ⟨⟩
    exact hq'

theorem System.Run.typed (h : System.Run t s) : s.Typed := by
  induction h with
  | init => exact ⟨tableCreate_typed, nofun⟩
  | step _ hstep ih => exact ih.step hstep

/-- What a query that only reads returns, and the answer to it. -/
private theorem response_of_read {m : Memory} (hm : TableReady m) (ht : m.Typed)
    (hread : dbServerClassifyQuery query = .read)
    (hrun : (sqlExecute query).run m = some (result, m)) :
    (∀ q ∈ result.records, ∃ r, m.record? q = some r) ∧
      ∃ response, (apiBuildExecutionResponse (dbServerDone (dbServerBegin query) result)).run m =
        some (some response, m) := by
  obtain ⟨hok, rows, hinv, hn⟩ := hm
  -- an INSERT is a writer, so the statement is a SELECT or an error
  have hinsert (name : List UInt8) (age : Int) : sqlParse query ≠ .ok (.insert name age) := by
    intro hparse
    rw [dbServerClassifyQuery_of_insert hparse] at hread
    cases hread
  cases sqlOutcome_of_run hinv hn hok hrun with
  | error hparse _ =>
    obtain ⟨response, hresponse, -⟩ := run_response_of_error hok
      (rfl : (dbServerDone (dbServerBegin query) result).serverStatus = .ok) hparse
    have hnone := (sqlParse_error_noRows hparse).2.1
    exact ⟨fun q hq => absurd (hnone ▸ hq) List.not_mem_nil, response, hresponse⟩
  | select select found hparse hfound hresult _ =>
    have hresponse := run_response_of_select hinv.toHoldsRows hok ht hfound
      (length_found_le hinv hn hok (hresult ▸ hrun))
      (rfl : (dbServerDone (dbServerBegin query) result).serverStatus = .ok) hresult
    refine ⟨fun q hq => ?_, _, hresponse⟩
    rw [hresult] at hq
    obtain ⟨row, hrow, rfl⟩ := List.mem_map.mp hq
    exact ⟨row.2, hinv.live row (hfound hrow)⟩
  | insert name age _ hparse => exact absurd hparse (hinsert name age)
  | full name age hparse => exact absurd hparse (hinsert name age)

/-- The answer that is being built by the program `p`, begun as `build`, next to the one
from the memory `m` under the lock. -/
structure Stable (m : Memory) (result : SQLResult) (build : Prog (Option APIResponse))
    (array : Option Nat) (w : W) (s : System W) (a : Arrays W) (p : Prog (Option APIResponse)) :
    Prop where
  /-- The records are live and have the same contents. -/
  records : SameLive result.records m s.server.memory
  /-- The answer is the same. -/
  response : ∃ response, build.run m = some (some response, m) ∧
    p.run s.server.memory = some (some response, s.server.memory)
  /-- The array of the records is not the table's, nor another result's. -/
  array : result.records ≠ [] → ∃ array', array = some array' ∧ a.Private w array'

/-- Building the answer after the release is safe. In every run, from the moment a query gets
the read lock to its release the table is the same and the result is the one of
`sql_execute` on it; and however the other workers go on then, before and while the answer is
built, the result's records stay live and unchanged, the answer is the one that would have
been built under the lock, and its array of records is shared with nobody. -/
theorem apiBuildExecutionResponse_stable {s₀ s₁ s₂ s₃ s₄ : System W} {a₀ a₂ a₄ : Arrays W}
    {p : Prog (Option APIResponse)} (h : System.ArrayRun t s₀ a₀)
    (hread : dbServerClassifyQuery query = .read) (hacquire : s₀.Step (.acquire w query) s₁)
    (hsteps : s₁.Steps (a₀.after s₀ (.acquire w query)) t' s₂ a₂)
    (hheld : ∀ query' result', .release w query' result' ∉ t')
    (hrelease : s₂.Step (.release w query result) s₃)
    (hbuilds : s₃.Builds a₂ (apiBuildExecutionResponse (dbServerDone (dbServerBegin query) result))
      s₄ a₄ p) :
    s₂.server.memory = s₁.server.memory ∧
      (sqlExecute query).run s₁.server.memory = some (result, s₁.server.memory) ∧
      Stable s₁.server.memory result
        (apiBuildExecutionResponse (dbServerDone (dbServerBegin query) result)) (a₂.result w) w
        s₄ a₄ p := by
  have hrun₁ := h.step hacquire
  have hphase₁ : s₁.phase w = .executing query (sqlExecute query) := by
    cases hacquire with
    | acquire _ _ => exact s₀.enter_phase_self ..
  -- while the read lock is held, the table does not change
  obtain ⟨hmemory, -⟩ := hrun₁.steps_of_reader hphase₁ hread hsteps hheld
  have hrun₂ := hrun₁.steps hsteps
  have hphase₂ : s₂.phase w = .executing query (.ret result) := by
    cases hrelease with
    | release hphase => exact hphase
  obtain ⟨hready, hvalue⟩ := hrun₂.run.of_reader hphase₂ hread
  have hselect : (sqlExecute query).run s₂.server.memory = some (result, s₂.server.memory) :=
    hvalue.symm
  rw [← hmemory]
  obtain ⟨hlive, response, hresponse⟩ :=
    response_of_read hready hrun₂.run.typed.memory hread hselect
  have hbound : ∀ q ∈ result.records, q < s₂.server.memory.records.length ∧
      ∃ r, s₂.server.memory.record? q = some r := by
    intro q hq
    obtain ⟨r, hr⟩ := hlive q hq
    exact ⟨Memory.lt_of_record? hr, r, hr⟩
  -- from the release on, no worker writes the records that existed then
  have hspared : Spared s₂.server.memory.records.length s₂.server.memory s₂ :=
    ⟨hready.1, .refl _, fun v query' p' hv =>
      Prog.ReadOnly.spares (hrun₂.run.readOnly_of_reader hphase₂ hread hv)⟩
  have hmemory₃ : s₃.server.memory = s₂.server.memory := by
    cases hrelease
    rfl
  -- the response is built from these records alone
  have hbuilding : Building s₂.server.memory.records.length s₂.server.memory result.records response
      s₃ (apiBuildExecutionResponse (dbServerDone (dbServerBegin query) result)) :=
    ⟨hspared.step hrelease,
      prints_apiBuildExecutionResponse (dbServerDone (dbServerBegin query) result),
      hmemory₃ ▸ hresponse⟩
  have hdone := hbuilding.builds hbound hbuilds
  refine ⟨rfl, hselect, fun q hq => ?_, ⟨response, hresponse, hdone.value⟩, fun hrows => ?_⟩
  · obtain ⟨hlt, r, hr⟩ := hbound q hq
    exact ⟨r, hr, (hdone.spared.records.same q hlt).trans hr⟩
  · obtain ⟨hdistinct, hcovers⟩ := hrun₂.arrays
    cases harray : a₂.result w with
    | none => exact absurd (hcovers w query _ hphase₂ hread harray) hrows
    | some array => exact ⟨array, rfl, hbuilds.private (hdistinct.result w array harray)⟩

theorem System.Steps.cons (hstep : s.Step e s') (h : s'.Steps (a.after s e) t s'' a'') :
    s.Steps a (e :: t) s'' a'' := by
  induction h with
  | refl => exact .step .refl hstep
  | step _ hlast ih => exact .step ih hlast

/-- A worker runs `sql_execute` to its end. -/
theorem System.Steps.operations {memory : Memory} (a : Arrays W)
    (hexecuting : s.phase w = .executing query p)
    (hrun : p.run s.server.memory = some (result, memory)) :
    ∃ n a', s.Steps a (List.replicate n (.operation w))
      ((s.enter w (.executing query (.ret result))).setMemory memory) a' := by
  -- the induction is on the program: each of its operations is one step of the system
  induction p generalizing s a with
  | ret result' =>
    obtain ⟨rfl, rfl⟩ : result' = result ∧ s.server.memory = memory := by simpa using hrun
    refine ⟨0, a, ?_⟩
    have hsame : (s.enter w (.executing query (.ret result'))).setMemory s.server.memory = s := by
      unfold System.enter System.setMemory
      rw [← hexecuting, Function.update_eq_self]
    rw [List.replicate_zero, hsame]
    exact .refl
  | call o k ih =>
    rw [Prog.run, Program.run_call, Option.bind_eq_some_iff] at hrun
    obtain ⟨r, hr, hrest⟩ := hrun
    have hop : (Program.call o k).step exec s.server.memory = some (k r.1, r.2) := by
      rw [Program.step, hr]
      rfl
    have hstep := System.Step.operation hexecuting hop
    have hphase : ((s.enter w (.executing query (k r.1))).setMemory r.2).phase w =
        .executing query (k r.1) := s.enter_phase_self ..
    obtain ⟨n, a', hsteps⟩ := ih r.1 (a.after s (.operation w)) hphase hrest
    refine ⟨n + 1, a', ?_⟩
    have hfinal : (((s.enter w (.executing query (k r.1))).setMemory r.2).enter w
        (.executing query (.ret result))).setMemory memory =
          (s.enter w (.executing query (.ret result))).setMemory memory := by
      simp [System.enter, System.setMemory]
    rw [hfinal] at hsteps
    exact hsteps.cons hstep

end System

/-- While the answer to a SELECT waits to be built, another worker is in an INSERT. -/
theorem apiBuildExecutionResponse_stable_insert :
    ∃ (result : SQLResult) (s s' : System Bool) (a a' : Arrays Bool) (p : Prog SQLResult),
      s'.phase false = .executing (bytes "INSERT INTO users VALUES ('Ann', 30);") p ∧
      Stable s.server.memory result (apiBuildExecutionResponse
        (dbServerDone (dbServerBegin (bytes "SELECT * FROM users;")) result)) (a.result true) true
        s' a' (apiBuildExecutionResponse
          (dbServerDone (dbServerBegin (bytes "SELECT * FROM users;")) result)) := by
  generalize hinsert : bytes "INSERT INTO users VALUES ('Ann', 30);" = insert
  generalize hselect : bytes "SELECT * FROM users;" = select
  have hwrite : dbServerClassifyQuery insert = .write := by
    rw [← hinsert]
    decide
  have hread : dbServerClassifyQuery select = .read := by
    rw [← hselect]
    decide
  have hfree : RWLock.free.tryLock (dbServerClassifyQuery insert).access = some ⟨0, true⟩ := by
    rw [hwrite]
    rfl
  -- the table gets its row from a first INSERT, which runs alone
  obtain ⟨inserted, m, hrun, houtcome⟩ :=
    run_sqlExecute tableCreate_inv tableCreate_numbered rfl insert
  obtain ⟨rows, hm, hn⟩ := houtcome.inv tableCreate_inv tableCreate_numbered
  have hacquired := (System.Run.init.step (.start (w := false) insert rfl)).step
    (.acquire (w := false) rfl hfree)
  obtain ⟨n, hexecuted⟩ := hacquired.operations (w := false) rfl hrun
  have hdone := (hexecuted.step (.release (w := false) rfl)).step (.finish (w := false) rfl)
  -- then the SELECT reads it, up to the release of the lock
  have hstarted := hdone.step (.start (w := true) select rfl)
  obtain ⟨a₀, hbefore⟩ := hstarted.arrays
  generalize hs₀ : System.setMetrics _ _ = s₀ at hbefore hstarted
  have hidle : s₀.phase false = .idle := by
    rw [← hs₀]
    rfl
  have hfree' : s₀.lock = .free := by
    rw [← hs₀]
    exact RWLock.unlock_of_tryLock hfree
  have hlock : s₀.lock.tryLock (dbServerClassifyQuery select).access = some ⟨1, false⟩ := by
    rw [hfree', hread]
    rfl
  have htrying : s₀.phase true = .trying select := by
    rw [← hs₀]
    rfl
  have hacquire := System.Step.acquire (w := true) htrying hlock
  have hmemory : s₀.server.memory = m := by
    rw [← hs₀]
    rfl
  obtain ⟨result, m', hquery, -⟩ :=
    run_sqlExecute hm hn (Memory.NoFailure.run (m := tableCreate) rfl hrun) select
  rw [← hmemory] at hquery
  have hphase : ((s₀.enter true (.executing select (sqlExecute select))).setLock
      ⟨1, false⟩).phase true = .executing select (sqlExecute select) := rfl
  obtain ⟨n', a₂, hsteps⟩ :=
    System.Steps.operations (a₀.after s₀ (.acquire true select)) hphase hquery
  generalize hs₂ : System.setMemory _ m' = s₂ at hsteps
  have hrelease : s₂.Step (.release true select result) _ := .release (by rw [← hs₂]; rfl)
  generalize hs₃ : System.setLock (s₂.enter true _) _ = s₃ at hrelease
  have hidle₃ : s₃.phase false = .idle := by
    rw [← hs₃, ← hs₂]
    exact hidle
  have hfree₃ : s₃.lock = .free := by
    rw [← hs₃, ← hs₂, hread]
    rfl
  -- the next INSERT gets the lock before the answer is built
  have hwriter : s₃.lock.tryLock (dbServerClassifyQuery insert).access = some ⟨0, true⟩ := by
    rw [hfree₃]
    exact hfree
  have hbegun : s₃.Builds a₂ (apiBuildExecutionResponse (dbServerDone (dbServerBegin select) result))
      s₃ a₂ _ := .start
  have hbuilds := (hbegun.system (.start insert hidle₃)).system (.acquire (w := false) rfl hwriter)
  obtain ⟨hmemory₂, -, hstable⟩ := apiBuildExecutionResponse_stable hbefore hread hacquire hsteps
    (fun query' result' hmem => nomatch List.eq_of_mem_replicate hmem) hrelease hbuilds
  rw [← hmemory₂] at hstable
  exact ⟨result, _, _, _, _, sqlExecute insert, rfl, hstable⟩

end SqlApi.Server

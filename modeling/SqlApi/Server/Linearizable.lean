import SqlApi.Server.HttpResponse
import SqlApi.Server.ResponseFrame

/-!
# Every execution has its place

Workers call `db_server_execute` at the same time, and answers are built after the lock was given
back. Still, at any moment of any run:

- a call that timed out was not granted the lock; any other call was granted it once, between its
  start and its return, and returns what `sql_execute` gives after the queries that were granted the
  lock before (`Linearized`);
- the answer tells the rows of that place in the order, however much later it is built (`Kept`).
-/

namespace SqlApi.Server

open SqlApi.Lib SqlApi.Core

/-! ## Workers and grants -/

section Place

variable {W : Type} {t : List (CallEvent W)} {w : W} {query : Cursor} {e : CallEvent W}
  {execution : DBServerExecution} {rows : List Row}

/-- The worker that takes a step. -/
def CallEvent.worker : CallEvent W → W
  | .start w _ | .refuse w | .retry w | .timeout w _ | .acquire w _ | .operation w
  | .release w _ _ | .finish w _ _ => w

/-- The grant of an event. -/
def CallEvent.grant : CallEvent W → List (W × Cursor)
  | .acquire w query => [(w, query)]
  | _ => []

theorem CallEvent.grant_worker : ∀ call ∈ e.grant, call.1 = e.worker := by
  intro call hcall
  cases e with
  | acquire v query' => rw [List.mem_singleton.mp hcall]; rfl
  | _ => exact absurd hcall List.not_mem_nil

theorem lockOrder_concat (t : List (CallEvent W)) (e : CallEvent W) :
    lockOrder (t ++ [e]) = lockOrder t ++ e.grant := by
  rw [lockOrder_append]
  congr 1
  cases e <;> rfl

variable [DecidableEq W]

theorem CallEvent.started_of_worker_ne (h : e.worker ≠ w) : e.started w = [] := by
  cases e with
  | start v query' => exact if_neg h
  | _ => rfl

theorem startedBy_concat (w : W) (t : List (CallEvent W)) (e : CallEvent W) :
    startedBy w (t ++ [e]) = startedBy w t ++ e.started w := by
  simp [startedBy]

/-- A step moves no other worker. -/
theorem System.Step.phase_other {s s' : System W} (h : s.Step e s') (hw : e.worker ≠ w) :
    s'.phase w = s.phase w := by
  cases h <;> exact s.enter_phase_other _ hw

/-! ## The place of a call -/

/-- The call a worker is in: it started between these events, and is its last one. -/
structure InCall (t : List (CallEvent W)) (w : W) (query : Cursor)
    (earlier during : List (CallEvent W)) : Prop where
  split : t = earlier ++ .start w query :: during
  started : startedBy w during = []

/-- The call was not granted the lock. -/
def NotGranted (t : List (CallEvent W)) (w : W) (query : Cursor) : Prop :=
  ∃ earlier during, InCall t w query earlier during ∧ ∀ call ∈ lockOrder during, call.1 ≠ w

/-- The call was granted the lock, once: behind all calls that were granted it before this one
started, and behind some of those that were granted it since. -/
def GrantedAfter (t : List (CallEvent W)) (w : W) (query : Cursor) (before : List (W × Cursor)) :
    Prop :=
  ∃ earlier during overtaking after, InCall t w query earlier during ∧
    before = lockOrder earlier ++ overtaking ∧
    lockOrder during = overtaking ++ (w, query) :: after ∧
    (∀ call ∈ overtaking ++ after, call.1 ≠ w)

/-- The call a worker is in started behind all these events. -/
def StartedAfter (before t : List (CallEvent W)) (w : W) (query : Cursor) : Prop :=
  ∃ earlier during, InCall t w query earlier during ∧ before <+: earlier

/-- What a call of a worker returns at this moment, and the rows its result points to. -/
inductive Linearized (t : List (CallEvent W)) (w : W) (query : Cursor) :
    DBServerExecution → List Row → Prop
  -- a call that timed out has never had the lock
  | timeout : NotGranted t w query →
      Linearized t w query (dbServerTimeout (dbServerBegin query)) []
  -- what was granted before it is run first, then this call alone
  | done {before : List (W × Cursor)} {answers : List (W × Cursor × SQLResult)}
      {m m' : Memory} {result : SQLResult} {rows : List Row} : GrantedAfter t w query before →
      (serial sqlExecute before).run exec tableCreate = some (answers, m) →
      (sqlExecute query).run m = some (result, m') →
      m'.rowsAt result.records = some rows →
      Linearized t w query (dbServerDone (dbServerBegin query) result) rows

theorem InCall.concat {earlier during : List (CallEvent W)} (h : InCall t w query earlier during)
    (he : e.started w = []) : InCall (t ++ [e]) w query earlier (during ++ [e]) where
  split := by rw [h.split, List.append_assoc, List.cons_append]
  started := by rw [startedBy_concat, h.started, he, List.append_nil]

/-- A worker is in one call. -/
theorem InCall.unique {query' : Cursor} {earlier during earlier' during' : List (CallEvent W)}
    (h : InCall t w query earlier during) (h' : InCall t w query' earlier' during') :
    query = query' ∧ earlier = earlier' ∧ during = during' := by
  -- a start cannot lie behind the last one
  have hlast {query query' : Cursor} {others tail tail' : List (CallEvent W)}
      (htail : CallEvent.start w query :: tail = others ++ .start w query' :: tail')
      (hnone : startedBy w tail = []) : others = [] := by
    cases others with
    | nil => rfl
    | cons e others =>
      obtain ⟨-, rfl⟩ := List.cons.inj htail
      simp [startedBy, CallEvent.started] at hnone
  have hsplit := h.split.symm.trans h'.split
  obtain rfl : earlier = earlier' := by
    rcases List.append_eq_append_iff.mp hsplit with ⟨others, heq, htail⟩ | ⟨others, heq, htail⟩
    · rw [heq, hlast htail h.started, List.append_nil]
    · rw [heq, hlast htail h'.started, List.append_nil]
  obtain ⟨hstart, rfl⟩ := List.cons.inj (List.append_cancel_left hsplit)
  obtain ⟨-, rfl⟩ := CallEvent.start.inj hstart
  exact ⟨rfl, rfl, rfl⟩

theorem StartedAfter.start {before : List (CallEvent W)} (h : before <+: t) (w : W)
    (query : Cursor) : StartedAfter before (t ++ [.start w query]) w query :=
  ⟨t, [], ⟨rfl, rfl⟩, h⟩

theorem StartedAfter.concat {before : List (CallEvent W)} (h : StartedAfter before t w query)
    (he : e.started w = []) : StartedAfter before (t ++ [e]) w query := by
  obtain ⟨earlier, during, hcall, hbefore⟩ := h
  exact ⟨earlier, during ++ [e], hcall.concat he, hbefore⟩

theorem NotGranted.start (t : List (CallEvent W)) (w : W) (query : Cursor) :
    NotGranted (t ++ [.start w query]) w query :=
  ⟨t, [], ⟨rfl, rfl⟩, fun _ hcall => absurd hcall List.not_mem_nil⟩

theorem NotGranted.concat (h : NotGranted t w query) (he : e.started w = [])
    (hgrant : ∀ call ∈ e.grant, call.1 ≠ w) : NotGranted (t ++ [e]) w query := by
  obtain ⟨earlier, during, hcall, hnot⟩ := h
  refine ⟨earlier, during ++ [e], hcall.concat he, fun call hmem => ?_⟩
  rw [lockOrder_concat] at hmem
  rcases List.mem_append.mp hmem with hmem | hmem
  · exact hnot call hmem
  · exact hgrant call hmem

/-- The place of a call is behind everything that was granted the lock before. -/
theorem NotGranted.acquire (h : NotGranted t w query) :
    GrantedAfter (t ++ [.acquire w query]) w query (lockOrder t) := by
  obtain ⟨earlier, during, hcall, hnot⟩ := h
  refine ⟨earlier, during ++ [.acquire w query], lockOrder during, [], hcall.concat rfl, ?_, ?_, ?_⟩
  · have hstart : lockOrder (.start w query :: during) = lockOrder during := rfl
    rw [hcall.split, lockOrder_append, hstart]
  · exact lockOrder_concat _ _
  · rwa [List.append_nil]

theorem GrantedAfter.concat {before : List (W × Cursor)} (h : GrantedAfter t w query before)
    (he : e.started w = []) (hgrant : ∀ call ∈ e.grant, call.1 ≠ w) :
    GrantedAfter (t ++ [e]) w query before := by
  obtain ⟨earlier, during, overtaking, after, hcall, hbefore, horder, hothers⟩ := h
  refine ⟨earlier, during ++ [e], overtaking, after ++ e.grant, hcall.concat he, hbefore, ?_, ?_⟩
  · rw [lockOrder_concat, horder, List.append_assoc, List.cons_append]
  · intro call hmem
    rw [← List.append_assoc] at hmem
    rcases List.mem_append.mp hmem with hmem | hmem
    · exact hothers call hmem
    · exact hgrant call hmem

/-- It is the last grant of the worker. -/
theorem GrantedAfter.lockOrder {before : List (W × Cursor)} (h : GrantedAfter t w query before) :
    ∃ after, Server.lockOrder t = before ++ (w, query) :: after ∧ ∀ call ∈ after, call.1 ≠ w := by
  obtain ⟨earlier, during, overtaking, after, hcall, hbefore, horder, hothers⟩ := h
  have hstart : Server.lockOrder (.start w query :: during) = Server.lockOrder during := rfl
  refine ⟨after, ?_, fun call hmem => hothers call (List.mem_append_right _ hmem)⟩
  rw [hcall.split, lockOrder_append, hstart, horder, hbefore, List.append_assoc]

/-- Its place is behind all that were granted the lock before it started. -/
theorem GrantedAfter.startedAfter {before : List (W × Cursor)} {first : List (CallEvent W)}
    (h : GrantedAfter t w query before) (hstarted : StartedAfter first t w query) :
    Server.lockOrder first <+: before := by
  obtain ⟨earlier, during, overtaking, after, hcall, rfl, -, -⟩ := h
  obtain ⟨earlier', during', hcall', hfirst⟩ := hstarted
  obtain ⟨-, rfl, -⟩ := hcall.unique hcall'
  obtain ⟨rest, rfl⟩ := hfirst
  rw [lockOrder_append, List.append_assoc]
  exact List.prefix_append _ _

/-- What others do leaves a call where it is. -/
theorem Linearized.concat (h : Linearized t w query execution rows) (he : e.started w = [])
    (hgrant : ∀ call ∈ e.grant, call.1 ≠ w) : Linearized (t ++ [e]) w query execution rows := by
  cases h with
  | timeout hnot => exact .timeout (hnot.concat he hgrant)
  | done hgranted hbefore hrun hrows => exact .done (hgranted.concat he hgrant) hbefore hrun hrows

/-- Where a call is in the order of the locks, by its phase. -/
def CallPhase.Placed (t : List (CallEvent W)) (w : W) : CallPhase → Prop
  | .idle => True
  | .trying query | .refused query => NotGranted t w query
  | .executing query _ => ∃ before, GrantedAfter t w query before
  | .finishing query execution =>
    execution = dbServerTimeout (dbServerBegin query) ∧ NotGranted t w query ∨
      ∃ before, GrantedAfter t w query before

theorem CallPhase.Placed.concat {phase : CallPhase} (h : phase.Placed t w) (he : e.started w = [])
    (hgrant : ∀ call ∈ e.grant, call.1 ≠ w) : phase.Placed (t ++ [e]) w := by
  have hplaced {query : Cursor} (h : ∃ before, GrantedAfter t w query before) :
      ∃ before, GrantedAfter (t ++ [e]) w query before := by
    obtain ⟨before, h⟩ := h
    exact ⟨before, h.concat he hgrant⟩
  cases phase with
  | idle => trivial
  | trying | refused => exact NotGranted.concat h he hgrant
  | executing => exact hplaced h
  | finishing query execution =>
    rcases h with ⟨htimeout, hnot⟩ | hgranted
    · exact .inl ⟨htimeout, hnot.concat he hgrant⟩
    · exact .inr (hplaced hgranted)

/-- A step keeps every call at its place. -/
theorem System.Step.placed {s s' : System W} (h : s.Step e s')
    (hplaced : (s.phase w).Placed t w) : (s'.phase w).Placed (t ++ [e]) w := by
  rcases eq_or_ne e.worker w with heq | hne
  · subst heq
    have hnone : ∀ call ∈ ([] : List (W × Cursor)), call.1 ≠ e.worker :=
      fun _ hcall => absurd hcall List.not_mem_nil
    cases h with
    | @start w query hidle =>
      refine (System.enter_phase_self s w _).symm ▸ ?_
      exact NotGranted.start t w query
    | @refuse w query htrying _ =>
      rw [show (CallEvent.refuse w).worker = w from rfl, htrying] at hplaced
      exact (System.enter_phase_self s w _).symm ▸ NotGranted.concat hplaced rfl hnone
    | @retry w query hrefused =>
      rw [show (CallEvent.retry w).worker = w from rfl, hrefused] at hplaced
      exact (System.enter_phase_self s w _).symm ▸ NotGranted.concat hplaced rfl hnone
    | @timeout w query hrefused =>
      rw [show (CallEvent.timeout w query).worker = w from rfl, hrefused] at hplaced
      refine (System.enter_phase_self s w _).symm ▸ ?_
      exact .inl ⟨rfl, NotGranted.concat hplaced rfl hnone⟩
    | @acquire w query lock htrying _ =>
      rw [show (CallEvent.acquire w query).worker = w from rfl, htrying] at hplaced
      refine (System.enter_phase_self s w _).symm ▸ ?_
      exact ⟨_, NotGranted.acquire hplaced⟩
    | @operation w query p p' memory hexecuting _ =>
      rw [show (CallEvent.operation w).worker = w from rfl, hexecuting] at hplaced
      obtain ⟨before, hplaced⟩ := hplaced
      refine (System.enter_phase_self s w _).symm ▸ ?_
      exact ⟨before, hplaced.concat rfl hnone⟩
    | @release w query result hexecuting =>
      rw [show (CallEvent.release w query result).worker = w from rfl, hexecuting] at hplaced
      obtain ⟨before, hplaced⟩ := hplaced
      refine (System.enter_phase_self s w _).symm ▸ ?_
      exact .inr ⟨before, hplaced.concat rfl hnone⟩
    | @finish w query execution _ =>
      exact (System.enter_phase_self s w _).symm ▸ trivial
  · rw [h.phase_other hne]
    exact hplaced.concat (CallEvent.started_of_worker_ne hne)
      fun call hcall => (CallEvent.grant_worker call hcall).trans_ne hne

theorem System.Run.placed {s : System W} (h : System.Run t s) (w : W) :
    (s.phase w).Placed t w := by
  induction h with
  | init => trivial
  | step _ hstep ih => exact hstep.placed ih

end Place

/-! ## Servers and serial runs -/

section Serial

variable {W : Type} {calls : List (W × Cursor)} {answers : List (W × Cursor × SQLResult)}
  {server : DBServer} {m m' : Memory}

/-- A serial run is a run of calls that get their lock. -/
theorem reachable_of_serial (hserver : server.Reachable)
    (hrun : (serial sqlExecute calls).run exec server.memory = some (answers, m')) :
    ∃ server' : DBServer, server'.Reachable ∧ server'.memory = m' := by
  induction calls generalizing server answers with
  | nil =>
    obtain ⟨-, rfl⟩ := Prod.mk.inj (Option.some.inj hrun)
    exact ⟨server, hserver, rfl⟩
  | cons call calls ih =>
    obtain ⟨w, query⟩ := call
    rw [serial, Program.run_bind, Option.bind_eq_some_iff] at hrun
    obtain ⟨⟨result, m₁⟩, hquery, hrun⟩ := hrun
    rw [Program.run_bind, Option.bind_eq_some_iff] at hrun
    obtain ⟨⟨answers', m₂⟩, hrest, hrun⟩ := hrun
    obtain ⟨-, rfl⟩ := Prod.mk.inj (Option.some.inj hrun)
    have hlock : dbServerTryAcquireLock (dbServerClassifyQuery query) true = true := by
      simp [dbServerTryAcquireLock]
    obtain ⟨metrics, hexecute⟩ := dbServerExecute_of_lock hlock hquery
    exact ih (.execute true query _ hserver hexecute) hrest

/-- No statement of a serial run touches a record that was there before. -/
theorem sameRecords_serial {n : Nat} (hn : n ≤ m.records.length)
    (hrun : (serial sqlExecute calls).run exec m = some (answers, m')) : SameRecords n m m' := by
  induction calls generalizing m answers with
  | nil =>
    obtain ⟨-, rfl⟩ := Prod.mk.inj (Option.some.inj hrun)
    exact ⟨hn, fun _ _ => rfl⟩
  | cons call calls ih =>
    obtain ⟨w, query⟩ := call
    rw [serial, Program.run_bind, Option.bind_eq_some_iff] at hrun
    obtain ⟨⟨result, m₁⟩, hquery, hrun⟩ := hrun
    rw [Program.run_bind, Option.bind_eq_some_iff] at hrun
    obtain ⟨⟨answers', m₂⟩, hrest, hrun⟩ := hrun
    obtain ⟨-, rfl⟩ := Prod.mk.inj (Option.some.inj hrun)
    have hsame : SameRecords n m m₁ := by
      have hboth := Program.Obeys.run (I := SameRecords n m) (spares_sqlExecute (n := n) query)
        (fun o m₀ r ho hm hr => ?_) ⟨hn, fun _ _ => rfl⟩ hquery
      · exact hboth.1
      · obtain ⟨hsame, hbeyond⟩ := exec_of_spares ho hm.length hr
        exact ⟨hm.trans hsame, hbeyond⟩
    exact hsame.trans (ih hsame.length hrest)

end Serial

/-! ## Answers that last -/

/-- The answer to an execution is built from records that no worker is going to touch. -/
structure Kept {W : Type} (s : System W) (execution : DBServerExecution) (rows : List Row) :
    Prop where
  typed : (apiExecutionAnswer rows execution).Typed
  built : ∃ n m, m.NoFailure ∧ Spared n m s ∧
    (∀ p ∈ execution.result.records, p < n ∧ ∃ r, m.record? p = some r) ∧
    m.rowsAt execution.result.records = some rows ∧
    (apiBuildExecutionResponse execution).run m =
      some (some (apiExecutionAnswer rows execution).response, m)

section Kept

variable {W : Type} {s s' : System W} {t : List (CallEvent W)} {w : W} {query : Cursor}
  {e : CallEvent W} {execution : DBServerExecution} {rows : List Row}

/-- The records of a kept answer are live now, as they were. -/
private theorem sameLive_of_spared {n : Nat} {m : Memory} {records : List RecPtr}
    (hspared : Spared n m s) (hlive : ∀ p ∈ records, p < n ∧ ∃ r, m.record? p = some r) :
    SameLive records m s.server.memory := by
  intro p hp
  obtain ⟨hlt, r, hr⟩ := hlive p hp
  exact ⟨r, hr, (hspared.records.same p hlt).trans hr⟩

/-- Whenever the answer is built, it is the same. -/
theorem Kept.response (h : Kept s execution rows) :
    (apiBuildExecutionResponse execution).run s.server.memory =
      some (some (apiExecutionAnswer rows execution).response, s.server.memory) := by
  obtain ⟨n, m, hok, hspared, hlive, -, hrun⟩ := h.built
  exact run_of_prints (prints_apiBuildExecutionResponse execution) hok hspared.noFailure
    (sameLive_of_spared hspared hlive) hrun

/-- So are the rows behind it. -/
theorem Kept.rowsAt (h : Kept s execution rows) :
    s.server.memory.rowsAt execution.result.records = some rows := by
  obtain ⟨n, m, -, hspared, hlive, hrows, -⟩ := h.built
  have hsame : ∀ records ⊆ execution.result.records,
      s.server.memory.rowsAt records = m.rowsAt records := by
    intro records hsub
    unfold Memory.rowsAt
    induction records with
    | nil => rfl
    | cons p records ih =>
      obtain ⟨hp, hsub⟩ := List.cons_subset.mp hsub
      obtain ⟨r, hr, hr'⟩ := sameLive_of_spared hspared hlive p hp
      rw [List.mapM_cons, List.mapM_cons, hr, hr', ih hsub]
  rw [hsame _ (List.Subset.refl _), hrows]

variable [DecidableEq W]

/-- Every step of every worker keeps it. -/
theorem Kept.step (h : Kept s execution rows) (hstep : s.Step e s') : Kept s' execution rows := by
  obtain ⟨n, m, hok, hspared, hbuilt⟩ := h.built
  exact ⟨h.typed, n, m, hok, hspared.step hstep, hbuilt⟩

/-- Memory never fails, whatever the workers are doing. -/
theorem System.Run.spared (h : System.Run t s) : Spared 0 tableCreate s := by
  induction h with
  | init => exact ⟨rfl, ⟨Nat.zero_le _, fun _ hp => absurd hp (Nat.not_lt_zero _)⟩, nofun⟩
  | step _ hstep ih => exact ih.step hstep

/-- An execution without rows. -/
theorem kept_of_noRows (h : System.Run t s) {m : Memory} (hok : m.NoFailure)
    (hrecords : execution.result.records = []) (hanswers : Answers m execution rows) :
    Kept s execution rows := by
  have hspared := h.spared
  refine ⟨hanswers.typed, 0, m, hok, ?_, ?_, hanswers.rowsAt,
    run_apiBuildExecutionResponse hok hanswers.typed hanswers.select⟩
  · exact ⟨hspared.noFailure, ⟨Nat.zero_le _, fun _ hp => absurd hp (Nat.not_lt_zero _)⟩,
      hspared.programs⟩
  · rw [hrecords]
    exact fun _ hp => absurd hp List.not_mem_nil

/-- Only a query that reads has rows. -/
theorem records_of_not_read {query : Cursor} (hkind : dbServerClassifyQuery query ≠ .read)
    {m m' : Memory} (hm : TableReady m) {result : SQLResult}
    (hrun : (sqlExecute query).run m = some (result, m')) : result.records = [] := by
  obtain ⟨hok, table, hinv, hn⟩ := hm
  cases sqlOutcome_of_run hinv hn hok hrun with
  | error hparse _ => exact (sqlParse_error_noRows hparse).2.1
  | select _ _ hparse _ _ _ => exact absurd (dbServerClassifyQuery_of_select hparse) hkind
  | insert _ _ _ _ hresult _ _ =>
    rw [hresult]
    rfl
  | full _ _ _ _ hresult _ _ =>
    rw [hresult]
    rfl

/-- The records behind rows are live. -/
theorem live_of_rowsAt {m : Memory} {records : List RecPtr} (h : m.rowsAt records = some rows) :
    ∀ p ∈ records, ∃ r, m.record? p = some r := by
  unfold Memory.rowsAt at h
  induction records generalizing rows with
  | nil => exact fun _ hp => absurd hp List.not_mem_nil
  | cons p records ih =>
    rw [List.mapM_cons] at h
    obtain ⟨row, hrow, h⟩ := Option.bind_eq_some_iff.mp h
    obtain ⟨rest, hrest, -⟩ := Option.bind_eq_some_iff.mp h
    obtain ⟨r, hr, -⟩ := Option.map_eq_some_iff.mp hrow
    intro q hq
    rcases List.mem_cons.mp hq with rfl | hq
    · exact ⟨r, hr⟩
    · exact ih hrest q hq

omit [DecidableEq W] in
/-- The last grant of a worker has one place. -/
private theorem eq_of_lastGrant {before before' after after' : List (W × Cursor)}
    (h : before ++ (w, query) :: after = before' ++ (w, query) :: after')
    (hafter : ∀ call ∈ after, call.1 ≠ w) (hafter' : ∀ call ∈ after', call.1 ≠ w) :
    before = before' := by
  have hlast {others tail tail' : List (W × Cursor)}
      (htail : (w, query) :: tail = others ++ (w, query) :: tail')
      (hothers : ∀ call ∈ tail, call.1 ≠ w) : others = [] := by
    cases others with
    | nil => rfl
    | cons call others =>
      obtain ⟨-, rfl⟩ := List.cons.inj htail
      exact absurd rfl (hothers (w, query) (List.mem_append_right _ (List.mem_cons_self ..)))
  rcases List.append_eq_append_iff.mp h with ⟨others, hbefore, htail⟩ | ⟨others, hbefore, htail⟩
  · rw [hbefore, hlast htail hafter, List.append_nil]
  · rw [hbefore, hlast htail hafter', List.append_nil]

/-- A query that has its result: where its place is, and that its answer is going to last. -/
theorem System.Run.result_kept (h : System.Run t s) {result : SQLResult}
    (hexecuting : s.phase w = .executing query (.ret result)) :
    ∃ rows, Linearized t w query (dbServerDone (dbServerBegin query) result) rows ∧
      Kept s (dbServerDone (dbServerBegin query) result) rows := by
  obtain ⟨answers, final, hserial⟩ := h.client.serial tableReady_tableCreate
  have hrunning : s.clients.phase w = .running query (.ret result) := by
    change (s.phase w).client = _
    rw [hexecuting]
    rfl
  obtain ⟨before, after, earlier, later, m, m', horder, hlater, hbefore, hquery, hafter, hstate⟩ :=
    hserial.of_result hrunning
  -- the serial run has the query where the events of the call have it
  have hplaced := h.placed w
  rw [hexecuting] at hplaced
  obtain ⟨before', hgranted⟩ := hplaced
  obtain ⟨after', horder', hlater'⟩ := hgranted.lockOrder
  obtain rfl : before' = before := eq_of_lastGrant (horder'.symm.trans horder) hlater' hlater
  -- so it is a call of a server that queries lead to
  obtain ⟨server, hserver, hmemory⟩ := reachable_of_serial .init hbefore
  have hready : TableReady m := hmemory ▸ hserver.inv
  have hlock : dbServerTryAcquireLock (dbServerClassifyQuery query) true = true := by
    simp [dbServerTryAcquireLock]
  obtain ⟨metrics, hexecute⟩ := dbServerExecute_of_lock hlock (hmemory.symm ▸ hquery)
  obtain ⟨execution, server', rows, hexecute', hok, hanswers⟩ :=
    dbServerExecute_answers hserver true query
  obtain ⟨rfl, rfl⟩ := Prod.mk.inj (Option.some.inj (hexecute'.symm.trans hexecute))
  refine ⟨rows, .done hgranted hbefore hquery hanswers.rowsAt, ?_⟩
  by_cases hread : dbServerClassifyQuery query = .read
  · -- nobody writes while the query holds the lock, and nobody ever writes its records
    have hlocked : dbServerGuarded.access query ≠ .none := by
      change (dbServerClassifyQuery query).access ≠ .none
      rw [hread]
      rintro ⟨⟩
    have hsame : SameRecords m'.records.length m' s.server.memory :=
      (show s.server.memory = final from hstate hlocked) ▸ sameRecords_serial le_rfl hafter
    have hspared : Spared m'.records.length m' s :=
      ⟨h.spared.noFailure, hsame, fun v query' p hv =>
        Prog.ReadOnly.spares (h.readOnly_of_reader hexecuting hread hv)⟩
    refine ⟨hanswers.typed, _, m', hok, hspared, fun p hp => ?_, hanswers.rowsAt,
      run_apiBuildExecutionResponse hok hanswers.typed hanswers.select⟩
    obtain ⟨r, hr⟩ := live_of_rowsAt hanswers.rowsAt p hp
    exact ⟨Memory.lt_of_record? hr, r, hr⟩
  · exact kept_of_noRows h hok (records_of_not_read hread hready hquery) hanswers

/-- The answer to a timeout lasts too. -/
theorem System.Run.timeout_kept (h : System.Run t s) (query : Cursor) :
    Kept s (dbServerTimeout (dbServerBegin query)) [] :=
  kept_of_noRows h h.spared.noFailure rfl (answers_of_timeout _ query)

/-- What a call is about to return, with its place and an answer that lasts. -/
def CallPhase.Answered (t : List (CallEvent W)) (s : System W) (w : W) : CallPhase → Prop
  | .finishing query execution => ∃ rows, Linearized t w query execution rows ∧
      Kept s execution rows
  | _ => True

/-- A step of any worker keeps what this one is about to return. -/
theorem System.Run.answered_step (h : System.Run t s) (hstep : s.Step e s')
    (ih : (s.phase w).Answered t s w) : (s'.phase w).Answered (t ++ [e]) s' w := by
  rcases eq_or_ne e.worker w with heq | hne
  · subst heq
    have hnone : ∀ call ∈ ([] : List (W × Cursor)), call.1 ≠ e.worker :=
      fun _ hcall => absurd hcall List.not_mem_nil
    have hstep' := hstep
    cases hstep with
    | @timeout w query hrefused =>
      have hplaced := h.placed w
      rw [hrefused] at hplaced
      refine (System.enter_phase_self s w _).symm ▸ ⟨[], .timeout ?_, ?_⟩
      · exact NotGranted.concat hplaced rfl hnone
      · exact (h.timeout_kept query).step hstep'
    | @release w query result hexecuting =>
      obtain ⟨rows, hplace, hkept⟩ := h.result_kept hexecuting
      refine (System.enter_phase_self s w _).symm ▸ ⟨rows, ?_, hkept.step hstep'⟩
      exact hplace.concat rfl hnone
    | _ => exact (System.enter_phase_self s _ _).symm ▸ trivial
  · rw [hstep.phase_other hne]
    cases hphase : s.phase w with
    | finishing query execution =>
      rw [hphase] at ih
      obtain ⟨rows, hplace, hkept⟩ := ih
      refine ⟨rows, hplace.concat (CallEvent.started_of_worker_ne hne) ?_, hkept.step hstep⟩
      exact fun call hcall => (CallEvent.grant_worker call hcall).trans_ne hne
    | _ => trivial

/-- Whatever a worker is about to return has its place in the order of the locks, and its answer
lasts. -/
theorem System.Run.linearized (h : System.Run t s) {w : W} {query : Cursor}
    {execution : DBServerExecution} (hfinishing : s.phase w = .finishing query execution) :
    ∃ rows, Linearized t w query execution rows ∧ Kept s execution rows := by
  have hanswered : (s.phase w).Answered t s w := by
    clear hfinishing
    induction h with
    | init => trivial
    | step hrun hstep ih => exact hrun.answered_step hstep ih
  rwa [hfinishing] at hanswered

end Kept

end SqlApi.Server

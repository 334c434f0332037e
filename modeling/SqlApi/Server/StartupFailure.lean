import SqlApi.Server.ServerInvariant

/-!
# When a worker cannot be created

On the error path `http_server_run` writes `shutting_down` without the mutex of the queue and
wakes nobody. A worker that waits then, or has made up its mind to wait, is never woken, and
the main thread waits for it; when there is no such worker, nothing goes wrong.

`QuietRun` excludes exactly this at the moment of the write. The other direction is a run: from a
state with such a worker on, whatever the steps, the two wait for each other (`ServerState.Stuck`).
-/

namespace SqlApi.Server

open SqlApi.Lib

variable {options : HTTPServerOptions} {spurious : Prop} {s s' : ServerState}
  {e : Option ServerEvent} {t : List ServerEvent}

/-- A worker that waits, or will wait whatever happens to the flag. -/
def WorkerPhase.Waits : WorkerPhase → Prop
  | .goingToWait | .waiting => True
  | _ => False

/-- The worker that the main thread waits for. -/
def MainPhase.joinee : MainPhase → Option Nat
  | .joiningBack (i + 1) => some i
  | .joining i _ => some i
  | _ => none

/-- The main thread waits for a worker that waits without having been woken. -/
def ServerState.Deadlocked (s : ServerState) : Prop :=
  ∃ w, s.main.joinee = some w ∧ s.worker w = .waiting

/-- Runs in which no worker waits, or is going to, when the error path writes the flag. -/
inductive QuietRun (options : HTTPServerOptions) (spurious : Prop) :
    List ServerEvent → ServerState → Prop
  | start {items : List HTTPSocket} {s : ServerState} : items.length = options.queueCapacity →
      httpServerStart options items = some s → QuietRun options spurious [] s
  | step {t : List ServerEvent} {s s' : ServerState} {e : Option ServerEvent} :
      QuietRun options spurious t s → ServerStep options spurious s e s' →
      (e = some .raiseShuttingDown → ∀ w, ¬ (s.worker w).Waits) →
      QuietRun options spurious (t ++ e.toList) s'

theorem QuietRun.run (h : QuietRun options spurious t s) : ServerRun options spurious t s := by
  induction h with
  | start hitems hstart => exact .start hitems hstart
  | step _ hstep _ ih => exact ih.step hstep

/-- How the main thread comes to the joins. -/
theorem ServerStep.down (h : ServerStep options spurious s e s') (hdown : s'.main.Down) :
    s.main.Down ∨ (e = some .raiseShuttingDown ∧ s'.worker = s.worker) ∨
      (s.queueMutex = none ∧ s'.worker = s.wakeAll.worker) := by
  -- the two steps that raise the flag, and those that leave the main phase as it is
  cases h with
  | raiseShuttingDown _ => exact .inr (.inl ⟨rfl, rfl⟩)
  | shutdown _ hfree => exact .inr (.inr ⟨hfree, rfl⟩)
  | joinBack hmain _ | returnFailure hmain | join hmain _ _ | joined hmain =>
    exact .inl (hmain ▸ trivial)
  | @handle _ _ o _ _ _ =>
    have hsame := ServerState.afterOp_main options s o
    exact .inl (hsame ▸ hdown)
  | signal | lock _ _ | testWait _ _ | wait _ | wakeUp _ _ | take _ _ _ _ | takeNone _ _ _
  | closeHandled _ | leave _ _ | stay _ _ _ => exact .inl hdown
  | _ => exact hdown.elim

/-- After a broadcast nobody waits; a worker that is going to wait has the mutex. -/
private theorem not_waits_wakeAll (hs : ServerInv options s) (hfree : s.queueMutex = none)
    (w : Nat) : ¬ (s.wakeAll.worker w).Waits := by
  have hlocked := hs.mutex w
  rw [hfree] at hlocked
  dsimp only [ServerState.wakeAll]
  cases hw : s.worker w with
  -- a worker that is about to wait holds the mutex, and the mutex is free
  | goingToWait =>
    rw [hw] at hlocked
    cases hlocked trivial
  | _ => exact not_false

/-- Once the flag is set, no worker makes up its mind to wait. -/
theorem ServerStep.not_waits (h : ServerStep options spurious s e s')
    (hflag : s.queue.shuttingDown = true) {w : Nat} (hw : ¬ (s.worker w).Waits) :
    ¬ (s'.worker w).Waits := by
  cases h.worker w with
  | stays hsame => rwa [hsame]
  | created _ _ _ hentering =>
    rw [hentering]
    exact not_false
  | moves hmoves =>
    generalize hold : s.worker w = old at hmoves hw
    generalize hnew : s'.worker w = new at hmoves
    cases hmoves with
    -- the test fails once the flag is up
    | testWait hwait _ =>
      rw [HTTPRequestQueue.mustWait, hflag, Bool.not_true, Bool.and_false] at hwait
      cases hwait
    | wait _ => exact absurd trivial hw
    | _ => exact not_false

/-- At the joins nobody waits. -/
theorem QuietRun.not_waits (h : QuietRun options spurious t s) (hdown : s.main.Down) (w : Nat) :
    ¬ (s.worker w).Waits := by
  -- the induction is on the run: whoever raises the flag leaves nobody waiting, and nobody starts
  -- to
  induction h with
  | start _ hstart =>
    obtain ⟨-, queue, -, rfl⟩ := httpServerStart_eq_some hstart
    exact hdown.elim
  | @step t s s' e hrun hstep hquiet ih =>
    rcases hstep.down hdown with hold | ⟨hevent, hsame⟩ | ⟨hfree, hsame⟩
    · exact hstep.not_waits (hrun.run.inv.down hold) (ih hold)
    · rw [hsame]
      exact hquiet hevent w
    · rw [hsame]
      exact not_waits_wakeAll hrun.run.inv hfree w

/-- No state of such a run is deadlocked. -/
theorem QuietRun.not_deadlocked (h : QuietRun options spurious t s) : ¬ s.Deadlocked := by
  rintro ⟨w, hjoinee, hwaiting⟩
  -- a join is only asked for after the flag is up
  have hdown : s.main.Down := by
    cases hmain : s.main with
    | joiningBack _ | joining _ _ | returned _ => trivial
    | _ =>
      rw [hmain] at hjoinee
      cases hjoinee
  have hnever := h.not_waits hdown w
  rw [hwaiting] at hnever
  exact hnever trivial

/-- The second of two workers cannot be created while the first one is on its way. -/
theorem QuietRun.not_deadlocked_two : ∃ t s, QuietRun ⟨2, 1, 0⟩ False t s ∧
    s.main.joinee = some 0 ∧ ¬ s.Deadlocked := by
  have hstart : QuietRun ⟨2, 1, 0⟩ False [] _ :=
    .start (rfl : ([0] : List HTTPSocket).length = 1) rfl
  have hcreate := hstart.step (.create rfl (by decide)) nofun
  have hfails := (hcreate.step (.createFails rfl (by decide)) nofun).step (.raiseShuttingDown rfl)
    fun _ w => by
      by_cases hw : w = 0
      · subst hw
        exact not_false
      · dsimp only [ServerState.setMain, ServerState.requestStop, ServerState.setWorker]
        rw [Function.update_of_ne hw]
        exact not_false
  exact ⟨_, _, hfails, rfl, hfails.not_deadlocked⟩

/-- The second of two workers cannot be created while the first one waits. -/
theorem ServerRun.deadlocked : ∃ t s, ServerRun ⟨2, 1, 0⟩ False t s ∧ s.Deadlocked := by
  have hstart : ServerRun ⟨2, 1, 0⟩ False [] _ :=
    .start (rfl : ([0] : List HTTPSocket).length = 1) rfl
  have hwait := (((hstart.step (.create rfl (by decide))).step (.lock (w := 0) rfl rfl)).step
    (.testWait (w := 0) rfl rfl)).step (.wait (w := 0) rfl)
  have hfails := (hwait.step (.createFails rfl (by decide))).step (.raiseShuttingDown rfl)
  exact ⟨_, _, hfails, 0, rfl, rfl⟩

/-! ## The other runs -/

/-- The joins of the error path. -/
theorem ServerStep.joiningBack (h : ServerStep options spurious s e s') {i : Nat}
    (hmain : s.main = .joiningBack i) : s'.main = .joiningBack i ∨
      (∃ j, i = j + 1 ∧ s.worker j = .finished ∧ s'.main = .joiningBack j) ∨ i = 0 := by
  cases h with
  | @joinBack j hjoin hfinished =>
    obtain rfl := MainPhase.joiningBack.inj (hmain.symm.trans hjoin)
    exact .inr (.inl ⟨j, rfl, hfinished, rfl⟩)
  | returnFailure hreturn => exact .inr (.inr (MainPhase.joiningBack.inj (hmain.symm.trans hreturn)))
  | @handle _ _ o _ _ _ => exact .inl ((ServerState.afterOp_main options s o).trans hmain)
  | signal | lock _ _ | testWait _ _ | wait _ | wakeUp _ _ | take _ _ _ _ | takeNone _ _ _
  | closeHandled _ | leave _ _ | stay _ _ _ => exact .inl hmain
  | _ => cases hmain.symm.trans ‹s.main = _›

/-- The main thread still has to wait for a worker that waits. -/
def ServerState.Stuck (s : ServerState) (w : Nat) : Prop :=
  (∃ i, s.main = .joiningBack i ∧ w < i) ∧ (s.worker w).Waits

/-- Without a signal a stuck server stays so: `http_server_run` does not return. -/
theorem ServerStep.stuck {w : Nat} (h : ServerStep options False s e s') (hs : s.Stuck w) :
    s'.Stuck w := by
  obtain ⟨⟨i, hmain, hi⟩, hw⟩ := hs
  constructor
  · -- the main thread joins downwards, and it does not get past this worker
    rcases h.joiningBack hmain with hsame | ⟨j, rfl, hfinished, hmain'⟩ | rfl
    · exact ⟨i, hsame, hi⟩
    · refine ⟨j, hmain', lt_of_le_of_ne (Nat.le_of_lt_succ hi) ?_⟩
      rintro rfl
      rw [hfinished] at hw
      exact hw
    · exact absurd hi (Nat.not_lt_zero w)
  · cases h.worker w with
    | stays hsame => rwa [hsame]
    | created hcreating _ _ _ => cases hmain.symm.trans hcreating
    | moves hmoves =>
      generalize hold : s.worker w = old at hmoves hw
      generalize hnew : s'.worker w = new at hmoves
      -- without a signal nobody wakes it
      cases hmoves with
      | wait _ => trivial
      | wake hcause =>
        rw [hmain] at hcause
        exact (hcause.resolve_left id trivial).elim
      | _ => exact hw.elim

/-- When one of the workers waits, or is going to, as the flag is written, the server is
stuck. -/
theorem stuck_of_raise {i w : Nat} (hw : w < i) (hwaits : (s.worker w).Waits) :
    ((s.setQueue { s.queue with shuttingDown := true }).setMain (.joiningBack i)).Stuck w :=
  ⟨⟨i, rfl, hw⟩, hwaits⟩

/-- And so it is after any further steps. -/
theorem stuck_forever {w : Nat} (hs : s.Stuck w)
    (hsteps : Relation.ReflTransGen (fun s s' => ∃ e, ServerStep options False s e s') s s') :
    s'.Stuck w := by
  induction hsteps with
  | refl => exact hs
  | tail _ hstep ih =>
    obtain ⟨e, hstep⟩ := hstep
    exact hstep.stuck ih

end SqlApi.Server

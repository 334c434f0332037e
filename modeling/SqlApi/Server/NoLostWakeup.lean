import SqlApi.Lib.Monitor
import SqlApi.Server.StartupFailure

/-!
# No wakeup is lost

A push signals one waiter and not all of them; a worker that does not wait may be faster and
take the connection, and the one that was woken goes back to sleep. The workers and the queue
are a monitor with one condition variable, so while a worker waits at least as many workers
are on their way to the queue as there are connections in it. The shutdown wakes all.

## How the proof goes

The queue and its condition variable are an instance of `Monitor`: connections are the items,
workers the threads, and every step of the server is a step of the monitor or leaves it alone.
The invariant counts: while a worker sleeps, the workers awake are at least as many as the
connections that wait.
-/

namespace SqlApi.Server

open SqlApi.Lib

variable {options : HTTPServerOptions} {spurious : Prop} {s s' : ServerState}
  {e : Option ServerEvent} {t : List ServerEvent}

/-! ## The monitor -/

/-- Where a worker is with regard to the condition of the queue. -/
def WorkerPhase.sleep : WorkerPhase → Sleep
  | .entering | .testing => .awake
  | .goingToWait => .drowsy
  | .waiting => .asleep
  | .notCreated | .handling _ _ | .leaving | .finished => .away

/-- The workers and the connections in the queue. -/
def ServerState.monitor (options : HTTPServerOptions) (s : ServerState) :
    Monitor (Fin options.workerCount) :=
  ⟨s.queue.count, fun w => (s.worker w).sleep⟩

/-- No more workers are created than there should be. -/
theorem ServerStep.createdWorkers_le (h : ServerStep options spurious s e s')
    (hs : createdWorkers options s.main ≤ options.workerCount) :
    createdWorkers options s'.main ≤ options.workerCount := by
  cases h with
  | create _ hi => exact hi
  | signal | lock _ _ | testWait _ _ | wait _ | wakeUp _ _ | take _ _ _ _ | takeNone _ _ _
  | closeHandled _ | leave _ _ | stay _ _ _ => exact hs
  | @handle _ _ o _ _ _ =>
    have hsame := ServerState.afterOp_main options s o
    exact hsame.symm ▸ hs
  | _ => exact le_rfl

theorem ServerRun.createdWorkers_le (h : ServerRun options spurious t s) :
    createdWorkers options s.main ≤ options.workerCount := by
  induction h with
  | start _ hstart =>
    obtain ⟨-, queue, -, rfl⟩ := httpServerStart_eq_some hstart
    exact Nat.zero_le _
  | step _ hstep ih => exact hstep.createdWorkers_le ih

/-- A worker that runs was created. -/
theorem ServerInv.lt_workerCount (hs : ServerInv options s)
    (hcreated : createdWorkers options s.main ≤ options.workerCount) {w : Nat}
    (hw : s.worker w ≠ .notCreated) : w < options.workerCount := by
  by_contra hge
  exact hw (hs.notCreated w (hcreated.trans (not_lt.mp hge)))

/-- A step that matters to neither. -/
private theorem monitor_idle (hworker : ∀ w, (s'.worker w).sleep = (s.worker w).sleep)
    (hcount : s'.queue.count = s.queue.count) :
    (s.monitor options).Step (s'.monitor options) := by
  have hsame : s'.monitor options = s.monitor options := by
    unfold ServerState.monitor
    rw [hcount]
    congr 1
    funext w
    exact hworker w
  rw [hsame]
  exact .idle

/-- One worker moves. -/
private theorem monitor_move {w : Nat} {phase : WorkerPhase} (hw : w < options.workerCount)
    (hs' : s'.worker = Function.update s.worker w phase)
    (hstep : (s.monitor options).Step
      ⟨s'.queue.count, Function.update (s.monitor options).thread ⟨w, hw⟩ phase.sleep⟩) :
    (s.monitor options).Step (s'.monitor options) := by
  have hthread : (fun v : Fin options.workerCount => (s'.worker v).sleep) =
      Function.update (s.monitor options).thread ⟨w, hw⟩ phase.sleep := by
    funext v
    rw [hs']
    by_cases hv : v = ⟨w, hw⟩
    · subst hv
      simp
    · have hne : v.val ≠ w := fun h => hv (Fin.ext h)
      rw [Function.update_of_ne hv, Function.update_of_ne hne]
      rfl
  rwa [← hthread] at hstep

/-- A worker that moves without coming near the condition. -/
private theorem monitor_idle_update {w : Nat} {phase : WorkerPhase}
    (hs' : s'.worker = Function.update s.worker w phase)
    (hphase : phase.sleep = (s.worker w).sleep) (hcount : s'.queue.count = s.queue.count) :
    (s.monitor options).Step (s'.monitor options) := by
  refine monitor_idle (fun v => ?_) hcount
  rw [hs']
  by_cases hv : v = w
  · subst hv
    rw [Function.update_self, hphase]
  · rw [Function.update_of_ne hv]

/-- A broadcast. -/
private theorem sleep_wakeAll (s : ServerState) (w : Nat) : (s.wakeAll.worker w).sleep =
    if (s.worker w).sleep = .asleep then .awake else (s.worker w).sleep := by
  unfold ServerState.wakeAll
  cases hw : s.worker w <;> simp [hw, WorkerPhase.sleep]

/-- Nobody is about to wait while the mutex is free. -/
private theorem ServerInv.not_drowsy (hs : ServerInv options s) (hfree : s.queueMutex = none)
    (w : Fin options.workerCount) : (s.monitor options).thread w ≠ .drowsy := by
  intro hdrowsy
  have hlocked := hs.mutex w
  rw [hfree] at hlocked
  cases hphase : s.worker w with
  | goingToWait =>
    rw [hphase] at hlocked
    cases hlocked trivial
  | _ =>
    change (s.worker w).sleep = .drowsy at hdrowsy
    rw [hphase] at hdrowsy
    cases hdrowsy

private theorem monitor_thread {w : Nat} {phase : WorkerPhase} (hw : s.worker w = phase)
    (hlt : w < options.workerCount) : (s.monitor options).thread ⟨w, hlt⟩ = phase.sleep :=
  congrArg WorkerPhase.sleep hw

section Queue

variable {c : HTTPSocket} {queue : HTTPRequestQueue} {w : Nat}

/-- A push that is not refused adds one connection. -/
private theorem ServerInv.count_pushed (hs : ServerInv options s) (hmain : s.main = .pushing c)
    (hpush : httpRequestQueuePush s.queue c = some (true, queue)) :
    queue.count = s.queue.count + 1 := by
  obtain ⟨hready, hpending, -⟩ := hs.queue.push (hs.valid c hmain) hpush
  rw [hready.holds.count, hpending, hs.queue.holds.count, List.length_append]
  rfl

/-- A push while workers wait: it wakes one of them, which is awake before the mutex is free
again. -/
private theorem ServerInv.monitor_pushSignal (hs : ServerInv options s)
    (hmain : s.main = .pushing c) (hfree : s.queueMutex = none)
    (hpush : httpRequestQueuePush s.queue c = some (true, queue)) (hw : s.worker w = .waiting)
    (hlt : w < options.workerCount) :
    (s.monitor options).Step
      (ServerState.monitor options (((s.setQueue queue).wake w).setMain .looping)) := by
  have hstep := Monitor.Step.provideWake (hs.not_drowsy hfree) (monitor_thread hw hlt)
  refine monitor_move hlt rfl ?_
  change (s.monitor options).Step ⟨queue.count, _⟩
  rw [hs.count_pushed hmain hpush]
  exact hstep

/-- A push while nobody waits, so that its signal is not missed. -/
private theorem ServerInv.monitor_pushNoWaiter (hs : ServerInv options s)
    (hmain : s.main = .pushing c) (hfree : s.queueMutex = none)
    (hpush : httpRequestQueuePush s.queue c = some (true, queue))
    (hnone : ∀ w, s.worker w ≠ .waiting) :
    (s.monitor options).Step
      (ServerState.monitor options ((s.setQueue queue).setMain .looping)) := by
  have hawake (w : Fin options.workerCount) : (s.monitor options).thread w ≠ .asleep := by
    intro hasleep
    cases hphase : s.worker w with
    | waiting => exact hnone w hphase
    | _ =>
      rw [monitor_thread hphase w.isLt] at hasleep
      cases hasleep
  have hstep := Monitor.Step.provide (hs.not_drowsy hfree) hawake
  change (s.monitor options).Step ⟨queue.count, _⟩
  rw [hs.count_pushed hmain hpush]
  exact hstep

/-- The shutdown: the flag is set before the broadcast, and the mutex is held for both. -/
private theorem monitor_shutdown (exitCode : Int) :
    (s.monitor options).Step (ServerState.monitor options
      (((s.setQueue (httpRequestQueueShutdown s.queue)).wakeAll).setMain
        (.joining 0 exitCode))) := by
  refine .wakeAll (fun w hasleep => ?_) fun w hdrowsy => ?_
  · -- whoever slept is awake
    change (s.wakeAll.worker w).sleep = .asleep at hasleep
    rw [sleep_wakeAll] at hasleep
    split at hasleep
    · cases hasleep
    · next hnot => exact hnot hasleep
  · -- nobody becomes drowsy
    change (s.wakeAll.worker w).sleep = .drowsy at hdrowsy
    rw [sleep_wakeAll] at hdrowsy
    split at hdrowsy
    · cases hdrowsy
    · exact hdrowsy

/-- The worker leaves with a connection, so there is one less of both. -/
private theorem ServerInv.monitor_take (hs : ServerInv options s) (hw : s.worker w = .testing)
    (hlt : w < options.workerCount) (htake : httpRequestQueueTake s.queue = some (c, queue))
    (hc : c ≠ httpInvalidSocket) :
    (s.monitor options).Step (ServerState.monitor options
      (((s.setQueue queue).setMutex none).setWorker w (.handling c httpServerHandleClient))) := by
  obtain ⟨hready, hpending, -⟩ := hs.queue.take hc htake
  have hcount : s.queue.count = queue.count + 1 := by
    rw [hs.queue.holds.count, hpending, hready.holds.count]
    rfl
  exact monitor_move hlt rfl (.take (monitor_thread hw hlt) hcount)

/-- The worker finds the queue empty and shut down. -/
private theorem ServerInv.monitor_takeNone (hs : ServerInv options s) (hw : s.worker w = .testing)
    (hlt : w < options.workerCount) (hwait : s.queue.mustWait = false)
    (htake : httpRequestQueueTake s.queue = some (httpInvalidSocket, queue)) :
    (s.monitor options).Step (ServerState.monitor options
      (((s.setQueue queue).setMutex none).setWorker w .leaving)) := by
  obtain ⟨rfl, hpending, -⟩ := hs.queue.takeNone hwait htake
  have hcount : s.queue.count = 0 := by
    rw [hs.queue.holds.count, hpending]
    rfl
  exact monitor_move hlt rfl (.giveUp (monitor_thread hw hlt) hcount)

/-- A handler does not touch the queue. -/
private theorem monitor_handle {o : HandlerOp} {k : o.Ans → HandlerProg Unit} (answer : o.Ans)
    (hw : s.worker w = .handling c (.call o k)) :
    (s.monitor options).Step (ServerState.monitor options
      ((s.afterOp options o).setWorker w (.handling c (k answer)))) := by
  have hcount := congrArg HTTPRequestQueue.count (ServerState.afterOp_queue options s o)
  have hupdate : ((s.afterOp options o).setWorker w (.handling c (k answer))).worker =
      Function.update s.worker w (.handling c (k answer)) := by
    rw [ServerState.setWorker, ServerState.afterOp_worker]
  exact monitor_idle_update hupdate (congrArg WorkerPhase.sleep hw).symm hcount

end Queue

/-- The server is such a monitor. -/
theorem ServerStep.monitor (h : ServerStep options spurious s e s') (hs : ServerInv options s)
    (hcreated : createdWorkers options s.main ≤ options.workerCount) :
    (s.monitor options).Step (s'.monitor options) := by
  have hlt {w : Nat} {phase : WorkerPhase} (hw : s.worker w = phase)
      (hphase : phase ≠ .notCreated) : w < options.workerCount :=
    hs.lt_workerCount hcreated (hw ▸ hphase)
  cases h with
  /- the main thread -/
  | @create i hmain hi =>
    have hnew := hs.notCreated i (hmain ▸ le_rfl)
    exact monitor_move hi rfl (.enter (.inl (monitor_thread hnew hi)))
  | pushSignal hmain hfree hpush hw =>
    exact hs.monitor_pushSignal hmain hfree hpush hw (hlt hw (by rintro ⟨⟩))
  | pushNoWaiter hmain hfree hpush hnone => exact hs.monitor_pushNoWaiter hmain hfree hpush hnone
  | pushRefused _ _ hpush =>
    obtain rfl := hs.queue.push_false hpush
    exact monitor_idle (fun _ => rfl) rfl
  | @reject _ o _ _ _ =>
    have hsame := ServerState.afterOp_worker options s o
    have hcount := congrArg HTTPRequestQueue.count (ServerState.afterOp_queue options s o)
    exact monitor_idle (fun w => congrArg (fun worker => (worker w).sleep) hsame) hcount
  | shutdown _ _ => exact monitor_shutdown _
  /- a worker -/
  | lock hw _ => exact monitor_idle_update rfl (congrArg WorkerPhase.sleep hw).symm rfl
  | @testWait w hw hwait =>
    have hw' := hlt hw (by rintro ⟨⟩)
    have hempty : s.queue.count = 0 := by
      rw [hs.queue.holds.count, (hs.queue.holds.mustWait_iff.mp hwait).1]
      rfl
    exact monitor_move hw' rfl (.doze (monitor_thread hw hw') hempty)
  | @wait w hw =>
    have hw' := hlt hw (by rintro ⟨⟩)
    exact monitor_move hw' rfl (.sleep (monitor_thread hw hw'))
  | @wakeUp w _ hw =>
    have hw' := hlt hw (by rintro ⟨⟩)
    exact monitor_move hw' rfl (.enter (.inr (monitor_thread hw hw')))
  | take hw _ htake hc => exact hs.monitor_take hw (hlt hw (by rintro ⟨⟩)) htake hc
  | takeNone hw hwait htake =>
    exact hs.monitor_takeNone hw (hlt hw (by rintro ⟨⟩)) hwait htake
  | handle answer hw => exact monitor_handle answer hw
  | @closeHandled w _ _ hw =>
    have hw' := hlt hw (by rintro ⟨⟩)
    exact monitor_move hw' rfl (.enter (.inl (monitor_thread hw hw')))
  | leave hw _ => exact monitor_idle_update rfl (congrArg WorkerPhase.sleep hw).symm rfl
  | @stay w hw _ _ =>
    have hw' := hlt hw (by rintro ⟨⟩)
    exact monitor_move hw' rfl (.enter (.inl (monitor_thread hw hw')))
  | _ => exact monitor_idle (fun _ => rfl) rfl

/-- In every state of every run there are as many workers on their way to the queue as
connections in it, if any worker waits. -/
theorem ServerRun.noLostWakeup (h : ServerRun options spurious t s) :
    (s.monitor options).NoLostWakeup := by
  induction h with
  | start hitems hstart =>
    obtain ⟨-, queue, -, rfl⟩ := httpServerStart_eq_some hstart
    exact ⟨nofun, nofun⟩
  | step hrun hstep ih => exact ih.step (hstep.monitor hrun.inv hrun.createdWorkers_le)

/-! ## Runs in which all workers are created -/

/-- Runs in which no worker fails to be created. -/
inductive CreatedRun (options : HTTPServerOptions) (spurious : Prop) :
    List ServerEvent → ServerState → Prop
  | start {items : List HTTPSocket} {s : ServerState} : items.length = options.queueCapacity →
      httpServerStart options items = some s → CreatedRun options spurious [] s
  | step {t : List ServerEvent} {s s' : ServerState} {e : Option ServerEvent} :
      CreatedRun options spurious t s → ServerStep options spurious s e s' →
      (∀ i, s'.main ≠ .failing i) → CreatedRun options spurious (t ++ e.toList) s'

theorem CreatedRun.not_failing (h : CreatedRun options spurious t s) (i : Nat) :
    s.main ≠ .failing i := by
  cases h with
  | start _ hstart =>
    obtain ⟨-, queue, -, rfl⟩ := httpServerStart_eq_some hstart
    exact nofun
  | step _ _ hnot => exact hnot i

/-- On the error path the flag is written by the thread that failed to create a worker. -/
theorem ServerStep.failing_of_raise (h : ServerStep options spurious s e s')
    (hevent : e = some .raiseShuttingDown) : ∃ i, s.main = .failing i := by
  cases h with
  | @raiseShuttingDown i hmain => exact ⟨i, hmain⟩
  | @handle _ _ o _ _ _ | @reject _ o _ _ _ => cases o <;> cases hevent
  | _ => cases hevent

/-- The error path is not taken. -/
theorem CreatedRun.quiet (h : CreatedRun options spurious t s) : QuietRun options spurious t s := by
  induction h with
  | start hitems hstart => exact .start hitems hstart
  | step hrun hstep _ ih =>
    refine ih.step hstep fun hevent => ?_
    obtain ⟨i, hfailing⟩ := hstep.failing_of_raise hevent
    exact absurd hfailing (hrun.not_failing i)

/-- While there are connections in the queue some worker does not wait; after the shutdown
none does, and the main thread is not stuck on one in its joins. -/
theorem CreatedRun.no_lost_wakeup (h : CreatedRun options spurious t s) :
    (0 < s.queue.count → ∃ w < options.workerCount, s.worker w ≠ .waiting) ∧
      (s.main.Down → ∀ w, s.worker w ≠ .waiting) ∧ ¬ s.Deadlocked := by
  have hrun := h.quiet.run
  refine ⟨fun hcount => ?_, fun hdown w hw => ?_, h.quiet.not_deadlocked⟩
  · by_contra hall
    have hwaits {w : Nat} (hw : w < options.workerCount) : s.worker w = .waiting := by
      by_contra hnot
      exact hall ⟨w, hw, hnot⟩
    have hfirst := hwaits hrun.workerCount_pos
    -- someone is awake, for the queue is not empty and the first worker sleeps
    obtain ⟨w, hawake⟩ := hrun.noLostWakeup.exists_awake hcount
      (i := ⟨0, hrun.workerCount_pos⟩) (congrArg WorkerPhase.sleep hfirst)
    have hsleeps := congrArg WorkerPhase.sleep (hwaits w.isLt)
    cases hawake.symm.trans hsleeps
  · have hnever := h.quiet.not_waits hdown w
    rw [hw] at hnever
    exact hnever trivial

/-- Two workers wait; one of them is woken by a push. -/
theorem CreatedRun.no_lost_wakeup_push : ∃ t s, CreatedRun ⟨2, 1, 0⟩ False t s ∧
    0 < s.queue.count ∧ s.worker 1 = .waiting ∧ ∃ w < 2, s.worker w ≠ .waiting := by
  have hstart : CreatedRun ⟨2, 1, 0⟩ False [] _ :=
    .start (rfl : ([0] : List HTTPSocket).length = 1) rfl
  have hcreated := ((hstart.step (.create rfl (by decide)) nofun).step
    (.create rfl (by decide)) nofun).step (.created rfl) nofun
  have hfirst := ((hcreated.step (.lock (w := 0) rfl rfl) nofun).step
    (.testWait (w := 0) rfl rfl) nofun).step (.wait (w := 0) rfl) nofun
  have hsecond := ((hfirst.step (.lock (w := 1) rfl rfl) nofun).step
    (.testWait (w := 1) rfl rfl) nofun).step (.wait (w := 1) rfl) nofun
  have haccept := ((((hsecond.step (.listen rfl) nofun).step (.goOn rfl rfl) nofun).step
    (.selectReady rfl) nofun).step (.accept (c := 5) rfl (by decide) rfl) nofun)
  have hpush := haccept.step (.pushSignal (w := 0) rfl rfl rfl rfl) nofun
  have hcount : 0 < _ := Nat.one_pos
  exact ⟨_, _, hpush, hcount, rfl, hpush.no_lost_wakeup.1 hcount⟩

end SqlApi.Server

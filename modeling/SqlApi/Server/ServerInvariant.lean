import SqlApi.Server.HttpServer

/-!
# What holds of a running server

What one step can do to a worker, to the queue and to the main thread, and from that what
holds in every state of a run.

What a step does to the workers is said once (`WorkerMove`), with the conditions it was taken under;
the invariant follows from it field by field.
-/

namespace SqlApi.Server

open SqlApi.Lib

variable {options : HTTPServerOptions} {spurious : Prop} {s s' : ServerState}
  {e : Option ServerEvent} {t : List ServerEvent}

/-! ## Workers -/

/-- The main thread will not push any more. -/
def MainPhase.Down : MainPhase → Prop
  | .joiningBack _ | .joining _ _ | .returned _ => True
  | _ => False

/-- How a step moves a worker. -/
inductive WorkerMove (spurious : Prop) (s s' : ServerState) (w : Nat) :
    WorkerPhase → WorkerPhase → Prop
  -- taking the mutex and testing the queue
  | lock : s.queueMutex = none → s'.queueMutex = some w →
      WorkerMove spurious s s' w .entering .testing
  | testWait : s.queue.mustWait = true → s'.queueMutex = s.queueMutex →
      WorkerMove spurious s s' w .testing .goingToWait
  | wait : s'.queueMutex = none → WorkerMove spurious s s' w .goingToWait .waiting
  -- a signal, a broadcast or a spurious wake-up
  | wake : spurious ∨ ¬ s.main.Down → WorkerMove spurious s s' w .waiting .entering
  -- a connection, or nothing when the queue has shut down
  | take {c : HTTPSocket} {program : HandlerProg Unit} : s'.queueMutex = none →
      WorkerMove spurious s s' w .testing (.handling c program)
  | takeNone : s.queue.mustWait = false →
      httpRequestQueueTake s.queue = some (httpInvalidSocket, s'.queue) → s'.queueMutex = none →
      WorkerMove spurious s s' w .testing .leaving
  -- serving, and closing
  | handle {c : HTTPSocket} {program program' : HandlerProg Unit} :
      WorkerMove spurious s s' w (.handling c program) (.handling c program')
  | close {c : HTTPSocket} {program : HandlerProg Unit} :
      WorkerMove spurious s s' w (.handling c program) .entering
  -- the end of the loop is tested outside of the mutex
  | leave : WorkerMove spurious s s' w .leaving .finished
  | stay : WorkerMove spurious s s' w .leaving .entering

/-- A worker stays, is created, or moves. -/
inductive WorkerSpec (options : HTTPServerOptions) (spurious : Prop) (s s' : ServerState)
    (w : Nat) : Prop
  | stays : s'.worker w = s.worker w → WorkerSpec options spurious s s' w
  | created : s.main = .creating w → w < options.workerCount → s'.main = .creating (w + 1) →
      s'.worker w = .entering → WorkerSpec options spurious s s' w
  | moves : WorkerMove spurious s s' w (s.worker w) (s'.worker w) →
      WorkerSpec options spurious s s' w

/-- One worker moves. -/
private theorem workerSpec_of_update {v : Nat} {phase : WorkerPhase}
    (hs' : s'.worker = Function.update s.worker v phase)
    (hmove : WorkerMove spurious s s' v (s.worker v) phase) (w : Nat) :
    WorkerSpec options spurious s s' w := by
  by_cases hw : w = v
  · subst hw
    refine .moves ?_
    rwa [hs', Function.update_self]
  · exact .stays (by rw [hs', Function.update_of_ne hw])

theorem ServerStep.worker (h : ServerStep options spurious s e s') (w : Nat) :
    WorkerSpec options spurious s s' w := by
  cases h with
  | @create i hmain hi =>
    by_cases hw : w = i
    · subst hw
      exact .created hmain hi rfl (Function.update_self ..)
    · exact .stays (Function.update_of_ne hw ..)
  | pushSignal hmain _ _ hv =>
    exact workerSpec_of_update rfl (hv ▸ .wake (.inr (hmain ▸ not_false))) w
  | shutdown hmain _ =>
    cases hw : s.worker w with
    | waiting =>
      refine .moves ?_
      have hwoken : (s.wakeAll).worker w = .entering := by
        unfold ServerState.wakeAll
        dsimp only
        rw [hw]
      rw [hw]
      exact hwoken ▸ .wake (.inr (hmain ▸ not_false))
    | _ =>
      refine .stays ?_
      have hsame : (s.wakeAll).worker w = s.worker w := by
        unfold ServerState.wakeAll
        dsimp only
        rw [hw]
      exact hsame
  | lock hv hfree => exact workerSpec_of_update rfl (hv ▸ .lock hfree rfl) w
  | testWait hv hwait => exact workerSpec_of_update rfl (hv ▸ .testWait hwait rfl) w
  | wait hv => exact workerSpec_of_update rfl (hv ▸ .wait rfl) w
  | wakeUp hspurious hv => exact workerSpec_of_update rfl (hv ▸ .wake (.inl hspurious)) w
  | take hv _ _ _ => exact workerSpec_of_update rfl (hv ▸ .take rfl) w
  | takeNone hv hwait htake =>
    exact workerSpec_of_update rfl (hv ▸ .takeNone hwait htake rfl) w
  | @handle v c o k answer hv =>
    have hs' : ((s.afterOp options o).setWorker v (.handling c (k answer))).worker =
        Function.update s.worker v (.handling c (k answer)) := by
      rw [ServerState.setWorker, ServerState.afterOp_worker]
    exact workerSpec_of_update hs' (hv ▸ .handle) w
  | closeHandled hv => exact workerSpec_of_update rfl (hv ▸ .close) w
  | leave hv _ => exact workerSpec_of_update rfl (hv ▸ .leave) w
  | stay hv _ _ => exact workerSpec_of_update rfl (hv ▸ .stay) w
  | @reject _ o _ _ _ =>
    exact .stays (congrFun (ServerState.afterOp_worker options s o) w)
  | _ => exact .stays rfl

/-- A worker between its test of the queue and the end of its critical section. -/
def WorkerPhase.Locked : WorkerPhase → Prop
  | .testing | .goingToWait => True
  | _ => False

/-- How a step changes the mutex of the queue. -/
inductive MutexSpec (s s' : ServerState) : Prop
  | same : s'.queueMutex = s.queueMutex → MutexSpec s s'
  | lock : s.queueMutex = none → MutexSpec s s'
  | unlock {w : Nat} : (s.worker w).Locked → ¬ (s'.worker w).Locked → MutexSpec s s'

theorem ServerStep.mutex (h : ServerStep options spurious s e s') : MutexSpec s s' := by
  have hleft {v : Nat} {phase : WorkerPhase} (hphase : ¬ phase.Locked) :
      ¬ (Function.update s.worker v phase v).Locked := by
    rwa [Function.update_self]
  cases h with
  | lock _ hfree => exact .lock hfree
  | @wait w hw => exact .unlock (w := w) (hw ▸ trivial) (hleft not_false)
  | @take w _ _ hw _ _ _ => exact .unlock (w := w) (hw ▸ trivial) (hleft not_false)
  | @takeNone w _ hw _ _ => exact .unlock (w := w) (hw ▸ trivial) (hleft not_false)
  | @handle _ _ o _ _ _ => exact .same (ServerState.afterOp_queueMutex options s o)
  | @reject _ o _ _ _ => exact .same (ServerState.afterOp_queueMutex options s o)
  | _ => exact .same rfl

/-! ## The queue -/

/-- How a step changes the queue. -/
inductive QueueMove (queue queue' : HTTPRequestQueue) : Prop
  | same : queue' = queue → QueueMove queue queue'
  | push {c : HTTPSocket} : queue.shuttingDown = false → queue'.shuttingDown = false →
      queue'.pending = queue.pending ++ [c] → QueueMove queue queue'
  | take {c : HTTPSocket} : queue.pending = c :: queue'.pending →
      queue'.shuttingDown = queue.shuttingDown → QueueMove queue queue'
  | shutdown : queue'.shuttingDown = true → queue'.pending = queue.pending →
      QueueMove queue queue'

/-- The queue is in order: it holds what is pending, and nothing invalid. -/
structure QueueReady (queue : HTTPRequestQueue) : Prop where
  holds : queue.Holds queue.pending
  valid : httpInvalidSocket ∉ queue.pending

section QueueReady

variable {queue queue' : HTTPRequestQueue} {c : HTTPSocket}

theorem QueueReady.push (h : QueueReady queue) (hc : c ≠ httpInvalidSocket)
    (hpush : httpRequestQueuePush queue c = some (true, queue')) :
    QueueReady queue' ∧ queue'.pending = queue.pending ++ [c] ∧ queue.shuttingDown = false ∧
      queue'.shuttingDown = false := by
  have hroom : ¬ (queue.shuttingDown = true ∨ queue.capacity ≤ queue.count) := by
    intro hfull
    rw [HTTPRequestQueue.push_refused hfull] at hpush
    cases hpush
  rw [not_or, Bool.not_eq_true, Nat.not_le] at hroom
  obtain ⟨queue'', hpush', hholds, hopen, -⟩ := h.holds.push hroom.1 hroom.2 c
  rw [hpush'] at hpush
  cases hpush
  refine ⟨⟨hholds.pending.symm ▸ hholds, ?_⟩, hholds.pending, hroom.1, hopen⟩
  rw [hholds.pending, List.mem_append, List.mem_singleton, not_or]
  exact ⟨h.valid, hc.symm⟩

theorem QueueReady.push_false (h : QueueReady queue)
    (hpush : httpRequestQueuePush queue c = some (false, queue')) : queue' = queue := by
  by_cases hfull : queue.shuttingDown = true ∨ queue.capacity ≤ queue.count
  · rw [HTTPRequestQueue.push_refused hfull] at hpush
    cases hpush
    rfl
  · rw [not_or, Bool.not_eq_true, Nat.not_le] at hfull
    obtain ⟨_, hpush', -⟩ := h.holds.push hfull.1 hfull.2 c
    rw [hpush'] at hpush
    cases hpush

theorem QueueReady.take (h : QueueReady queue) (hc : c ≠ httpInvalidSocket)
    (htake : httpRequestQueueTake queue = some (c, queue')) :
    QueueReady queue' ∧ queue.pending = c :: queue'.pending ∧
      queue'.shuttingDown = queue.shuttingDown := by
  obtain ⟨hholds, hvalid⟩ := h
  cases hpending : queue.pending with
  | nil =>
    rw [hpending] at hholds
    rw [hholds.take_empty] at htake
    cases htake
    exact absurd rfl hc
  | cons c' rest =>
    rw [hpending] at hholds hvalid
    obtain ⟨_, htake', hholds', hdown, -⟩ := hholds.take
    rw [htake'] at htake
    cases htake
    rw [List.mem_cons, not_or] at hvalid
    rw [hholds'.pending]
    exact ⟨⟨hholds'.pending.symm ▸ hholds', hholds'.pending.symm ▸ hvalid.2⟩, rfl, hdown⟩

/-- Only an empty queue that is shutting down gives no socket. -/
theorem QueueReady.takeNone (h : QueueReady queue) (hwait : queue.mustWait = false)
    (htake : httpRequestQueueTake queue = some (httpInvalidSocket, queue')) :
    queue' = queue ∧ queue.pending = [] ∧ queue.shuttingDown = true := by
  obtain ⟨hholds, hvalid⟩ := h
  cases hpending : queue.pending with
  | nil =>
    rw [hpending] at hholds
    rw [hholds.take_empty] at htake
    cases htake
    refine ⟨rfl, rfl, eq_true_of_ne_false fun hopen => ?_⟩
    rw [hholds.mustWait_iff.mpr ⟨rfl, hopen⟩] at hwait
    cases hwait
  | cons c' rest =>
    rw [hpending] at hholds hvalid
    obtain ⟨_, htake', -⟩ := hholds.take
    rw [htake'] at htake
    cases htake
    exact absurd (List.mem_cons_self ..) hvalid

theorem QueueReady.shutdown (h : QueueReady queue) : QueueReady (httpRequestQueueShutdown queue) :=
  ⟨h.holds.shutdown, h.valid⟩

end QueueReady

/-- A connection that the main thread is about to push was accepted. -/
def MainPhase.Valid (main : MainPhase) : Prop :=
  ∀ c, main = .pushing c → c ≠ httpInvalidSocket

theorem ServerStep.queue (h : ServerStep options spurious s e s') (hq : QueueReady s.queue)
    (hmain : s.main.Valid) : QueueReady s'.queue ∧ QueueMove s.queue s'.queue := by
  cases h with
  | raiseShuttingDown _ => exact ⟨hq.shutdown, .shutdown rfl rfl⟩
  | shutdown _ _ => exact ⟨hq.shutdown, .shutdown rfl rfl⟩
  | pushSignal hpushing _ hpush _ =>
    obtain ⟨hready, hpending, hopen, hopen'⟩ := hq.push (hmain _ hpushing) hpush
    exact ⟨hready, .push hopen hopen' hpending⟩
  | pushNoWaiter hpushing _ hpush _ =>
    obtain ⟨hready, hpending, hopen, hopen'⟩ := hq.push (hmain _ hpushing) hpush
    exact ⟨hready, .push hopen hopen' hpending⟩
  | pushRefused _ _ hpush =>
    obtain rfl := hq.push_false hpush
    exact ⟨hq, .same rfl⟩
  | take _ _ htake hc =>
    obtain ⟨hready, hpending, hdown⟩ := hq.take hc htake
    exact ⟨hready, .take hpending hdown⟩
  | takeNone _ hwait htake =>
    obtain ⟨rfl, -⟩ := hq.takeNone hwait htake
    exact ⟨hq, .same rfl⟩
  | @handle _ _ o _ _ _ =>
    have hsame := ServerState.afterOp_queue options s o
    exact ⟨hsame.symm ▸ hq, .same hsame⟩
  | @reject _ o _ _ _ =>
    have hsame := ServerState.afterOp_queue options s o
    exact ⟨hsame.symm ▸ hq, .same hsame⟩
  | _ => exact ⟨hq, .same rfl⟩

/-! ## The main thread -/

/-- How many workers have been created. -/
def createdWorkers (options : HTTPServerOptions) : MainPhase → Nat
  | .creating i => i
  | _ => options.workerCount

/-- The workers that the main thread has waited for on the normal path. -/
def joinedWorkers (options : HTTPServerOptions) : MainPhase → Nat
  | .joining i _ => i
  | .returned exitCode => if exitCode = 0 then options.workerCount else 0
  | _ => 0

/-- How a step moves the main thread. -/
structure MainSpec (options : HTTPServerOptions) (s s' : ServerState) : Prop where
  valid : s.main.Valid → s'.main.Valid
  created : createdWorkers options s.main ≤ createdWorkers options s'.main
  down : s'.main.Down → s.main.Down ∨ s'.queue.shuttingDown = true
  joined : ∀ i < joinedWorkers options s'.main,
    i < joinedWorkers options s.main ∨ s.worker i = .finished

private theorem mainSpec_of_eq (hmain : s'.main = s.main) : MainSpec options s s' := by
  constructor <;> rw [hmain]
  · exact id
  · exact .inl
  · exact fun i => .inl

/-- A move before the end. -/
private theorem mainSpec_of_move {old new : MainPhase} (hold : s.main = old) (hnew : s'.main = new)
    (hvalid : new.Valid) (hcreated : createdWorkers options old ≤ createdWorkers options new)
    (hdown : ¬ new.Down) (hjoined : joinedWorkers options new = 0) : MainSpec options s s' := by
  constructor <;> rw [hnew]
  · exact fun _ => hvalid
  · rwa [hold]
  · exact fun h => absurd h hdown
  · rw [hjoined]
    exact fun i hi => absurd hi (Nat.not_lt_zero i)

theorem ServerStep.main (h : ServerStep options spurious s e s') : MainSpec options s s' := by
  cases h with
  | create hmain _ =>
    exact mainSpec_of_move hmain rfl nofun (Nat.le_succ _) not_false rfl
  | createFails hmain hi => exact mainSpec_of_move hmain rfl nofun hi.le not_false rfl
  | created hmain => exact mainSpec_of_move hmain rfl nofun le_rfl not_false rfl
  | accept hmain hc _ =>
    refine mainSpec_of_move hmain rfl ?_ le_rfl not_false rfl
    intro c' hc'
    cases hc'
    exact hc
  | raiseShuttingDown hmain =>
    exact ⟨fun _ => nofun, hmain ▸ le_rfl, fun _ => .inr rfl,
      fun i hi => absurd hi (Nat.not_lt_zero i)⟩
  | joinBack hmain _ =>
    exact ⟨fun _ => nofun, hmain ▸ le_rfl, fun _ => .inl (hmain ▸ trivial),
      fun i hi => absurd hi (Nat.not_lt_zero i)⟩
  | returnFailure hmain =>
    exact ⟨fun _ => nofun, hmain ▸ le_rfl, fun _ => .inl (hmain ▸ trivial),
      fun i hi => absurd hi (Nat.not_lt_zero i)⟩
  | shutdown hmain _ =>
    exact ⟨fun _ => nofun, hmain ▸ le_rfl, fun _ => .inr rfl,
      fun i hi => absurd hi (Nat.not_lt_zero i)⟩
  | @join i exitCode hmain _ hfinished =>
    refine ⟨fun _ => nofun, hmain ▸ le_rfl, fun _ => .inl (hmain ▸ trivial), fun j hj => ?_⟩
    rw [hmain]
    rcases Nat.lt_succ_iff_lt_or_eq.mp hj with hj | rfl
    · exact .inl hj
    · exact .inr hfinished
  | @joined exitCode hmain =>
    refine ⟨fun _ => nofun, hmain ▸ le_rfl, fun _ => .inl (hmain ▸ trivial), fun j hj => .inl ?_⟩
    rw [hmain]
    refine hj.trans_le ?_
    show (if exitCode = 0 then options.workerCount else 0) ≤ options.workerCount
    split
    · exact le_rfl
    · exact Nat.zero_le _
  | listenFails hmain | listen hmain | stop hmain _ | goOn hmain _ | selectFails hmain
  | selectTimeout hmain | selectReady hmain | acceptFails hmain | pushSignal hmain _ _ _
  | pushNoWaiter hmain _ _ _ | pushRefused hmain _ _ | reject _ hmain | closeRejected hmain =>
    exact mainSpec_of_move hmain rfl nofun le_rfl not_false rfl
  | @handle _ _ o _ _ _ => exact mainSpec_of_eq (ServerState.afterOp_main options s o)
  | _ => exact mainSpec_of_eq rfl

/-! ## The invariant -/

/-- What holds in every state of a run. -/
structure ServerInv (options : HTTPServerOptions) (s : ServerState) : Prop where
  valid : s.main.Valid
  queue : QueueReady s.queue
  notCreated : ∀ w, createdWorkers options s.main ≤ w → s.worker w = .notCreated
  /-- A worker that tests the queue has its mutex. -/
  mutex : ∀ w, (s.worker w).Locked → s.queueMutex = some w
  down : s.main.Down → s.queue.shuttingDown = true
  /-- A worker leaves when the queue is empty and will stay so. -/
  left : ∀ w, s.worker w = .leaving ∨ s.worker w = .finished →
    s.queue.pending = [] ∧ s.queue.shuttingDown = true
  joined : ∀ w < joinedWorkers options s.main, s.worker w = .finished

/-- What a server starts with. -/
theorem httpServerStart_eq_some {items : List HTTPSocket}
    (h : httpServerStart options items = some s) :
    0 < options.workerCount ∧ ∃ queue,
      httpRequestQueueInit options.queueCapacity (some items) true true = some queue ∧
      s = ⟨queue, none, false, 0, fun _ => .notCreated, .creating 0, fun _ => false⟩ := by
  unfold httpServerStart at h
  split at h
  · cases h
  · next hzero =>
    obtain ⟨queue, hqueue, rfl⟩ := Option.map_eq_some_iff.mp h
    exact ⟨Nat.pos_of_ne_zero fun h => hzero (.inl h), queue, hqueue, rfl⟩

theorem serverInv_start {items : List HTTPSocket} (hitems : items.length = options.queueCapacity)
    (h : httpServerStart options items = some s) : ServerInv options s := by
  obtain ⟨-, queue, hqueue, rfl⟩ := httpServerStart_eq_some h
  obtain ⟨hholds, -⟩ := HTTPRequestQueue.holds_init hitems hqueue
  have hpending := hholds.pending
  constructor
  · exact nofun
  · exact ⟨hpending.symm ▸ hholds, hpending.symm ▸ List.not_mem_nil⟩
  · exact fun _ _ => rfl
  · exact fun _ => False.elim
  · exact False.elim
  · rintro w (h | h) <;> cases h
  · exact fun w hw => absurd hw (Nat.not_lt_zero w)

/-- Nothing comes into an empty queue that is shutting down. -/
private theorem QueueMove.drained {queue queue' : HTTPRequestQueue} (h : QueueMove queue queue')
    (hq : queue.pending = [] ∧ queue.shuttingDown = true) :
    queue'.pending = [] ∧ queue'.shuttingDown = true := by
  obtain ⟨hempty, hdown⟩ := hq
  cases h with
  | same heq => exact heq ▸ ⟨hempty, hdown⟩
  | push hopen _ _ =>
    rw [hopen] at hdown
    cases hdown
  | take hpending _ =>
    rw [hpending] at hempty
    cases hempty
  | shutdown hdown' hpending => exact ⟨hpending.trans hempty, hdown'⟩

private theorem QueueMove.shuttingDown {queue queue' : HTTPRequestQueue}
    (h : QueueMove queue queue') (hq : queue.shuttingDown = true) :
    queue'.shuttingDown = true := by
  cases h with
  | same heq => exact heq ▸ hq
  | push hopen _ _ =>
    rw [hopen] at hq
    cases hq
  | take _ heq => exact heq.trans hq
  | shutdown hdown _ => exact hdown

theorem ServerInv.step (hs : ServerInv options s) (h : ServerStep options spurious s e s') :
    ServerInv options s' := by
  obtain ⟨hvalid, hcreated, hdown, hjoined⟩ := h.main
  obtain ⟨hqueue, hmove⟩ := h.queue hs.queue hs.valid
  have hfinished (w : Nat) (hw : s.worker w = .finished) : s'.worker w = .finished := by
    cases h.worker w with
    | stays hsame => exact hsame.trans hw
    | created hmain _ _ _ =>
      rw [hs.notCreated w (hmain ▸ le_rfl)] at hw
      cases hw
    | moves hmoves =>
      rw [hw] at hmoves
      cases hmoves
  constructor
  · exact hvalid hs.valid
  · exact hqueue
  · intro w hw
    have hold := hs.notCreated w (hcreated.trans hw)
    cases h.worker w with
    | stays hsame => exact hsame.trans hold
    | created _ _ hmain _ =>
      rw [hmain] at hw
      exact absurd hw (Nat.not_succ_le_self w)
    | moves hmoves =>
      rw [hold] at hmoves
      cases hmoves
  · intro w hw
    cases h.worker w with
    | stays hsame =>
      have hold := hs.mutex w (hsame ▸ hw)
      cases h.mutex with
      | same heq => exact heq.trans hold
      | lock hfree =>
        rw [hfree] at hold
        cases hold
      | @unlock v hv hv' =>
        -- only the worker with the mutex can give it back
        rw [hs.mutex v hv] at hold
        cases hold
        exact absurd hw hv'
    | created _ _ _ hentering =>
      rw [hentering] at hw
      exact hw.elim
    | moves hmoves =>
      generalize hold : s.worker w = old at hmoves
      generalize hnew : s'.worker w = new at hmoves hw
      cases hmoves with
      | lock _ hmutex => exact hmutex
      | testWait _ hmutex => exact hmutex.trans (hs.mutex w (hold ▸ trivial))
      | _ => exact hw.elim
  · intro hend
    rcases hdown hend with hold | hflag
    · exact hmove.shuttingDown (hs.down hold)
    · exact hflag
  · intro w hw
    cases h.worker w with
    | stays hsame =>
      rw [hsame] at hw
      exact hmove.drained (hs.left w hw)
    | created _ _ _ hentering => rcases hw with hw | hw <;> rw [hentering] at hw <;> cases hw
    | moves hmoves =>
      generalize hold : s.worker w = old at hmoves
      generalize hnew : s'.worker w = new at hmoves hw
      cases hmoves with
      | takeNone hwait htake _ =>
        obtain ⟨-, hempty, hflag⟩ := hs.queue.takeNone hwait htake
        exact hmove.drained ⟨hempty, hflag⟩
      | leave => exact hmove.drained (hs.left w (.inl hold))
      | _ => rcases hw with hw | hw <;> cases hw
  · intro w hw
    rcases hjoined w hw with hold | hold
    · exact hfinished w (hs.joined w hold)
    · exact hfinished w hold

/-- The invariant holds in every state of every run. -/
theorem ServerRun.inv (h : ServerRun options spurious t s) : ServerInv options s := by
  induction h with
  | start hitems hstart => exact serverInv_start hitems hstart
  | step _ hstep ih => exact ih.step hstep

/-- There is a worker. -/
theorem ServerRun.workerCount_pos (h : ServerRun options spurious t s) :
    0 < options.workerCount := by
  induction h with
  | start _ hstart => exact (httpServerStart_eq_some hstart).1
  | step _ _ ih => exact ih

end SqlApi.Server

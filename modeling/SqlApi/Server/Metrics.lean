import Mathlib.Data.Set.Card
import SqlApi.Server.Concurrency

/-!
# `db_server.c`: the metrics

Each counter counts the events that add to it, modulo `2 ^ 64`; the balances of the
metrics are balances of events. What is not a count of events is the number of active
queries, which goes up and down.

## How the proof goes

The counters are what a run has counted, event by event, modulo `2 ^ 64` (`tally`). The equations
between them are equations between tallies, which hold for every run. The gauge is another
matter: it is guarded against going below zero, so it is the number of calls in flight only as
long as that number fits (`CallsFit`); `ActiveSpec` says what one event does to it.
-/

namespace SqlApi.Server

open SqlApi.Lib SqlApi.Core

/-! ## The entry points -/

/-- `db_server_get_metrics` -/
def dbServerGetMetrics (server : DBServer) : DBServerMetrics := server.metrics

/-- `db_server_record_health_request` -/
def dbServerRecordHealthRequest (metrics : DBServerMetrics) : DBServerMetrics :=
  { metrics with
    totalRequests := metrics.totalRequests + 1
    totalHealthRequests := metrics.totalHealthRequests + 1 }

/-- `db_server_record_metrics_request` -/
def dbServerRecordMetricsRequest (metrics : DBServerMetrics) : DBServerMetrics :=
  { metrics with
    totalRequests := metrics.totalRequests + 1
    totalMetricsRequests := metrics.totalMetricsRequests + 1 }

/-- `db_server_record_queue_full` -/
def dbServerRecordQueueFull (metrics : DBServerMetrics) : DBServerMetrics :=
  { metrics with
    totalRequests := metrics.totalRequests + 1
    totalErrors := metrics.totalErrors + 1
    totalQueueFull := metrics.totalQueueFull + 1 }

/-- What concerns the metrics: steps of calls, and calls of the other entry points. -/
inductive MetricsEvent (W : Type) where
  | call (e : CallEvent W)
  | recordHealthRequest
  | recordMetricsRequest
  | recordQueueFull
  | getMetrics (metrics : DBServerMetrics)

section Steps

variable {W : Type} [DecidableEq W]

/-- One step; the critical sections of the metrics mutex are one step each. -/
inductive MetricsStep (s : System W) : MetricsEvent W → System W → Prop
  -- a step of a call of the database
  | call {e : CallEvent W} {s' : System W} : s.Step e s' → MetricsStep s (.call e) s'
  -- the counters of the HTTP server, each under the metrics mutex
  | recordHealthRequest : MetricsStep s .recordHealthRequest
      (s.setMetrics (dbServerRecordHealthRequest s.server.metrics))
  | recordMetricsRequest : MetricsStep s .recordMetricsRequest
      (s.setMetrics (dbServerRecordMetricsRequest s.server.metrics))
  | recordQueueFull : MetricsStep s .recordQueueFull
      (s.setMetrics (dbServerRecordQueueFull s.server.metrics))
  -- reading changes nothing
  | getMetrics : MetricsStep s (.getMetrics (dbServerGetMetrics s.server)) s

/-- What happens from the start on, in any order of steps. -/
inductive MetricsRun : List (MetricsEvent W) → System W → Prop
  | init : MetricsRun [] .init
  | step {t : List (MetricsEvent W)} {s s' : System W} {e : MetricsEvent W} : MetricsRun t s →
      MetricsStep s e s' → MetricsRun (t ++ [e]) s'

end Steps

/-! ## Counters -/

/-- The counters, apart from the one of active queries. -/
inductive MetricsCounter where
  | requests | healthRequests | metricsRequests | queryRequests | selectRequests | insertRequests
  | errors | syntaxErrors | queryErrors | internalErrors | notFoundResults | queueFull
  | lockTimeouts
  deriving DecidableEq

/-- The value of a counter. -/
def DBServerMetrics.value (metrics : DBServerMetrics) : MetricsCounter → UInt64
  | .requests => metrics.totalRequests
  | .healthRequests => metrics.totalHealthRequests
  | .metricsRequests => metrics.totalMetricsRequests
  | .queryRequests => metrics.totalQueryRequests
  | .selectRequests => metrics.totalSelectRequests
  | .insertRequests => metrics.totalInsertRequests
  | .errors => metrics.totalErrors
  | .syntaxErrors => metrics.totalSyntaxErrors
  | .queryErrors => metrics.totalQueryErrors
  | .internalErrors => metrics.totalInternalErrors
  | .notFoundResults => metrics.totalNotFoundResults
  | .queueFull => metrics.totalQueueFull
  | .lockTimeouts => metrics.totalLockTimeouts

/-- How a query ended, as its caller is told. -/
inductive QueryOutcome where
  | ok | notFound | syntaxError | queryError | internalError | lockTimeout
  deriving DecidableEq

/-- The outcome of an execution. -/
def DBServerExecution.outcome (execution : DBServerExecution) : QueryOutcome :=
  if execution.serverStatus = .lockTimeout then .lockTimeout
  else
    match execution.result.status with
    | .ok => .ok
    | .notFound => .notFound
    | .syntaxError => .syntaxError
    | .queryError | .exit => .queryError
    | .error => .internalError

/-- The counter of an outcome. -/
def QueryOutcome.counter : QueryOutcome → Option MetricsCounter
  | .ok => none
  | .notFound => some .notFoundResults
  | .syntaxError => some .syntaxErrors
  | .queryError => some .queryErrors
  | .internalError => some .internalErrors
  | .lockTimeout => some .lockTimeouts

/-- The counters that an outcome adds to. -/
def QueryOutcome.counters : QueryOutcome → List MetricsCounter
  | .ok => []
  | .notFound => [.notFoundResults]
  | .syntaxError => [.errors, .syntaxErrors]
  | .queryError => [.errors, .queryErrors]
  | .internalError => [.errors, .internalErrors]
  | .lockTimeout => [.errors, .lockTimeouts]

/-- The counters that a query of a kind adds to at its start. -/
def DBServerQueryKind.counters : DBServerQueryKind → List MetricsCounter
  | .none => [.requests, .queryRequests]
  | .read => [.requests, .queryRequests, .selectRequests]
  | .write => [.requests, .queryRequests, .insertRequests]

/-- The counters that an event adds to. -/
def MetricsEvent.counters {W : Type} : MetricsEvent W → List MetricsCounter
  | .call (.start _ query) => (dbServerClassifyQuery query).counters
  | .call (.finish _ _ execution) => execution.outcome.counters
  | .call _ | .getMetrics _ => []
  | .recordHealthRequest => [.requests, .healthRequests]
  | .recordMetricsRequest => [.requests, .metricsRequests]
  | .recordQueueFull => [.requests, .errors, .queueFull]

theorem value_queryStarted (kind : DBServerQueryKind) (metrics : DBServerMetrics)
    (c : MetricsCounter) : (dbServerMetricsQueryStarted kind metrics).value c =
      metrics.value c + UInt64.ofNat (kind.counters.count c) := by
  cases kind <;> cases c <;> first | rfl | exact (UInt64.add_zero _).symm

theorem value_queryFinished (execution : DBServerExecution) (metrics : DBServerMetrics)
    (c : MetricsCounter) : (dbServerMetricsQueryFinished execution metrics).value c =
      metrics.value c + UInt64.ofNat (execution.outcome.counters.count c) := by
  have hguard : (if metrics.activeQueryRequests > 0 then
      { metrics with activeQueryRequests := metrics.activeQueryRequests - 1 }
      else metrics).value c = metrics.value c := by
    split <;> cases c <;> rfl
  rw [← hguard]
  unfold dbServerMetricsQueryFinished DBServerExecution.outcome
  dsimp only
  generalize (if metrics.activeQueryRequests > 0 then
    { metrics with activeQueryRequests := metrics.activeQueryRequests - 1 }
    else metrics) = m
  split
  · cases c <;> first | rfl | exact (UInt64.add_zero _).symm
  · cases execution.result.status <;> cases c <;> first | rfl | exact (UInt64.add_zero _).symm

theorem active_queryFinished (execution : DBServerExecution) (metrics : DBServerMetrics) :
    (dbServerMetricsQueryFinished execution metrics).activeQueryRequests =
      if metrics.activeQueryRequests > 0 then metrics.activeQueryRequests - 1
      else metrics.activeQueryRequests := by
  have hguard : (if metrics.activeQueryRequests > 0 then
      { metrics with activeQueryRequests := metrics.activeQueryRequests - 1 }
      else metrics).activeQueryRequests =
      if metrics.activeQueryRequests > 0 then metrics.activeQueryRequests - 1
      else metrics.activeQueryRequests := by
    split <;> rfl
  rw [← hguard]
  unfold dbServerMetricsQueryFinished
  dsimp only
  generalize (if metrics.activeQueryRequests > 0 then
    { metrics with activeQueryRequests := metrics.activeQueryRequests - 1 }
    else metrics) = m
  split
  · rfl
  · cases execution.result.status <;> rfl

section Tally

variable {W : Type}

/-- How often events add to a counter. -/
def tally (t : List (MetricsEvent W)) (c : MetricsCounter) : Nat :=
  (t.flatMap MetricsEvent.counters).count c

theorem tally_append (t : List (MetricsEvent W)) (e : MetricsEvent W) (c : MetricsCounter) :
    tally (t ++ [e]) c = tally t c + e.counters.count c := by
  rw [tally, List.flatMap_append, List.count_append, List.flatMap_singleton, tally]

/-- All that an event can add to. -/
def eventCounters : List (List MetricsCounter) :=
  [[], [.requests, .healthRequests], [.requests, .metricsRequests], [.requests, .errors, .queueFull],
    [.requests, .queryRequests], [.requests, .queryRequests, .selectRequests],
    [.requests, .queryRequests, .insertRequests], [.notFoundResults], [.errors, .syntaxErrors],
    [.errors, .queryErrors], [.errors, .internalErrors], [.errors, .lockTimeouts]]

theorem counters_mem (e : MetricsEvent W) : e.counters ∈ eventCounters := by
  have hkind (kind : DBServerQueryKind) : kind.counters ∈ eventCounters := by
    cases kind <;> decide
  have houtcome (outcome : QueryOutcome) : outcome.counters ∈ eventCounters := by
    cases outcome <;> decide
  cases e with
  | call e =>
    cases e with
    | start w query => exact hkind _
    | finish w query execution => exact houtcome _
    | _ => exact List.mem_cons_self ..
  | getMetrics metrics => exact List.mem_cons_self ..
  | recordHealthRequest =>
    show [.requests, .healthRequests] ∈ eventCounters
    decide
  | recordMetricsRequest =>
    show [.requests, .metricsRequests] ∈ eventCounters
    decide
  | recordQueueFull =>
    show [.requests, .errors, .queueFull] ∈ eventCounters
    decide

/-- A balance of every event is a balance of all events. -/
private theorem tally_of_events {R : (MetricsCounter → Nat) → Prop} (hzero : R fun _ => 0)
    (hadd : ∀ f g, R f → R g → R fun c => f c + g c) (h : ∀ cs ∈ eventCounters, R fun c => cs.count c)
    (t : List (MetricsEvent W)) : R (tally t) := by
  induction t with
  | nil => exact hzero
  | cons e t ih =>
    have hcons : tally (e :: t) = fun c => e.counters.count c + tally t c := by
      funext c
      rw [tally, List.flatMap_cons, List.count_append, tally]
    rw [hcons]
    exact hadd _ _ (h _ (counters_mem e)) ih

private theorem tally_requests (t : List (MetricsEvent W)) :
    tally t .requests = tally t .healthRequests + tally t .metricsRequests +
      tally t .queryRequests + tally t .queueFull :=
  tally_of_events (R := fun f => f .requests = f .healthRequests + f .metricsRequests +
    f .queryRequests + f .queueFull) rfl (fun f g hf hg => by dsimp only; omega)
    (by decide) t

private theorem tally_errors (t : List (MetricsEvent W)) :
    tally t .errors = tally t .syntaxErrors + tally t .queryErrors + tally t .internalErrors +
      tally t .lockTimeouts + tally t .queueFull :=
  tally_of_events (R := fun f => f .errors = f .syntaxErrors + f .queryErrors +
    f .internalErrors + f .lockTimeouts + f .queueFull) rfl (fun f g hf hg => by dsimp only; omega)
    (by decide) t

/-- Every query is at most one of a read and a write. -/
private theorem tally_kinds (t : List (MetricsEvent W)) :
    tally t .selectRequests + tally t .insertRequests ≤ tally t .queryRequests :=
  tally_of_events (R := fun f => f .selectRequests + f .insertRequests ≤ f .queryRequests)
    le_rfl (fun f g hf hg => by dsimp only; omega)
    (by decide) t

/-- The number of calls that have started. -/
def startedCalls (t : List (MetricsEvent W)) : Nat :=
  t.countP fun
    | .call (.start _ _) => true
    | _ => false

/-- The number of calls that have finished. -/
def finishedCalls (t : List (MetricsEvent W)) : Nat :=
  t.countP fun
    | .call (.finish _ _ _) => true
    | _ => false

/-- The number of calls that have finished with this outcome. -/
def finishedWith (outcome : QueryOutcome) (t : List (MetricsEvent W)) : Nat :=
  t.countP fun
    | .call (.finish _ _ execution) => execution.outcome = outcome
    | _ => false

private theorem tally_queries (t : List (MetricsEvent W)) :
    tally t .queryRequests = startedCalls t := by
  induction t using List.reverseRecOn with
  | nil => rfl
  | append_singleton t e ih =>
    rw [tally_append, ih, startedCalls, startedCalls, List.countP_append, List.countP_singleton]
    cases e with
    | call e =>
      cases e with
      | start w query =>
        have hone : (dbServerClassifyQuery query).counters.count .queryRequests = 1 := by
          cases dbServerClassifyQuery query <;> rfl
        exact congrArg _ hone
      | finish w query execution =>
        have hnone : execution.outcome.counters.count .queryRequests = 0 := by
          cases execution.outcome <;> rfl
        exact congrArg _ hnone
      | _ => rfl
    | _ => rfl

private theorem tally_outcome {outcome : QueryOutcome} {c : MetricsCounter}
    (hc : outcome.counter = some c) (t : List (MetricsEvent W)) :
    tally t c = finishedWith outcome t := by
  induction t using List.reverseRecOn with
  | nil => rfl
  | append_singleton t e ih =>
    rw [tally_append, ih, finishedWith, finishedWith, List.countP_append, List.countP_singleton]
    cases e with
    | call e =>
      cases e with
      -- a call that starts counts its kind, never an outcome
      | start w query =>
        have hnone : (dbServerClassifyQuery query).counters.count c = 0 := by
          cases outcome <;> cases hc <;> cases dbServerClassifyQuery query <;> rfl
        exact congrArg _ hnone
      -- a call that ends counts its outcome once
      | finish w query execution =>
        have hone : execution.outcome.counters.count c =
            if decide (execution.outcome = outcome) = true then 1 else 0 := by
          cases outcome <;> cases hc <;> cases execution.outcome <;> rfl
        exact congrArg _ hone
      | _ => rfl
    | recordQueueFull =>
      have hnone : [MetricsCounter.requests, .errors, .queueFull].count c = 0 := by
        cases outcome <;> cases hc <;> rfl
      exact congrArg _ hnone
    | recordHealthRequest =>
      have hnone : [MetricsCounter.requests, .healthRequests].count c = 0 := by
        cases outcome <;> cases hc <;> rfl
      exact congrArg _ hnone
    | recordMetricsRequest =>
      have hnone : [MetricsCounter.requests, .metricsRequests].count c = 0 := by
        cases outcome <;> cases hc <;> rfl
      exact congrArg _ hnone
    | getMetrics metrics => rfl

end Tally

/-! ## Runs -/

section Runs

variable {W : Type} [DecidableEq W] {s s' : System W} {e : MetricsEvent W}
  {t : List (MetricsEvent W)}

/-- Every step adds what its event says. -/
theorem MetricsStep.value (h : MetricsStep s e s') (c : MetricsCounter) :
    s'.server.metrics.value c = s.server.metrics.value c + UInt64.ofNat (e.counters.count c) := by
  cases h with
  | call hstep =>
    cases hstep with
    | start query _ => exact value_queryStarted (dbServerClassifyQuery query) _ c
    | @finish w query execution _ => exact value_queryFinished execution _ c
    | _ => exact (UInt64.add_zero _).symm
  | recordHealthRequest => cases c <;> first | rfl | exact (UInt64.add_zero _).symm
  | recordMetricsRequest => cases c <;> first | rfl | exact (UInt64.add_zero _).symm
  | recordQueueFull => cases c <;> first | rfl | exact (UInt64.add_zero _).symm
  | getMetrics => exact (UInt64.add_zero _).symm

/-- Every counter counts its events, modulo `2 ^ 64`. -/
theorem MetricsRun.value (h : MetricsRun t s) (c : MetricsCounter) :
    s.server.metrics.value c = UInt64.ofNat (tally t c) := by
  induction h with
  | init => cases c <;> rfl
  | step _ hstep ih => rw [hstep.value, ih, tally_append, UInt64.ofNat_add]

/-! ## Active queries -/

/-- The workers that are in a call. -/
def System.inFlight (s : System W) : Set W := {w | s.phase w ≠ .idle}

omit [DecidableEq W] in
theorem System.mem_inFlight {w : W} : w ∈ s.inFlight ↔ s.phase w ≠ .idle := Iff.rfl

/-- What a step does to the workers in a call and to the active queries. -/
inductive ActiveSpec (s s' : System W) : MetricsEvent W → Prop
  -- a worker joins the calls in flight
  | start {w : W} {query : Cursor} : w ∉ s.inFlight → s'.inFlight = insert w s.inFlight →
      s'.server.metrics.activeQueryRequests = s.server.metrics.activeQueryRequests + 1 →
      ActiveSpec s s' (.call (.start w query))
  -- a worker leaves them; the guard of the source is kept
  | finish {w : W} {query : Cursor} {execution : DBServerExecution} : w ∈ s.inFlight →
      s'.inFlight = s.inFlight \ {w} →
      s'.server.metrics.activeQueryRequests =
        (if s.server.metrics.activeQueryRequests > 0 then
          s.server.metrics.activeQueryRequests - 1
        else s.server.metrics.activeQueryRequests) →
      ActiveSpec s s' (.call (.finish w query execution))
  -- no other step touches the gauge
  | other {e : MetricsEvent W} : startedCalls [e] = 0 → finishedCalls [e] = 0 →
      s'.inFlight = s.inFlight →
      s'.server.metrics.activeQueryRequests = s.server.metrics.activeQueryRequests →
      ActiveSpec s s' e

private theorem inFlight_enter {w : W} {phase : CallPhase} (hold : s.phase w ≠ .idle)
    (hnew : phase ≠ .idle) : (s.enter w phase).inFlight = s.inFlight := by
  ext v
  by_cases hv : v = w
  · subst hv
    exact iff_of_true (by rwa [System.mem_inFlight, System.enter_phase_self]) hold
  · rw [System.mem_inFlight, s.enter_phase_other phase fun h => hv h.symm]
    rfl

/-- A worker that goes on with its call. -/
private theorem activeSpec_of_enter {w : W} {phase : CallPhase} {ce : CallEvent W}
    (hphase : s'.phase = (s.enter w phase).phase) (hold : s.phase w ≠ .idle) (hnew : phase ≠ .idle)
    (hmetrics : s'.server.metrics = s.server.metrics)
    (hstart : startedCalls [MetricsEvent.call ce] = 0)
    (hfinish : finishedCalls [MetricsEvent.call ce] = 0) : ActiveSpec s s' (.call ce) := by
  refine .other hstart hfinish ?_ (by rw [hmetrics])
  rw [← inFlight_enter hold hnew, System.inFlight, System.inFlight, hphase]

theorem MetricsStep.active (h : MetricsStep s e s') : ActiveSpec s s' e := by
  cases h with
  | call hstep =>
    cases hstep with
    | @start w query hidle =>
      -- the worker that starts is the only one that joins the set
      refine .start (fun hw => hw hidle) ?_ ?_
      · ext v
        by_cases hv : v = w
        · subst hv
          refine iff_of_true ?_ (Set.mem_insert _ _)
          rw [System.mem_inFlight, System.setMetrics_phase, System.enter_phase_self]
          exact nofun
        · rw [Set.mem_insert_iff, or_iff_right hv, System.mem_inFlight,
            System.setMetrics_phase, s.enter_phase_other _ fun h => hv h.symm]
          rfl
      · show (dbServerMetricsQueryStarted _ s.server.metrics).activeQueryRequests = _
        cases dbServerClassifyQuery query <;> rfl
    | @finish w query execution hfinishing =>
      -- the worker that ends is the only one that leaves it
      refine .finish (fun h => ?_) ?_ ?_
      · rw [hfinishing] at h
        cases h
      · ext v
        by_cases hv : v = w
        · subst hv
          refine iff_of_false (fun h => ?_) fun h => h.2 rfl
          rw [System.mem_inFlight, System.setMetrics_phase, System.enter_phase_self] at h
          exact h rfl
        · rw [Set.mem_sdiff, Set.mem_singleton_iff, and_iff_left hv, System.mem_inFlight,
            System.setMetrics_phase, s.enter_phase_other _ fun h => hv h.symm]
          rfl
      · exact active_queryFinished execution s.server.metrics
    | @refuse w query hphase _ | @retry w query hphase | @timeout w query hphase
    | @acquire w query _ hphase _ | @operation w query _ _ _ hphase _
    | @release w query _ hphase =>
      -- every other step of a call leaves the worker in flight and the gauge alone
      exact activeSpec_of_enter (w := w) rfl (by rw [hphase]; exact nofun) nofun rfl rfl rfl
  | recordHealthRequest | recordMetricsRequest | recordQueueFull | getMetrics =>
    exact .other rfl rfl rfl rfl

/-- The workers in a call are those that started one and did not finish it. -/
theorem MetricsRun.inFlight (h : MetricsRun t s) :
    s.inFlight.Finite ∧ startedCalls t = finishedCalls t + s.inFlight.ncard := by
  induction h with
  | init =>
    have hempty : (System.init : System W).inFlight = ∅ := by
      ext w
      exact iff_of_false (fun h => h rfl) (Set.notMem_empty w)
    rw [hempty]
    exact ⟨Set.finite_empty, by rw [Set.ncard_empty]; rfl⟩
  -- both sides change by the same event: a start adds a worker, an end removes one
  | @step t s s' e _ hstep ih =>
    obtain ⟨hfinite, hcount⟩ := ih
    have hstarted : startedCalls (t ++ [e]) = startedCalls t + startedCalls [e] :=
      List.countP_append ..
    have hfinished : finishedCalls (t ++ [e]) = finishedCalls t + finishedCalls [e] :=
      List.countP_append ..
    rw [hstarted, hfinished, hcount]
    cases hstep.active with
    | @start w query hw hset _ =>
      rw [hset, Set.ncard_insert_of_notMem hw hfinite]
      exact ⟨hfinite.insert w, rfl⟩
    | @finish w query execution hw hset _ =>
      rw [hset]
      refine ⟨hfinite.sdiff, ?_⟩
      have hcard := Set.ncard_sdiff_singleton_add_one hw hfinite
      have hone : finishedCalls [MetricsEvent.call (.finish w query execution)] = 1 := rfl
      have hzero : startedCalls [MetricsEvent.call (.finish w query execution)] = 0 := rfl
      omega
    | other hstart hfinish hset _ =>
      rw [hset, hstart, hfinish]
      exact ⟨hfinite, by omega⟩

/-- There were never `2 ^ 64` calls at the same time. -/
def CallsFit (t : List (MetricsEvent W)) : Prop :=
  ∀ t', t' <+: t → startedCalls t' < finishedCalls t' + 2 ^ 64

/-- The counter of active queries is the number of workers in a call; the guard of its
decrement never fails. -/
theorem MetricsRun.active (h : MetricsRun t s) (hfit : CallsFit t) :
    s.server.metrics.activeQueryRequests.toNat = s.inFlight.ncard := by
  induction h with
  | init =>
    have hcount := (MetricsRun.init (W := W)).inFlight.2
    have hzero : 0 = 0 + (System.init : System W).inFlight.ncard := hcount
    rw [Nat.zero_add] at hzero
    exact hzero
  | @step t s s' e hrun hstep ih =>
    have hold := ih fun t' ht' => hfit t' (ht'.trans (List.prefix_append t [e]))
    have hbound := hfit (t ++ [e]) (List.prefix_refl _)
    rw [(hrun.step hstep).inFlight.2] at hbound
    have hfinite := hrun.inFlight.1
    cases hstep.active with
    | start hw hset hactive =>
      rw [hset, Set.ncard_insert_of_notMem hw hfinite] at hbound ⊢
      rw [hactive, UInt64.toNat_add, hold, UInt64.toNat_one, Nat.mod_eq_of_lt (by omega)]
    | finish hw hset hactive =>
      have hcard := Set.ncard_sdiff_singleton_add_one hw hfinite
      -- the gauge counts this worker, so the guard against an empty gauge passes
      have hpos : s.server.metrics.activeQueryRequests > 0 := by
        rw [gt_iff_lt, UInt64.lt_iff_toNat_lt, hold, UInt64.toNat_zero]
        omega
      have hone : (1 : UInt64) ≤ s.server.metrics.activeQueryRequests := by
        rw [UInt64.le_iff_toNat_le, hold, UInt64.toNat_one]
        omega
      rw [hset, hactive, if_pos hpos, UInt64.toNat_sub_of_le _ _ hone, hold, UInt64.toNat_one]
      omega
    | other _ _ hset hactive => rw [hset, hactive, hold]

/-! ## The balance -/

/-- The balances of a snapshot. Sums are sums of 64-bit counters. -/
structure Balanced (t : List (MetricsEvent W)) (s : System W) (metrics : DBServerMetrics) :
    Prop where
  requests : metrics.totalRequests = metrics.totalHealthRequests + metrics.totalMetricsRequests +
    metrics.totalQueryRequests + metrics.totalQueueFull
  errors : metrics.totalErrors = metrics.totalSyntaxErrors + metrics.totalQueryErrors +
    metrics.totalInternalErrors + metrics.totalLockTimeouts + metrics.totalQueueFull
  kinds : startedCalls t < 2 ^ 64 →
    metrics.totalSelectRequests.toNat + metrics.totalInsertRequests.toNat ≤
      metrics.totalQueryRequests.toNat
  active : CallsFit t → metrics.activeQueryRequests.toNat = s.inFlight.ncard
  /-- Every finished query was counted once, as its outcome says; one that went well was not. -/
  outcomes : ∀ outcome c, outcome.counter = some c →
    metrics.value c = UInt64.ofNat (finishedWith outcome t)

/-- Every snapshot balances. -/
theorem MetricsRun.balanced (h : MetricsRun t s) {metrics : DBServerMetrics}
    (hget : MetricsStep s (.getMetrics metrics) s') : Balanced t s metrics := by
  obtain rfl : metrics = s.server.metrics := by
    cases hget
    rfl
  have hvalue := h.value
  constructor
  · -- two of the equations are modulo 2^64, whatever was counted
    have hsum := congrArg UInt64.ofNat (tally_requests t)
    simp only [UInt64.ofNat_add, ← hvalue] at hsum
    exact hsum
  · have hsum := congrArg UInt64.ofNat (tally_errors t)
    simp only [UInt64.ofNat_add, ← hvalue] at hsum
    exact hsum
  · -- the third is about natural numbers, so its counters have to fit
    intro hfit
    have hkinds := tally_kinds t
    have hqueries := tally_queries t
    have htoNat (c : MetricsCounter) (hc : tally t c < 2 ^ 64) :
        (s.server.metrics.value c).toNat = tally t c := by
      rw [hvalue, UInt64.toNat_ofNat_of_lt' hc]
    have hselect := htoNat .selectRequests (by omega)
    have hinsert := htoNat .insertRequests (by omega)
    have hquery := htoNat .queryRequests (by omega)
    rw [← hselect, ← hinsert, ← hquery] at hkinds
    exact hkinds
  · exact h.active
  · intro outcome c hc
    rw [hvalue, tally_outcome hc]

end Runs

/-! ## Counters wrap -/

section Wrap

private abbrev readQuery : Cursor := bytes "SELECT"

private theorem classify_readQuery : dbServerClassifyQuery readQuery = .read := by decide

/-- A call that does not get the lock, up to its end. -/
private theorem run_timeout {W : Type} [DecidableEq W] {t : List (MetricsEvent W)} {s : System W}
    (h : MetricsRun t s) {w : W} (hw : s.phase w = .trying readQuery) :
    ∃ s', MetricsRun (t ++ [.call (.refuse w)] ++ [.call (.timeout w readQuery)]) s' ∧
      s'.phase w = .finishing readQuery (dbServerTimeout (dbServerBegin readQuery)) ∧
      s'.server.metrics = s.server.metrics := by
  have hkind : dbServerClassifyQuery readQuery ≠ .none := by
    rw [classify_readQuery]
    exact nofun
  have hrefuse := h.step (.call (.refuse hw hkind))
  exact ⟨_, hrefuse.step (.call (.timeout (System.enter_phase_self ..))),
    System.enter_phase_self .., rfl⟩

/-- A snapshot after a health request and a query that got no lock. -/
theorem MetricsRun.balanced_timeout :
    let query := bytes "SELECT"
    let execution := dbServerTimeout (dbServerBegin query)
    ∃ (s : System Unit) (metrics : DBServerMetrics),
      Balanced [.recordHealthRequest, .call (.start () query), .call (.refuse ()),
        .call (.timeout () query), .call (.finish () query execution)] s metrics := by
  intro query execution
  obtain ⟨s₀, hhealth, hidle⟩ : ∃ s : System Unit, MetricsRun [.recordHealthRequest] s ∧
      s.phase () = .idle := ⟨_, .step .init .recordHealthRequest, rfl⟩
  have hstart := hhealth.step (.call (.start (w := ()) query hidle))
  obtain ⟨s, hrun, hphase, -⟩ := run_timeout (w := ()) hstart
    (System.enter_phase_self s₀ () (.trying query))
  have hfinish := hrun.step (.call (.finish (w := ()) hphase))
  exact ⟨_, _, MetricsRun.balanced hfinish .getMetrics⟩

/-- One worker, one query after the other, none of which gets the lock. -/
private theorem run_reads (n : Nat) : ∃ (t : List (MetricsEvent Unit)) (s : System Unit),
    MetricsRun t s ∧ s.phase () = .idle ∧ tally t .selectRequests = n ∧
      tally t .queryRequests = n := by
  induction n with
  | zero => exact ⟨[], _, .init, rfl, rfl, rfl⟩
  | succ n ih =>
    obtain ⟨t, s, hrun, hidle, hselect, hquery⟩ := ih
    have hstart := hrun.step (.call (.start (w := ()) readQuery hidle))
    obtain ⟨s', hrun', hphase, -⟩ := run_timeout (w := ()) hstart
      (System.enter_phase_self s () (.trying readQuery))
    have houtcome : (dbServerTimeout (dbServerBegin readQuery)).outcome = .lockTimeout := rfl
    refine ⟨_, _, hrun'.step (.call (.finish (w := ()) hphase)), System.enter_phase_self s' () .idle,
      ?_, ?_⟩ <;>
      simp only [tally_append, MetricsEvent.counters, classify_readQuery, houtcome, hselect,
        hquery] <;> rfl

/-- Any number of workers start a query. -/
private theorem run_starts (n : Nat) : ∃ (t : List (MetricsEvent Nat)) (s : System Nat),
    MetricsRun t s ∧ (∀ w, n ≤ w → s.phase w = .idle) ∧
      (∀ w < n, s.phase w = .trying readQuery) ∧ startedCalls t = n ∧ finishedCalls t = 0 ∧
      s.server.metrics.activeQueryRequests = UInt64.ofNat n := by
  induction n with
  | zero =>
    exact ⟨[], _, .init, fun _ _ => rfl, fun w hw => absurd hw (Nat.not_lt_zero w), rfl, rfl, rfl⟩
  | succ n ih =>
    obtain ⟨t, s, hrun, hidle, htrying, hstarted, hfinished, hactive⟩ := ih
    -- the next worker is idle, since only the first n have started
    have hstep := MetricsStep.call (System.Step.start readQuery (hidle n le_rfl))
    refine ⟨_, _, hrun.step hstep, fun w hw => ?_, fun w hw => ?_, ?_, ?_, ?_⟩
    · rw [System.setMetrics_phase, s.enter_phase_other _ (Nat.ne_of_lt hw)]
      exact hidle w (Nat.le_of_succ_le hw)
    · rw [System.setMetrics_phase]
      rcases Nat.lt_succ_iff_lt_or_eq.mp hw with hw | rfl
      · rw [s.enter_phase_other _ (Nat.ne_of_gt hw)]
        exact htrying w hw
      · exact System.enter_phase_self ..
    · rw [startedCalls, List.countP_append]
      exact congrArg (· + 1) hstarted
    · rw [finishedCalls, List.countP_append]
      exact hfinished
    · cases hstep.active with
      | start _ _ hactive' => rw [hactive', hactive, UInt64.ofNat_add]; rfl
      | other hnone _ _ _ => cases hnone

/-- After `2 ^ 64 - 1` reads and one other query the number of queries is zero again; and when
`2 ^ 64` queries are in flight, the first one to finish leaves the counter at zero. -/
theorem MetricsRun.unbalanced :
    (∃ (t : List (MetricsEvent Unit)) (s s' : System Unit) (metrics : DBServerMetrics),
      MetricsRun t s ∧ MetricsStep s (.getMetrics metrics) s' ∧
      ¬ metrics.totalSelectRequests.toNat + metrics.totalInsertRequests.toNat ≤
        metrics.totalQueryRequests.toNat) ∧
    ∃ (t : List (MetricsEvent Nat)) (s s' : System Nat) (metrics : DBServerMetrics),
      MetricsRun t s ∧ MetricsStep s (.getMetrics metrics) s' ∧
      metrics.activeQueryRequests = 0 ∧ s.inFlight.ncard = 2 ^ 64 - 1 := by
  constructor
  · -- one query of no kind brings the total past 2^64 and the SELECTs not
    obtain ⟨t, s, hrun, hidle, hselect, hquery⟩ := run_reads (2 ^ 64 - 1)
    obtain ⟨s', hrun'⟩ : ∃ s', MetricsRun (t ++ [.call (.start () [])]) s' :=
      ⟨_, hrun.step (.call (.start [] hidle))⟩
    have hkind : dbServerClassifyQuery [] = .none := by decide
    have hselect' := hrun'.value .selectRequests
    have hquery' := hrun'.value .queryRequests
    rw [tally_append, MetricsEvent.counters, hkind, hselect] at hselect'
    rw [tally_append, MetricsEvent.counters, hkind, hquery] at hquery'
    have hzero : (dbServerGetMetrics s'.server).totalQueryRequests = 0 := hquery'
    have hmany : (dbServerGetMetrics s'.server).totalSelectRequests.toNat = 2 ^ 64 - 1 :=
      (congrArg UInt64.toNat hselect').trans (UInt64.toNat_ofNat_of_lt' (by decide))
    refine ⟨_, s', _, _, hrun', .getMetrics, ?_⟩
    rw [hzero, hmany, UInt64.toNat_zero]
    omega
  · obtain ⟨t, s, hrun, -, htrying, hstarted, hfinished, hactive⟩ := run_starts (2 ^ 64)
    obtain ⟨s', hrun', hphase, hmetrics⟩ := run_timeout hrun (htrying 0 (by decide))
    have hstep := MetricsStep.call (System.Step.finish hphase)
    have hrun'' := hrun'.step hstep
    refine ⟨_, _, _, _, hrun'', .getMetrics, ?_, ?_⟩
    · -- the guard takes the wrapped counter for an empty one
      cases hstep.active with
      | finish _ _ hactive' =>
        have hwrapped : s'.server.metrics.activeQueryRequests = 0 := by
          rw [hmetrics, hactive]
          rfl
        rw [hwrapped] at hactive'
        exact hactive'
      | other _ hnone _ _ => cases hnone
    · have hcount := hrun''.inFlight.2
      simp only [startedCalls, finishedCalls, List.countP_append] at hcount hstarted hfinished
      rw [hstarted, hfinished] at hcount
      have hone : 2 ^ 64 = 1 + (System.inFlight _).ncard := hcount
      omega

end Wrap

end SqlApi.Server

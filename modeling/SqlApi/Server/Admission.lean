import SqlApi.Server.Connections
import SqlApi.Server.NoLostWakeup

/-!
# Who is served, and when

The main thread and the workers share the queue of connections in critical sections, so a run of
the server is a run of the queue. Workers take the connections in the order in which they were
accepted, a connection is rejected only when the queue is full, and `--max-requests` bounds the
number of connections that are accepted at all.

## How the proof goes

`QueueTrace` is the run of the queue that a run of the server contains: every step of the server is
one critical section or none. What is accepted, taken and rejected is read off that run. For the
bound, a connection that is accepted is counted, waits, or is owed a response by some thread
(`Owing`); the accept loop ends at the count that reaches the limit.
-/

namespace SqlApi.Server

open SqlApi.Lib

variable {options : HTTPServerOptions} {spurious : Prop} {s s' : ServerState}
  {e : Option ServerEvent} {t : List ServerEvent}

/-! ## The queue of a running server -/

/-- The connection that an event accepts. -/
def ServerEvent.accepted : ServerEvent → Option HTTPSocket
  | .accept c => some c
  | _ => none

/-- The connection that a worker takes out of the queue. -/
def ServerEvent.taken : ServerEvent → Option HTTPSocket
  | .serve (.worker _) c => some c
  | _ => none

/-- The connection that the main thread rejects. -/
def ServerEvent.rejected : ServerEvent → Option HTTPSocket
  | .serve .main c => some c
  | _ => none

/-- The socket that a critical section offers to the queue, and whether it was pushed. -/
def QueueSection.offered {T : Type} : QueueSection T → Option (HTTPSocket × Bool)
  | .push _ c pushed => some (c, pushed)
  | _ => none

/-- A step as a critical section of the queue, if it has one. -/
structure QueueUse (s s' : ServerState) (e : Option ServerEvent)
    (critical : Option (QueueSection ServerThread)) : Prop where
  step : ∀ x ∈ critical, QueueStep s.queue x s'.queue
  same : critical = none → s'.queue = s.queue
  /-- What was accepted is with the main thread until it is offered. -/
  offered : s.main.received.toList ++ (e.bind ServerEvent.accepted).toList =
    (critical.bind QueueSection.offered).toList.map Prod.fst ++ s'.main.received.toList
  taken : e.bind ServerEvent.taken = critical.bind QueueSection.popped
  rejected : (e.bind ServerEvent.rejected).toList =
    ((critical.bind QueueSection.offered).toList.filter fun offer => !offer.2).map Prod.fst

/-- A step that leaves the queue alone. -/
private theorem queueUse_none (hqueue : s'.queue = s.queue)
    (haccepted : s.main.received.toList ++ (e.bind ServerEvent.accepted).toList =
      s'.main.received.toList) (htaken : e.bind ServerEvent.taken = none)
    (hrejected : e.bind ServerEvent.rejected = none) : QueueUse s s' e none := by
  refine ⟨?_, fun _ => hqueue, haccepted, htaken, ?_⟩
  · rintro x ⟨⟩
  · rw [hrejected]
    rfl

/-- The event of a call of a handler is about none of this. -/
private theorem event_accepted_none (thread : ServerThread) (c : HTTPSocket) (o : HandlerOp) :
    (o.event thread c).bind ServerEvent.accepted = none ∧
      (o.event thread c).bind ServerEvent.taken = none ∧
      (o.event thread c).bind ServerEvent.rejected = none := by
  cases o <;> exact ⟨rfl, rfl, rfl⟩

/-- Every step of the server is at most one critical section of the queue. -/
theorem ServerStep.queueUse (h : ServerStep options spurious s e s') (hs : ServerInv options s) :
    ∃ critical, QueueUse s s' e critical := by
  cases h with
  | @pushSignal c w queue hmain _ hpush _ =>
    refine ⟨some (.push .main c true), ?_, by rintro ⟨⟩, ?_, rfl, rfl⟩
    · rintro x ⟨⟩
      exact .push _ (hs.valid c hmain) hpush
    · rw [hmain]
      rfl
  | @pushNoWaiter c queue hmain _ hpush _ =>
    refine ⟨some (.push .main c true), ?_, by rintro ⟨⟩, ?_, rfl, rfl⟩
    · rintro x ⟨⟩
      exact .push _ (hs.valid c hmain) hpush
    · rw [hmain]
      rfl
  | @pushRefused c queue hmain _ hpush =>
    refine ⟨some (.push .main c false), ?_, by rintro ⟨⟩, ?_, rfl, rfl⟩
    · rintro x ⟨⟩
      exact .push _ (hs.valid c hmain) hpush
    · rw [hmain]
      rfl
  | @take w c queue _ hwait htake hc =>
    refine ⟨some (.pop (.worker w) c), ?_, by rintro ⟨⟩, List.append_nil _, ?_, rfl⟩
    · rintro x ⟨⟩
      exact .pop _ hwait htake
    · exact (if_neg hc).symm
  | @takeNone w queue _ hwait htake =>
    refine ⟨some (.pop (.worker w) httpInvalidSocket), ?_, by rintro ⟨⟩, List.append_nil _,
      rfl, rfl⟩
    rintro x ⟨⟩
    exact .pop _ hwait htake
  | raiseShuttingDown hmain =>
    -- the flag is raised outside of the mutex, with the effect of a shutdown
    refine ⟨some (.shutdown .main), ?_, by rintro ⟨⟩, ?_, rfl, rfl⟩
    · rintro x ⟨⟩
      exact .shutdown _
    · rw [hmain]
      rfl
  | shutdown hmain _ =>
    refine ⟨some (.shutdown .main), ?_, by rintro ⟨⟩, ?_, rfl, rfl⟩
    · rintro x ⟨⟩
      exact .shutdown _
    · rw [hmain]
      rfl
  | accept hmain _ _ =>
    refine ⟨none, queueUse_none rfl ?_ rfl rfl⟩
    rw [hmain]
    rfl
  | @reject c o k answer hmain =>
    obtain ⟨haccepted, htaken, hrejected⟩ := event_accepted_none .main c o
    refine ⟨none, queueUse_none (ServerState.afterOp_queue options s o) ?_ htaken hrejected⟩
    rw [haccepted, hmain]
    rfl
  | @handle w c o k answer _ =>
    obtain ⟨haccepted, htaken, hrejected⟩ := event_accepted_none (.worker w) c o
    refine ⟨none, queueUse_none (ServerState.afterOp_queue options s o) ?_ htaken hrejected⟩
    rw [haccepted]
    exact (List.append_nil _).trans
      (congrArg (fun main => main.received.toList) (ServerState.afterOp_main options s o).symm)
  | create hmain _ | createFails hmain _ | joinBack hmain _ | returnFailure hmain | created hmain
  | listenFails hmain | listen hmain | stop hmain _ | goOn hmain _ | selectFails hmain
  | selectTimeout hmain | selectReady hmain | acceptFails hmain | closeRejected hmain
  | join hmain _ _ | joined hmain =>
    refine ⟨none, queueUse_none rfl ?_ rfl rfl⟩
    rw [hmain]
    rfl
  | _ => exact ⟨none, queueUse_none rfl (List.append_nil _) rfl rfl⟩

/-- A run of the server with the critical sections of its queue. -/
structure QueueTrace (options : HTTPServerOptions) (t : List ServerEvent) (s : ServerState)
    (sections : List (QueueSection ServerThread)) : Prop where
  run : ∃ items queue₀, items.length = options.queueCapacity ∧
    httpRequestQueueInit options.queueCapacity (some items) true true = some queue₀ ∧
    QueueRun queue₀ sections s.queue
  accepted : t.filterMap ServerEvent.accepted =
    (sections.filterMap QueueSection.offered).map Prod.fst ++ s.main.received.toList
  taken : t.filterMap ServerEvent.taken = sections.filterMap QueueSection.popped
  rejected : t.filterMap ServerEvent.rejected =
    ((sections.filterMap QueueSection.offered).filter fun offer => !offer.2).map Prod.fst

private theorem filterMap_append_toList {α β : Type} (f : α → Option β) (l : List α)
    (a : Option α) : (l ++ a.toList).filterMap f = l.filterMap f ++ (a.bind f).toList := by
  rw [List.filterMap_append]
  cases a with
  | none => rfl
  | some a =>
    rw [Option.toList_some, Option.bind_some]
    cases hf : f a with
    | none => rw [List.filterMap_cons_none hf, List.filterMap_nil, Option.toList_none]
    | some b => rw [List.filterMap_cons_some hf, List.filterMap_nil, Option.toList_some]

/-- Every run of the server is a run of its queue. -/
theorem ServerRun.queueTrace (h : ServerRun options spurious t s) :
    ∃ sections, QueueTrace options t s sections := by
  induction h with
  | @start items s hitems hstart =>
    obtain ⟨-, queue, hqueue, rfl⟩ := httpServerStart_eq_some hstart
    exact ⟨[], ⟨items, queue, hitems, hqueue, .init⟩, rfl, rfl, rfl⟩
  | @step t s s' e hrun hstep ih =>
    obtain ⟨sections, ⟨items, queue₀, hitems, hinit, hqueue⟩, haccepted, htaken, hrejected⟩ := ih
    obtain ⟨critical, huse⟩ := hstep.queueUse hrun.inv
    refine ⟨sections ++ critical.toList, ⟨items, queue₀, hitems, hinit, ?_⟩, ?_, ?_, ?_⟩
    · cases critical with
      | none =>
        rw [Option.toList_none, List.append_nil, huse.same rfl]
        exact hqueue
      | some x => exact hqueue.step (huse.step x rfl)
    · rw [filterMap_append_toList, filterMap_append_toList, List.map_append, haccepted,
        List.append_assoc, List.append_assoc, huse.offered]
    · rw [filterMap_append_toList, filterMap_append_toList, htaken, huse.taken]
    · rw [filterMap_append_toList, filterMap_append_toList, List.filter_append, List.map_append,
        hrejected, huse.rejected]

/-- The sockets pushed are those offered with success. -/
private theorem filterMap_pushed {T : Type} (sections : List (QueueSection T)) :
    sections.filterMap QueueSection.pushed =
      ((sections.filterMap QueueSection.offered).filter Prod.snd).map Prod.fst := by
  induction sections with
  | nil => rfl
  | cons x sections ih =>
    cases x with
    | push thread c pushed =>
      cases pushed with
      | true => exact congrArg (c :: ·) ih
      | false => exact ih
    | _ => exact ih

/-- What the queue holds: the sockets pushed and not yet popped, no more than it has room for. -/
theorem QueueTrace.pending {sections : List (QueueSection ServerThread)}
    (h : QueueTrace options t s sections) :
    ((sections.filterMap QueueSection.offered).filter Prod.snd).map Prod.fst =
      t.filterMap ServerEvent.taken ++ s.queue.pending ∧
    s.queue.pending.length ≤ options.queueCapacity ∧ s.queue.capacity = options.queueCapacity := by
  obtain ⟨items, queue₀, hitems, hinit, hrun⟩ := h.run
  obtain ⟨hempty, hcapacity, hopen⟩ := HTTPRequestQueue.holds_init hitems hinit
  obtain ⟨hsame, q, hqueue, hq⟩ := hrun.refines ⟨hempty, hopen⟩
  have horder := hqueue.order
  rw [List.filterMap_filterMap, List.filterMap_filterMap] at horder
  simp only [event_accepted, event_delivered] at horder
  have hle := hqueue.length_le
  rw [hcapacity, ← hq.holds.pending] at hle
  refine ⟨?_, hle, hsame.trans hcapacity⟩
  rw [← filterMap_pushed, horder, h.taken, hq.holds.pending]

/-- The end of the main thread is for good. -/
theorem ServerStep.staysDown (h : ServerStep options spurious s e s') (hdown : s.main.Down) :
    s'.main.Down := by
  cases h with
  | create hmain _ | createFails hmain _ | raiseShuttingDown hmain | created hmain
  | listenFails hmain | listen hmain | stop hmain _ | goOn hmain _ | selectFails hmain
  | selectTimeout hmain | selectReady hmain | acceptFails hmain | accept hmain _ _
  | pushSignal hmain _ _ _ | pushNoWaiter hmain _ _ _ | pushRefused hmain _ _ | reject _ hmain
  | closeRejected hmain | shutdown hmain _ =>
    rw [hmain] at hdown
    exact hdown.elim
  | joinBack | returnFailure | join | joined => trivial
  | @handle _ _ o _ _ _ => exact (ServerState.afterOp_main options s o).symm ▸ hdown
  | _ => exact hdown

/-- Only the main thread shuts the queue down, at its end. -/
theorem ServerStep.shuttingDown (h : ServerStep options spurious s e s') (hs : ServerInv options s)
    (hdown : s'.queue.shuttingDown = true) : s.queue.shuttingDown = true ∨ s'.main.Down := by
  cases h with
  | raiseShuttingDown _ | shutdown _ _ => exact .inr trivial
  | @pushSignal c _ _ hmain _ hpush _ =>
    have hopen := (hs.queue.push (hs.valid c hmain) hpush).2.2.2
    exact absurd (hopen.symm.trans hdown) Bool.false_ne_true
  | @pushNoWaiter c _ hmain _ hpush _ =>
    have hopen := (hs.queue.push (hs.valid c hmain) hpush).2.2.2
    exact absurd (hopen.symm.trans hdown) Bool.false_ne_true
  | pushRefused _ _ hpush =>
    obtain rfl := hs.queue.push_false hpush
    exact .inl hdown
  | take _ _ htake hc => exact .inl ((hs.queue.take hc htake).2.2.symm.trans hdown)
  | takeNone _ hwait htake => exact .inl (hs.queue.takeNone hwait htake).2.2
  | @handle _ _ o _ _ _ => exact .inl ((ServerState.afterOp_queue options s o) ▸ hdown)
  | @reject _ o _ _ _ => exact .inl ((ServerState.afterOp_queue options s o) ▸ hdown)
  | _ => exact .inl hdown

/-- A queue that is shut down gets no connections any more. -/
theorem ServerRun.down_of_shuttingDown (h : ServerRun options spurious t s)
    (hdown : s.queue.shuttingDown = true) : s.main.Down := by
  induction h with
  | start hitems hstart =>
    obtain ⟨-, queue, hqueue, rfl⟩ := httpServerStart_eq_some hstart
    have hopen := (HTTPRequestQueue.holds_init hitems hqueue).2.2
    exact absurd (hopen.symm.trans hdown) Bool.false_ne_true
  | @step t s s' e hrun hstep ih =>
    rcases hstep.shuttingDown hrun.inv hdown with hbefore | hafter
    · exact hstep.staysDown (ih hbefore)
    · exact hafter

/-! ## First come, first served -/

/-- A connection is rejected when the queue is full. -/
theorem ServerRun.full_of_rejects (h : ServerRun options spurious t s) {c : HTTPSocket}
    (hstep : ServerStep options spurious s (some (.serve .main c)) s') :
    s.main = .pushing c ∧ s.queue.pending.length = options.queueCapacity := by
  obtain ⟨sections, htrace⟩ := h.queueTrace
  obtain ⟨-, hle, hcapacity⟩ := htrace.pending
  generalize he : some (ServerEvent.serve .main c) = e at hstep
  cases hstep with
  | @pushRefused c' queue hmain _ hpush =>
    obtain rfl : c = c' := (ServerEvent.serve.inj (Option.some.inj he)).2
    refine ⟨hmain, hle.antisymm ?_⟩
    -- the queue is open, so it has refused the connection for want of room
    have hopen : s.queue.shuttingDown ≠ true := fun hdown => by
      have hend := h.down_of_shuttingDown hdown
      rw [hmain] at hend
      exact hend
    by_contra hroom
    have hcount := h.inv.queue.holds.count
    have hfits : s.queue.count < s.queue.capacity := by omega
    obtain ⟨queue', hpush', -⟩ := h.inv.queue.holds.push (Bool.eq_false_of_not_eq_true hopen) hfits c
    rw [hpush'] at hpush
    cases hpush
  | @handle _ _ o _ _ _ => cases o <;> cases he
  | @reject _ o _ _ _ => cases o <;> cases he
  | _ => cases he

/-- The connections of a run: those accepted are those taken by workers, in the order in which they
were accepted, those rejected, and those that still wait. -/
structure ServedInOrder (options : HTTPServerOptions) (t : List ServerEvent) (s : ServerState) :
    Prop where
  order : ∃ offers : List (HTTPSocket × Bool),
    t.filterMap ServerEvent.accepted = offers.map Prod.fst ++ s.main.received.toList ∧
    (offers.filter Prod.snd).map Prod.fst =
      t.filterMap ServerEvent.taken ++ s.queue.pending ∧
    (offers.filter fun offer => !offer.2).map Prod.fst = t.filterMap ServerEvent.rejected
  waiting : s.queue.pending.length ≤ options.queueCapacity
  /-- When one is rejected the queue is full. -/
  full : ∀ t₁ c t₂, t = t₁ ++ .serve .main c :: t₂ →
    (t₁.filterMap ServerEvent.accepted).length = (t₁.filterMap ServerEvent.taken).length +
      (t₁.filterMap ServerEvent.rejected).length + options.queueCapacity + 1

/-- The number of connections accepted. -/
theorem ServerRun.length_accepted (h : ServerRun options spurious t s) :
    (t.filterMap ServerEvent.accepted).length = (t.filterMap ServerEvent.taken).length +
      (t.filterMap ServerEvent.rejected).length + s.queue.pending.length +
      s.main.received.toList.length := by
  obtain ⟨sections, htrace⟩ := h.queueTrace
  have hpending := congrArg List.length htrace.pending.1
  have haccepted := congrArg List.length htrace.accepted
  have hrejected := congrArg List.length htrace.rejected
  have hsum := (sections.filterMap QueueSection.offered).length_eq_length_filter_add Prod.snd
  simp only [List.length_map, List.length_append] at hpending haccepted hrejected
  omega

/-- Workers take the connections in the order in which they were accepted, whatever the
interleaving; no more of them wait than the queue has room for, and a connection is only rejected
while that many wait. -/
theorem ServerRun.served_in_order (h : ServerRun options spurious t s) :
    ServedInOrder options t s := by
  obtain ⟨sections, htrace⟩ := h.queueTrace
  obtain ⟨hpending, hle, -⟩ := htrace.pending
  refine ⟨⟨_, htrace.accepted, hpending, htrace.rejected.symm⟩, hle, ?_⟩
  clear hpending hle htrace
  induction h with
  | start _ _ =>
    intro t₁ c t₂ hsplit
    cases t₁ <;> cases hsplit
  | @step t s s' e hrun hstep ih =>
    intro t₁ c t₂ hsplit
    cases e with
    | none => exact ih t₁ c t₂ (by rwa [Option.toList_none, List.append_nil] at hsplit)
    | some e =>
      rw [Option.toList_some] at hsplit
      -- the rejection is the last event, or one before it
      rcases List.eq_nil_or_concat t₂ with rfl | ⟨t₃, last, rfl⟩
      · obtain ⟨rfl, hlast⟩ := List.append_inj' hsplit rfl
        obtain rfl : e = .serve .main c := (List.cons.inj hlast).1
        obtain ⟨hmain, hfull⟩ := hrun.full_of_rejects hstep
        have hlength := hrun.length_accepted
        rw [hfull, hmain] at hlength
        exact hlength
      · rw [List.concat_eq_append, ← List.cons_append, ← List.append_assoc] at hsplit
        obtain ⟨hbefore, -⟩ := List.append_inj' hsplit rfl
        exact ih t₁ c t₃ hbefore

/-- A connection waits, and one more comes. -/
theorem ServerRun.served_in_order_full : ∃ s, ServerRun oneOptions False
    [.accept 5, .accept 6, .serve .main 6] s ∧ s.queue.pending = [5] ∧
    ServedInOrder oneOptions [.accept 5, .accept 6, .serve .main 6] s := by
  have hstart : ServerRun oneOptions False [] ⟨oneQueue 0 0 false, none, false, 0,
      fun _ => .notCreated, .creating 0, fun _ => false⟩ :=
    .start (rfl : ([0] : List HTTPSocket).length = 1) rfl
  have hlooping := ((hstart.step (.create rfl (by decide))).step (.created rfl)).step (.listen rfl)
  have hfirst := ((hlooping.step (.goOn rfl rfl)).step (.selectReady rfl)).step
    (.accept (c := 5) rfl (by decide) rfl)
  have hbusy (w : Nat) : Function.update (fun _ => WorkerPhase.notCreated) 0 .entering w ≠
      .waiting := by
    rcases eq_or_ne w 0 with rfl | hne
    · rw [Function.update_self]
      rintro ⟨⟩
    · rw [Function.update_of_ne hne]
      rintro ⟨⟩
  have hpushed := hfirst.step (.pushNoWaiter rfl rfl (one_push 0) hbusy)
  have hsecond := ((hpushed.step (.goOn rfl rfl)).step (.selectReady rfl)).step
    (.accept (c := 6) rfl (by decide) rfl)
  have hfull : httpRequestQueuePush (oneQueue 5 1 false) 6 = some (false, oneQueue 5 1 false) :=
    HTTPRequestQueue.push_refused (.inr (le_refl 1)) 6
  have hrefused := hsecond.step (.pushRefused rfl rfl hfull)
  exact ⟨_, hrefused, rfl, hrefused.served_in_order⟩

/-! ## A limited number of requests -/

/-- The threads that have not yet counted the connection they serve. -/
structure Owing (serving : ServerThread → Option (HTTPSocket × HandlerProg Unit))
    (threads : Finset ServerThread) : Prop where
  serves : ∀ thread ∈ threads, serving thread ≠ none
  counts : ∀ thread c program, serving thread = some (c, program) →
    program.Exactly HandlerOp.Counts (if thread ∈ threads then 1 else 0)

/-- A call that counts a response. -/
theorem HandlerOp.event_of_counts {o : HandlerOp} (h : o.Counts) (thread : ServerThread)
    (c : HTTPSocket) : o.event thread c = some (.count thread c) := by
  cases o with
  | noteResponseComplete => rfl
  | _ => exact h.elim

theorem HandlerOp.event_of_not_counts {o : HandlerOp} (h : ¬ o.Counts) (thread : ServerThread)
    (c : HTTPSocket) : o.event thread c = none := by
  cases o with
  | noteResponseComplete => exact absurd trivial h
  | _ => rfl

section Owing

variable {p p' : Places} {threads threads' : Finset ServerThread} {thread : ServerThread}
  {served : Option (HTTPSocket × HandlerProg Unit)}

/-- One thread goes on. -/
private theorem Owing.update (h : Owing p.serving threads)
    (hother : ∀ thread' ≠ thread, thread' ∈ threads' ↔ thread' ∈ threads)
    (hserves : thread ∈ threads' → served ≠ none)
    (hcounts : ∀ c program, served = some (c, program) →
      program.Exactly HandlerOp.Counts (if thread ∈ threads' then 1 else 0)) :
    Owing (Function.update p.serving thread served) threads' := by
  constructor
  · intro thread' hmem
    rcases eq_or_ne thread' thread with rfl | hne
    · rw [Function.update_self]
      exact hserves hmem
    · rw [Function.update_of_ne hne]
      exact h.serves thread' ((hother thread' hne).mp hmem)
  · intro thread' c program hserving
    rcases eq_or_ne thread' thread with rfl | hne
    · rw [Function.update_self] at hserving
      exact hcounts c program hserving
    · rw [Function.update_of_ne hne] at hserving
      simpa only [hother thread' hne] using h.counts thread' c program hserving

/-- A thread starts to serve a connection. -/
private theorem Owing.serve (h : Owing p.serving threads) {c : HTTPSocket}
    {program : HandlerProg Unit} (hfree : p.serving thread = none)
    (hprogram : program.Exactly HandlerOp.Counts 1) :
    Owing (Function.update p.serving thread (some (c, program))) (insert thread threads) ∧
      (insert thread threads).card = threads.card + 1 := by
  have hnew : thread ∉ threads := fun hmem => h.serves thread hmem hfree
  refine ⟨h.update ?_ ?_ ?_, Finset.card_insert_of_notMem hnew⟩
  · intro thread' hne
    rw [Finset.mem_insert, or_iff_right hne]
  · rintro - ⟨⟩
  · intro c' program' hserved
    obtain ⟨-, rfl⟩ := Prod.mk.inj (Option.some.inj hserved)
    rw [if_pos (Finset.mem_insert_self ..)]
    exact hprogram

/-- What a step does to the threads that owe a response, and the balance of connections. -/
theorem PlacesStep.owing {e : Option (LifeEvent HTTPSocket ServerThread)} (h : PlacesStep p e p')
    (hp : Owing p.serving threads) : ∃ threads', Owing p'.serving threads' ∧
      (e.toList.filter LifeEvent.isReceive).length + p.pending.length + p.received.toList.length +
        threads.card =
      (e.toList.filter LifeEvent.isCount).length + p'.pending.length +
        p'.received.toList.length + threads'.card := by
  cases h with
  -- each step moves one unit between the pieces of the sum, or changes none of them
  | same => exact ⟨threads, hp, rfl⟩
  | receive c _ hnone =>
    refine ⟨threads, hp, ?_⟩
    rw [hnone]
    change 1 + p.pending.length + 0 + threads.card = 0 + p.pending.length + 1 + threads.card
    omega
  | enqueue c hreceived =>
    refine ⟨threads, hp, ?_⟩
    rw [hreceived, List.length_append]
    change 0 + p.pending.length + 1 + threads.card = 0 + (p.pending.length + 1) + 0 + threads.card
    omega
  -- the handed connection is answered by a thread that starts to owe a response
  | refuse thread c program hreceived hfree hprogram =>
    obtain ⟨howing, hcard⟩ := hp.serve (c := c) hfree hprogram
    refine ⟨_, howing, ?_⟩
    rw [hreceived, hcard]
    change 0 + p.pending.length + 1 + threads.card = 0 + p.pending.length + 0 + (threads.card + 1)
    omega
  -- a connection leaves the queue, and the thread that took it starts to owe a response
  | take thread c rest program hpending hfree hprogram =>
    obtain ⟨howing, hcard⟩ := hp.serve (c := c) hfree hprogram
    refine ⟨_, howing, ?_⟩
    rw [hpending, hcard]
    change 0 + (rest.length + 1) + p.received.toList.length + threads.card =
      0 + rest.length + p.received.toList.length + (threads.card + 1)
    omega
  -- the thread stops to owe exactly at the operation that counts the response
  | operate thread c o k answer hserving =>
    have hcounts := hp.counts thread c _ hserving
    by_cases hcount : o.Counts
    · -- the thread owes the response that it counts
      obtain ⟨n, hn, hrest⟩ := Program.Exactly.count hcount hcounts
      have howes : thread ∈ threads := by
        by_contra hnot
        rw [if_neg hnot] at hn
        cases hn
      rw [if_pos howes] at hn
      obtain rfl : n = 0 := by omega
      refine ⟨threads.erase thread, hp.update ?_ ?_ ?_, ?_⟩
      · intro thread' hne
        rw [Finset.mem_erase, and_iff_right hne]
      · rintro - ⟨⟩
      · rintro c' program hserved
        obtain ⟨-, rfl⟩ := Prod.mk.inj (Option.some.inj hserved)
        rw [if_neg (Finset.notMem_erase thread threads)]
        exact hrest answer
      · have hcard := Finset.card_erase_add_one howes
        rw [HandlerOp.event_of_counts hcount]
        change 0 + p.pending.length + p.received.toList.length + threads.card =
          1 + p.pending.length + p.received.toList.length + (threads.erase thread).card
        omega
    · rw [HandlerOp.event_of_not_counts hcount]
      refine ⟨threads, hp.update (fun _ _ => Iff.rfl) ?_ ?_, rfl⟩
      · rintro - ⟨⟩
      · rintro c' program hserved
        obtain ⟨-, rfl⟩ := Prod.mk.inj (Option.some.inj hserved)
        exact Program.Exactly.other hcount hcounts answer
  | release thread c r hserving =>
    have hcounts := hp.counts thread c _ hserving
    -- a handler that has returned has counted its response, so it owes none
    have hnot : thread ∉ threads := fun hmem => by
      rw [if_pos hmem] at hcounts
      exact absurd hcounts one_ne_zero
    refine ⟨threads, hp.update (fun _ _ => Iff.rfl) (fun hmem => absurd hmem hnot) ?_, rfl⟩
    rintro c' program ⟨⟩

end Owing

/-- The connections accepted are those counted, and those on their way. -/
theorem ServerRun.owing (h : ServerRun options spurious t s) :
    ∃ threads, Owing s.serving threads ∧ acceptedConnections t = countedConnections t +
      s.queue.pending.length + s.main.received.toList.length + threads.card := by
  induction h with
  | start hitems hstart =>
    have hempty := pending_start hitems hstart
    obtain ⟨-, queue, -, rfl⟩ := httpServerStart_eq_some hstart
    refine ⟨∅, ⟨?_, ?_⟩, ?_⟩
    · rintro thread hmem
      exact absurd hmem (Finset.notMem_empty thread)
    · intro thread c program hserving
      cases thread <;> cases hserving
    · rw [hempty]
      rfl
  | @step t s s' e hrun hstep ih =>
    obtain ⟨threads, howing, hcount⟩ := ih
    have hplaces : s.places.serving = s.serving := rfl
    obtain ⟨threads', howing', hbalance⟩ := (hstep.places hrun.inv).owing (hplaces ▸ howing)
    refine ⟨threads', howing', ?_⟩
    change _ + s.queue.pending.length + s.main.received.toList.length + threads.card =
      _ + s'.queue.pending.length + s'.main.received.toList.length + threads'.card at hbalance
    rw [acceptedConnections, countedConnections] at hcount ⊢
    rw [connectionEvents_append, List.filter_append, List.filter_append, List.length_append,
      List.length_append]
    omega

/-- Only workers that were created, and the main thread, owe a response. -/
theorem Owing.card_le {threads : Finset ServerThread} (h : Owing s.serving threads)
    (hrun : ServerRun options spurious t s) (hmain : s.main.serving = none) :
    threads.card ≤ options.workerCount := by
  have hsub : threads ⊆ (Finset.range options.workerCount).image ServerThread.worker := by
    intro thread hmem
    have hserving := h.serves thread hmem
    cases thread with
    | main => exact absurd hmain hserving
    | worker w =>
      refine Finset.mem_image_of_mem _ (Finset.mem_range.mpr ?_)
      by_contra hge
      refine hserving ?_
      change (s.worker w).serving = none
      rw [hrun.inv.notCreated w (hrun.createdWorkers_le.trans (not_lt.mp hge))]
      rfl
  calc threads.card ≤ ((Finset.range options.workerCount).image ServerThread.worker).card :=
        Finset.card_le_card hsub
    _ ≤ (Finset.range options.workerCount).card := Finset.card_image_le
    _ = options.workerCount := Finset.card_range _

/-- How a step changes the counted responses, and the request to stop. -/
theorem ServerStep.counts (h : ServerStep options spurious s e s')
    (hstop : s'.stopRequested = false) : s.stopRequested = false ∧
      (((e.bind ServerEvent.life).toList.filter LifeEvent.isCount).length = 0 ∨
        ((e.bind ServerEvent.life).toList.filter LifeEvent.isCount).length = 1 ∧
        ¬ (0 < options.maxRequests ∧
          options.maxRequests.toUInt64 ≤ s.completedResponses + 1)) := by
  have hop {o : HandlerOp} {thread : ServerThread} {c : HTTPSocket}
      (hstop : (s.afterOp options o).stopRequested = false) : s.stopRequested = false ∧
      ((((o.event thread c).bind ServerEvent.life).toList.filter LifeEvent.isCount).length = 0 ∨
        (((o.event thread c).bind ServerEvent.life).toList.filter LifeEvent.isCount).length = 1 ∧
        ¬ (0 < options.maxRequests ∧
          options.maxRequests.toUInt64 ≤ s.completedResponses + 1)) := by
    cases o with
    | noteResponseComplete =>
      have hor : (s.stopRequested || (decide (0 < options.maxRequests) &&
        decide (options.maxRequests.toUInt64 ≤ s.completedResponses + 1))) = false := hstop
      rw [Bool.or_eq_false_iff, Bool.and_eq_false_iff, decide_eq_false_iff_not,
        decide_eq_false_iff_not] at hor
      exact ⟨hor.1, .inr ⟨rfl, fun hreached => hor.2.elim (· hreached.1) (· hreached.2)⟩⟩
    | _ => exact ⟨hstop, .inl rfl⟩
  cases h with
  | signal | createFails | listenFails => cases hstop
  | handle answer _ => exact hop hstop
  | reject answer _ => exact hop hstop
  | _ => exact ⟨hstop, .inl rfl⟩

/-- As long as nobody asked the server to stop, fewer responses than requested were counted. -/
theorem ServerRun.counted_lt (h : ServerRun options spurious t s) (hmax : 0 < options.maxRequests)
    (hstop : s.stopRequested = false) : countedConnections t < options.maxRequests.toNat := by
  induction h with
  | start _ hstart => exact UInt32.lt_iff_toNat_lt.mp hmax
  | @step t s s' e hrun hstep ih =>
    obtain ⟨hbefore, hcount⟩ := hstep.counts hstop
    have hlt := ih hbefore
    rw [countedConnections, connectionEvents_append, List.filter_append, List.length_append]
    change countedConnections t + _ < _
    rcases hcount with hnone | ⟨hone, hnot⟩
    · omega
    · have hcompleted := hrun.completed
      rw [hcompleted, ← UInt64.ofNat_one, ← UInt64.ofNat_add, not_and, UInt64.le_iff_toNat_le,
        UInt32.toNat_toUInt64] at hnot
      have hsmall := options.maxRequests.toNat_lt
      have hmod : (UInt64.ofNat (countedConnections t + 1)).toNat = countedConnections t + 1 :=
        UInt64.toNat_ofNat_of_lt (show countedConnections t + 1 < 2 ^ 64 by omega)
      have hbelow := hnot hmax
      rw [hmod] at hbelow
      omega

/-- The main thread waits for a connection, or is about to accept one. -/
def MainPhase.Waits : MainPhase → Prop
  | .selecting | .accepting => True
  | _ => False

/-- How the main thread comes to accept a connection. -/
theorem ServerStep.waits (h : ServerStep options spurious s e s') :
    (((e.bind ServerEvent.life).toList.filter LifeEvent.isReceive).length = 0 ∨
      ((e.bind ServerEvent.life).toList.filter LifeEvent.isReceive).length = 1 ∧
        s.main.Waits ∧ ¬ s'.main.Waits) ∧
    (s'.main.Waits → s.main.Waits ∨ s.main = .looping ∧ s.stopRequested = false) := by
  have hop {o : HandlerOp} {thread : ServerThread} {c : HTTPSocket} :
      (((o.event thread c).bind ServerEvent.life).toList.filter LifeEvent.isReceive).length = 0 := by
    cases o <;> rfl
  cases h with
  | goOn hmain hstop => exact ⟨.inl rfl, fun _ => .inr ⟨hmain, hstop⟩⟩
  | selectReady hmain => exact ⟨.inl rfl, fun _ => .inl (hmain ▸ trivial)⟩
  | accept hmain _ _ => exact ⟨.inr ⟨rfl, hmain ▸ trivial, not_false⟩, False.elim⟩
  | @handle _ _ o _ _ _ =>
    exact ⟨.inl hop, fun hwaits => .inl (ServerState.afterOp_main options s o ▸ hwaits)⟩
  | reject _ _ => exact ⟨.inl hop, False.elim⟩
  | signal | lock | testWait | wait | wakeUp | take | takeNone | closeHandled | leave | stay =>
    exact ⟨.inl rfl, .inl⟩
  | _ => exact ⟨.inl rfl, False.elim⟩

/-- A server that is asked for a number of requests accepts no more connections than that, and than
it can hold. -/
theorem ServerRun.accepted_le (h : ServerRun options spurious t s)
    (hmax : 0 < options.maxRequests) : acceptedConnections t ≤
      options.maxRequests.toNat + options.queueCapacity + options.workerCount := by
  -- while the main thread waits there is room for one more
  have hroom : acceptedConnections t ≤
      options.maxRequests.toNat + options.queueCapacity + options.workerCount ∧
      (s.main.Waits → acceptedConnections t <
        options.maxRequests.toNat + options.queueCapacity + options.workerCount) := by
    induction h with
    | start _ hstart =>
      obtain ⟨-, queue, -, rfl⟩ := httpServerStart_eq_some hstart
      exact ⟨Nat.zero_le _, False.elim⟩
    | @step t s s' e hrun hstep ih =>
      obtain ⟨hle, hlt⟩ := ih
      obtain ⟨hreceive, hwaits⟩ := hstep.waits
      have hnext : acceptedConnections (t ++ e.toList) = acceptedConnections t +
          ((e.bind ServerEvent.life).toList.filter LifeEvent.isReceive).length := by
        rw [acceptedConnections, connectionEvents_append, List.filter_append, List.length_append]
        rfl
      rcases hreceive with hnone | ⟨hone, hbefore, hafter⟩
      · rw [hnext, hnone, Nat.add_zero]
        refine ⟨hle, fun hwaits' => ?_⟩
        rcases hwaits hwaits' with hbefore | ⟨hmain, hstop⟩
        · exact hlt hbefore
        · -- the main thread has found that the server is to go on
          obtain ⟨threads, howing, hcount⟩ := hrun.owing
          obtain ⟨sections, htrace⟩ := hrun.queueTrace
          have hcounted := hrun.counted_lt hmax hstop
          have hwaiting := htrace.pending.2.1
          have hserving := howing.card_le hrun (by rw [hmain]; rfl)
          rw [hmain] at hcount
          change _ = _ + _ + 0 + _ at hcount
          omega
      · rw [hnext, hone]
        exact ⟨hlt hbefore, fun hwaits' => absurd hwaits' hafter⟩
  exact hroom.1

/-- A server for one request: it is served while a second connection waits and a third is refused.
Then the main thread stops. -/
theorem ServerRun.accepted_le_three :
    let t : List ServerEvent := [.accept 5, .serve (.worker 0) 5, .accept 6, .accept 7,
      .serve .main 7, .count (.worker 0) 5, .count .main 7, .close .main 7]
    ∃ s, ServerRun ⟨1, 1, 1⟩ False t s ∧ s.main = .shuttingDown 0 ∧ acceptedConnections t = 3 ∧
      acceptedConnections t ≤ 1 + 1 + 1 := by
  intro t
  obtain ⟨k, k', hhandler, hk, hk'⟩ := httpServerHandleClient_unread
  obtain ⟨j, j', hreject, hj, hj'⟩ : ∃ j j', httpServerReject = .call .recordQueueFull j ∧
      j () = .call (.buildErrorResponse 503 (bytes "queue_full") (bytes "Worker queue is full")) j' ∧
      j' none = .call .noteResponseComplete .ret := ⟨_, _, rfl, rfl, rfl⟩
  -- no worker waits while the only one works
  have hbusy (f : Nat → WorkerPhase) (hf : ∀ w, f w ≠ .waiting) (phase : WorkerPhase)
      (hphase : phase ≠ .waiting) (w : Nat) : Function.update f 0 phase w ≠ .waiting := by
    rcases eq_or_ne w 0 with rfl | hne
    · rwa [Function.update_self]
    · rw [Function.update_of_ne hne]
      exact hf w
  have hentering := hbusy (fun _ => .notCreated) (by simp) .entering (by simp)
  have hhandling := hbusy _ (hbusy _ hentering .testing (by simp)) (.handling 5 (.call .readRequest k))
    (by simp)
  have hstart : ServerRun ⟨1, 1, 1⟩ False [] ⟨oneQueue 0 0 false, none, false, 0,
      fun _ => .notCreated, .creating 0, fun _ => false⟩ :=
    .start (rfl : ([0] : List HTTPSocket).length = 1) rfl
  have hlooping := ((hstart.step (.create rfl (by decide))).step (.created rfl)).step (.listen rfl)
  -- the first connection goes to the worker
  have hfirst := ((hlooping.step (.goOn rfl rfl)).step (.selectReady rfl)).step
    (.accept (c := 5) rfl (by decide) rfl)
  have hpushed := hfirst.step (.pushNoWaiter rfl rfl (one_push 0) hentering)
  have htaken := (hpushed.step (.lock (w := 0) rfl rfl)).step
    (.take (w := 0) (c := 5) rfl rfl one_take (by decide))
  rw [hhandler] at htaken
  -- the second one fills the queue
  have hsecond := ((htaken.step (.goOn rfl rfl)).step (.selectReady rfl)).step
    (.accept (c := 6) rfl (by decide) rfl)
  have hpush : httpRequestQueuePush (oneQueue 5 0 false) 6 = some (true, oneQueue 6 1 false) := by
    simp [httpRequestQueuePush, oneQueue]
  have hqueued := hsecond.step (.pushNoWaiter rfl rfl hpush hhandling)
  -- the third one is refused
  have hthird := ((hqueued.step (.goOn rfl rfl)).step (.selectReady rfl)).step
    (.accept (c := 7) rfl (by decide) rfl)
  have hfull : httpRequestQueuePush (oneQueue 6 1 false) 7 = some (false, oneQueue 6 1 false) :=
    HTTPRequestQueue.push_refused (.inr (le_refl 1)) 7
  have hrefused := hthird.step (.pushRefused rfl rfl hfull)
  rw [hreject] at hrefused
  -- the worker counts the first, and so requests the stop
  have hread := hrefused.step (.handle (w := 0) (k := k) (Except.error []) rfl)
  rw [hk] at hread
  have hbuild := hread.step (.handle (w := 0) (k := k') none rfl)
  rw [hk'] at hbuild
  have hcount := hbuild.step (.handle (w := 0) () rfl)
  -- the main thread counts the third and finds the request
  have hreport := hcount.step (.reject (k := j) () rfl)
  rw [hj] at hreport
  have hbuild' := hreport.step (.reject (k := j') none rfl)
  rw [hj'] at hbuild'
  have hclose := (hbuild'.step (.reject () rfl)).step (.closeRejected rfl)
  have hstop := hclose.step (.stop rfl rfl)
  exact ⟨_, hstop, rfl, rfl, hstop.accepted_le (by decide)⟩

end SqlApi.Server

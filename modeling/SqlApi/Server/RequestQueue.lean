import SqlApi.Lib.BoundedQueue

/-!
# `http_server.c`: the request queue

The main thread pushes the sockets it accepts, workers pop them. Each function is one
critical section, apart from `http_request_queue_pop`, which is one for every test of its
loop. The functions refine a bounded queue (`QueueRun.refines`).

The ring of the source holds the list of the connections that wait (`RingBuffer.Holds`); each
critical section is a step of a bounded queue, so the run lemma of `BoundedQueue` speaks about
it.
-/

namespace SqlApi.Server

open SqlApi.Lib

/-! ## Data -/

/-- `HTTPSocket`, a file descriptor. -/
abbrev HTTPSocket : Type := Int

/-- `HTTP_INVALID_SOCKET` -/
def httpInvalidSocket : HTTPSocket := -1

/-- `struct HTTPRequestQueue`. A sum of a position and one does not wrap: positions are
below the capacity, which is a `size_t`. -/
structure HTTPRequestQueue where
  items : List HTTPSocket
  head : Nat
  tail : Nat
  count : Nat
  capacity : Nat
  shuttingDown : Bool

/-! ## Operations -/

/-- `http_request_queue_init`: `items` is what `malloc` returns, the other arguments say
whether the mutex and the condition variable were made. -/
def httpRequestQueueInit (capacity : Nat) (items : Option (List HTTPSocket))
    (mutexInit condInit : Bool) : Option HTTPRequestQueue :=
  if capacity = 0 then none
  else
    match items with
    | none => none
    | some items =>
      -- what was allocated is freed again, so nothing of it is left
      if !mutexInit then none
      else if !condInit then none
      else some ⟨items, 0, 0, 0, capacity, false⟩

/-- The critical section of `http_request_queue_shutdown`; it wakes all waiters. -/
def httpRequestQueueShutdown (queue : HTTPRequestQueue) : HTTPRequestQueue :=
  { queue with shuttingDown := true }

/-- The critical section of `http_request_queue_push`: whether the socket was pushed, which
signals one waiter. A write outside of the buffer is undefined behaviour (`none`). -/
def httpRequestQueuePush (queue : HTTPRequestQueue) (clientSocket : HTTPSocket) :
    Option (Bool × HTTPRequestQueue) :=
  if !queue.shuttingDown && queue.count < queue.capacity then
    -- a slot outside of the array has no behaviour
    if queue.tail < queue.items.length then
      some (true, { queue with
        items := queue.items.set queue.tail clientSocket
        tail := (queue.tail + 1) % queue.capacity
        count := queue.count + 1 })
    else none
  else some (false, queue)

/-- The condition of the loop in `http_request_queue_pop`. -/
def HTTPRequestQueue.mustWait (queue : HTTPRequestQueue) : Bool :=
  queue.count == 0 && !queue.shuttingDown

/-- `http_request_queue_pop` behind its loop. A read outside of the buffer is undefined
behaviour (`none`). -/
def httpRequestQueueTake (queue : HTTPRequestQueue) : Option (HTTPSocket × HTTPRequestQueue) :=
  if 0 < queue.count then
    queue.items[queue.head]?.map fun clientSocket => (clientSocket, { queue with
      head := (queue.head + 1) % queue.capacity
      count := queue.count - 1 })
  else some (httpInvalidSocket, queue)

/-- What was pushed and not popped yet. -/
def HTTPRequestQueue.pending (queue : HTTPRequestQueue) : List HTTPSocket :=
  (List.range queue.count).filterMap fun i => queue.items[(queue.head + i) % queue.capacity]?

/-! ## The queue as a circular buffer -/

/-- The circular buffer of a queue. -/
def HTTPRequestQueue.ring (queue : HTTPRequestQueue) : RingBuffer HTTPSocket :=
  ⟨queue.items, queue.head, queue.tail, queue.count⟩

/-- What holds of a queue with these sockets. -/
structure HTTPRequestQueue.Holds (queue : HTTPRequestQueue) (sockets : List HTTPSocket) :
    Prop where
  ring : queue.ring.Holds sockets
  capacity : queue.items.length = queue.capacity

namespace HTTPRequestQueue

variable {queue : HTTPRequestQueue} {sockets : List HTTPSocket}

theorem holds_init {capacity : Nat} {items : List HTTPSocket} {mutexInit condInit : Bool}
    (hitems : items.length = capacity)
    (h : httpRequestQueueInit capacity (some items) mutexInit condInit = some queue) :
    queue.Holds [] ∧ queue.capacity = capacity ∧ queue.shuttingDown = false := by
  unfold httpRequestQueueInit at h
  split at h
  · cases h
  · next hpos =>
    dsimp only at h
    split at h
    · cases h
    · split at h
      · cases h
      · cases h
        have hslots : 0 < items.length := hitems ▸ Nat.pos_of_ne_zero hpos
        exact ⟨⟨RingBuffer.holds_empty hslots, hitems⟩, rfl, rfl⟩

theorem Holds.count (h : queue.Holds sockets) : queue.count = sockets.length := h.ring.countEq

theorem Holds.length_le (h : queue.Holds sockets) : sockets.length ≤ queue.capacity := by
  rw [← h.count, ← h.capacity]
  exact h.ring.countLe

/-- The positions of a queue. -/
theorem Holds.positions (h : queue.Holds sockets) : queue.head < queue.capacity ∧
    queue.tail < queue.capacity ∧ queue.tail = (queue.head + queue.count) % queue.capacity := by
  rw [← h.capacity]
  exact ⟨h.ring.headLt, h.ring.tail_lt, h.ring.tailEq⟩

private theorem filterMap_range_getElem? (l : List HTTPSocket) :
    (List.range l.length).filterMap (fun i => l[i]?) = l := by
  induction l with
  | nil => rfl
  | cons a l ih =>
    rw [List.length_cons, List.range_succ_eq_map, List.filterMap_cons_some List.getElem?_cons_zero]
    simp only [List.filterMap_map]
    exact congrArg (a :: ·) ih

/-- What is pending is what the queue holds. -/
theorem Holds.pending (h : queue.Holds sockets) : queue.pending = sockets := by
  have hget : ∀ i ∈ List.range queue.count,
      queue.items[(queue.head + i) % queue.capacity]? = sockets[i]? := by
    intro i hi
    rw [← h.capacity]
    exact h.ring.get i (List.mem_range.mp hi)
  unfold HTTPRequestQueue.pending
  rw [List.filterMap_congr hget, h.count, filterMap_range_getElem?]

/-- A push on a queue that is full or shutting down. -/
theorem push_refused (hfull : queue.shuttingDown = true ∨ queue.capacity ≤ queue.count)
    (s : HTTPSocket) : httpRequestQueuePush queue s = some (false, queue) := by
  refine if_neg fun hroom => ?_
  rw [Bool.and_eq_true, decide_eq_true_eq, Bool.not_eq_true'] at hroom
  rcases hfull with hdown | hfull
  · rw [hdown] at hroom
    cases hroom.1
  · exact absurd hroom.2 (Nat.not_lt.mpr hfull)

/-- A push on any other queue. -/
theorem Holds.push (h : queue.Holds sockets) (hopen : queue.shuttingDown = false)
    (hroom : queue.count < queue.capacity) (s : HTTPSocket) :
    ∃ queue', httpRequestQueuePush queue s = some (true, queue') ∧
      queue'.Holds (sockets ++ [s]) ∧ queue'.shuttingDown = false ∧
      queue'.capacity = queue.capacity := by
  have hopen' : (!queue.shuttingDown && decide (queue.count < queue.capacity)) = true := by
    rw [hopen, decide_eq_true hroom]
    rfl
  obtain ⟨ring, hput, hring, hlength⟩ := h.ring.put (h.capacity ▸ hroom) s
  have htail : queue.tail < queue.items.length := h.ring.tail_lt
  -- the same buffer, with the capacity for the number of slots
  have hring' : queue.ring.put s = some ⟨queue.items.set queue.tail s, queue.head,
      (queue.tail + 1) % queue.capacity, queue.count + 1⟩ := by
    rw [← h.capacity]
    exact if_pos htail
  obtain rfl := Option.some.inj (hring'.symm.trans hput)
  refine ⟨{ queue with
    items := queue.items.set queue.tail s
    tail := (queue.tail + 1) % queue.capacity
    count := queue.count + 1 }, ?_, ⟨hring, hlength.trans h.capacity⟩, hopen, rfl⟩
  unfold httpRequestQueuePush
  rw [if_pos hopen', if_pos htail]

/-- A pop of a queue with something in it. -/
theorem Holds.take {s : HTTPSocket} (h : queue.Holds (s :: sockets)) :
    ∃ queue', httpRequestQueueTake queue = some (s, queue') ∧ queue'.Holds sockets ∧
      queue'.shuttingDown = queue.shuttingDown ∧ queue'.capacity = queue.capacity := by
  obtain ⟨ring, htake, hring, hlength⟩ := h.ring.take
  have hpos : 0 < queue.count := by
    rw [h.count]
    exact Nat.succ_pos _
  obtain ⟨s', hfirst, heq⟩ := Option.map_eq_some_iff.mp htake
  obtain ⟨rfl, rfl⟩ := Prod.mk.inj heq
  refine ⟨{ queue with head := (queue.head + 1) % queue.capacity, count := queue.count - 1 }, ?_,
    ⟨?_, h.capacity⟩, rfl, rfl⟩
  · unfold httpRequestQueueTake
    rw [if_pos hpos, show queue.items[queue.head]? = some s' from hfirst]
    rfl
  · unfold HTTPRequestQueue.ring
    rw [← h.capacity]
    exact hring

/-- A pop of a queue with nothing in it. -/
theorem Holds.take_empty (h : queue.Holds []) :
    httpRequestQueueTake queue = some (httpInvalidSocket, queue) :=
  if_neg (by rw [h.count]; exact Nat.lt_irrefl 0)

theorem Holds.mustWait_iff (h : queue.Holds sockets) :
    queue.mustWait = true ↔ sockets = [] ∧ queue.shuttingDown = false := by
  unfold mustWait
  rw [Bool.and_eq_true, beq_iff_eq, h.count, List.length_eq_zero_iff, Bool.not_eq_true']

theorem Holds.shutdown (h : queue.Holds sockets) :
    (httpRequestQueueShutdown queue).Holds sockets := ⟨h.ring, h.capacity⟩

end HTTPRequestQueue

/-! ## Critical sections in any order -/

/-- A critical section of a thread. -/
inductive QueueSection (T : Type) where
  | push (thread : T) (clientSocket : HTTPSocket) (pushed : Bool)
  /-- `http_request_queue_pop` goes on to wait. -/
  | wait (thread : T)
  | pop (thread : T) (clientSocket : HTTPSocket)
  | shutdown (thread : T)

section Sections

variable {T : Type}

/-- What a critical section does. A thread that waits may test the queue again at any time. -/
inductive QueueStep (queue : HTTPRequestQueue) : QueueSection T → HTTPRequestQueue → Prop
  | push (thread : T) {s : HTTPSocket} {pushed : Bool} {queue' : HTTPRequestQueue} :
      s ≠ httpInvalidSocket → httpRequestQueuePush queue s = some (pushed, queue') →
      QueueStep queue (.push thread s pushed) queue'
  -- an empty queue: the thread goes to sleep and changes nothing
  | wait (thread : T) : queue.mustWait = true → QueueStep queue (.wait thread) queue
  -- the head, or nothing once the queue shuts down empty
  | pop (thread : T) {s : HTTPSocket} {queue' : HTTPRequestQueue} : queue.mustWait = false →
      httpRequestQueueTake queue = some (s, queue') → QueueStep queue (.pop thread s) queue'
  | shutdown (thread : T) :
      QueueStep queue (.shutdown thread) (httpRequestQueueShutdown queue)

/-- Critical sections one after the other. -/
inductive QueueRun (queue₀ : HTTPRequestQueue) : List (QueueSection T) → HTTPRequestQueue → Prop
  | init : QueueRun queue₀ [] queue₀
  | step {t : List (QueueSection T)} {queue queue' : HTTPRequestQueue} {e : QueueSection T} :
      QueueRun queue₀ t queue → QueueStep queue e queue' → QueueRun queue₀ (t ++ [e]) queue'

/-- A critical section as an operation of a bounded queue; waiting is none. -/
def QueueSection.event : QueueSection T → Option (QueueEvent HTTPSocket)
  | .push _ s pushed => some (.offer s pushed)
  | .wait _ => none
  | .pop _ s => some (.poll (if s = httpInvalidSocket then none else some s))
  | .shutdown _ => some .close

/-- The socket that a critical section pushes. -/
def QueueSection.pushed : QueueSection T → Option HTTPSocket
  | .push _ s true => some s
  | _ => none

/-- The socket that a critical section pops. -/
def QueueSection.popped : QueueSection T → Option HTTPSocket
  | .pop _ s => if s = httpInvalidSocket then none else some s
  | _ => none

/-- The bounded queue that a queue stands for; none of its sockets is the invalid one. -/
structure Represents (queue : HTTPRequestQueue) (q : BoundedQueue HTTPSocket) : Prop where
  holds : queue.Holds q.contents
  closed : queue.shuttingDown = q.closed
  valid : httpInvalidSocket ∉ q.contents

variable {queue₀ queue queue' : HTTPRequestQueue} {q : BoundedQueue HTTPSocket}
  {t : List (QueueSection T)} {e : QueueSection T}

/-- A critical section is an operation of the bounded queue, or leaves it alone. -/
theorem QueueStep.refines (h : QueueStep queue e queue') (hq : Represents queue q) :
    queue'.capacity = queue.capacity ∧
      (e.event = none ∧ Represents queue' q ∨
        ∃ e' q', e.event = some e' ∧ BoundedQueue.Step queue.capacity q e' q' ∧
          Represents queue' q') := by
  obtain ⟨hholds, hclosed, hvalid⟩ := hq
  have hcount := hholds.count
  cases h with
  | @push thread s pushed queue' hs hpush =>
    by_cases hfull : queue.shuttingDown = true ∨ queue.capacity ≤ queue.count
    · rw [HTTPRequestQueue.push_refused hfull] at hpush
      cases hpush
      rw [hclosed, hcount] at hfull
      exact ⟨rfl, .inr ⟨_, _, rfl, .refuse s hfull, hholds, hclosed, hvalid⟩⟩
    · rw [not_or, Bool.not_eq_true, Nat.not_le] at hfull
      obtain ⟨queue'', hpush', hholds', hopen', hcapacity⟩ := hholds.push hfull.1 hfull.2 s
      rw [hpush'] at hpush
      cases hpush
      have hopen : q.closed = false := hclosed.symm.trans hfull.1
      refine ⟨hcapacity, .inr ⟨_, _, rfl, .accept s hopen (hcount ▸ hfull.2), hholds',
        hopen'.trans hopen.symm, ?_⟩⟩
      rw [List.mem_append, List.mem_singleton, not_or]
      exact ⟨hvalid, hs.symm⟩
  | wait thread _ => exact ⟨rfl, .inl ⟨rfl, hholds, hclosed, hvalid⟩⟩
  | @pop thread s queue' hwait htake =>
    obtain ⟨contents, closed⟩ := q
    cases contents with
    | nil =>
      rw [hholds.take_empty] at htake
      cases htake
      -- an empty queue is only polled once it has been closed
      have hdown : closed = true := by
        apply eq_true_of_ne_false
        intro hopen
        rw [hholds.mustWait_iff.mpr ⟨rfl, hclosed.trans hopen⟩] at hwait
        cases hwait
      exact ⟨rfl, .inr ⟨_, _, rfl, .drained rfl hdown, hholds, hclosed, hvalid⟩⟩
    | cons s' rest =>
      obtain ⟨queue'', htake', hholds', hclosed', hcapacity⟩ := hholds.take
      rw [htake'] at htake
      cases htake
      rw [List.mem_cons, not_or] at hvalid
      have hevent : (QueueSection.pop thread s).event = some (.poll (some s)) :=
        congrArg (fun a => some (QueueEvent.poll a)) (if_neg (Ne.symm hvalid.1))
      exact ⟨hcapacity, .inr ⟨_, _, hevent, .deliver s rest rfl, hholds', hclosed'.trans hclosed,
        hvalid.2⟩⟩
  | shutdown thread => exact ⟨rfl, .inr ⟨_, _, rfl, .close, hholds.shutdown, rfl, hvalid⟩⟩

/-- A run of the queue is a run of a bounded queue. -/
theorem QueueRun.refines (h : QueueRun queue₀ t queue)
    (hinit : queue₀.Holds [] ∧ queue₀.shuttingDown = false) :
    queue.capacity = queue₀.capacity ∧ ∃ q,
      BoundedQueue.Run queue₀.capacity (t.filterMap QueueSection.event) q ∧
        Represents queue q := by
  induction h with
  | init => exact ⟨rfl, _, .empty, hinit.1, hinit.2, List.not_mem_nil⟩
  | @step t queue queue' e _ hstep ih =>
    obtain ⟨hcapacity, q, hrun, hq⟩ := ih
    obtain ⟨hcapacity', hevent | ⟨e', q', hevent, hstep', hq'⟩⟩ := hstep.refines hq
    · rw [List.filterMap_append, List.filterMap_cons_none hevent.1]
      exact ⟨hcapacity'.trans hcapacity, q, by simpa using hrun, hevent.2⟩
    · rw [List.filterMap_append, List.filterMap_cons_some hevent]
      rw [hcapacity] at hstep'
      exact ⟨hcapacity'.trans hcapacity, q', .step hrun hstep', hq'⟩

/-! ## First in, first out -/

theorem event_accepted (e : QueueSection T) :
    e.event.bind QueueEvent.accepted = e.pushed := by
  cases e with
  | push thread s pushed => cases pushed <;> rfl
  | wait thread => rfl
  | pop thread s => rfl
  | shutdown thread => rfl

theorem event_delivered (e : QueueSection T) :
    e.event.bind QueueEvent.delivered = e.popped := by
  cases e <;> rfl

/-- What holds of a queue after these critical sections. -/
structure QueueFifo (t : List (QueueSection T)) (queue : HTTPRequestQueue) : Prop where
  countLe : queue.count ≤ queue.capacity
  headLt : queue.head < queue.capacity
  tailLt : queue.tail < queue.capacity
  tailEq : queue.tail = (queue.head + queue.count) % queue.capacity
  length : queue.pending.length = queue.count
  /-- The sockets pushed are those popped, in the same order, and those still there. -/
  fifo : t.filterMap QueueSection.pushed = t.filterMap QueueSection.popped ++ queue.pending

/-- What the answer of a critical section says about the queue it found. -/
def QueueSection.Justified (queue : HTTPRequestQueue) : QueueSection T → Prop
  | .push _ _ pushed =>
    pushed = false ↔ queue.count = queue.capacity ∨ queue.shuttingDown = true
  | .wait _ => queue.pending = [] ∧ queue.shuttingDown = false
  | .pop _ s => s = httpInvalidSocket → queue.pending = [] ∧ queue.shuttingDown = true
  | .shutdown _ => True

/-- The answers of critical sections. -/
theorem QueueStep.justified (h : QueueStep queue e queue') (hq : Represents queue q) :
    e.Justified queue := by
  obtain ⟨hholds, -, hvalid⟩ := hq
  have hle := hholds.length_le
  rw [← hholds.count] at hle
  cases h with
  | @push thread s pushed queue' _ hpush =>
    by_cases hfull : queue.shuttingDown = true ∨ queue.capacity ≤ queue.count
    · rw [HTTPRequestQueue.push_refused hfull] at hpush
      cases hpush
      exact iff_of_true rfl (hfull.symm.imp_left (Nat.le_antisymm hle))
    · have hfull' := hfull
      rw [not_or, Bool.not_eq_true, Nat.not_le] at hfull'
      obtain ⟨_, hpush', -⟩ := hholds.push hfull'.1 hfull'.2 s
      rw [hpush'] at hpush
      cases hpush
      refine iff_of_false Bool.noConfusion fun h => hfull ?_
      exact h.symm.imp_right fun heq => Nat.le_of_eq heq.symm
  | wait thread hwait =>
    rw [hholds.mustWait_iff] at hwait
    exact ⟨hholds.pending.trans hwait.1, hwait.2⟩
  | @pop thread s queue' hwait htake =>
    intro hs
    have hempty : q.contents = [] := by
      obtain ⟨contents, closed⟩ := q
      cases contents with
      | nil => rfl
      | cons s' rest =>
        obtain ⟨_, htake', -⟩ := hholds.take
        rw [htake'] at htake
        cases htake
        exact absurd (List.mem_cons_self ..) (hs ▸ hvalid)
    refine ⟨hholds.pending.trans hempty, eq_true_of_ne_false fun hopen => ?_⟩
    rw [hholds.mustWait_iff.mpr ⟨hempty, hopen⟩] at hwait
    cases hwait
  | shutdown thread => trivial

/-- No critical section leaves the buffer. -/
theorem Represents.defined (hq : Represents queue q) :
    (∀ s, (httpRequestQueuePush queue s).isSome) ∧ (httpRequestQueueTake queue).isSome := by
  obtain ⟨hholds, -, -⟩ := hq
  constructor
  · intro s
    by_cases hfull : queue.shuttingDown = true ∨ queue.capacity ≤ queue.count
    · rw [HTTPRequestQueue.push_refused hfull]
      rfl
    · rw [not_or, Bool.not_eq_true, Nat.not_le] at hfull
      obtain ⟨_, hpush, -⟩ := hholds.push hfull.1 hfull.2 s
      rw [hpush]
      rfl
  · obtain ⟨contents, closed⟩ := q
    cases contents with
    | nil =>
      rw [hholds.take_empty]
      rfl
    | cons s rest =>
      obtain ⟨_, htake, -⟩ := hholds.take
      rw [htake]
      rfl

/-- The queue is a bounded queue, first in, first out: after any critical sections of any
threads, for every next one. -/
theorem QueueRun.fifo {capacity : Nat} {items : List HTTPSocket}
    (hitems : items.length = capacity)
    (hinit : httpRequestQueueInit capacity (some items) true true = some queue₀)
    (h : QueueRun queue₀ t queue) :
    QueueFifo t queue ∧ queue.capacity = capacity ∧
      (∀ e queue', QueueStep (T := T) queue e queue' → e.Justified queue) ∧
      (∀ s, (httpRequestQueuePush queue s).isSome) ∧ (httpRequestQueueTake queue).isSome := by
  obtain ⟨hempty, hcapacity, hopen⟩ := HTTPRequestQueue.holds_init hitems hinit
  obtain ⟨hsame, q, hrun, hq⟩ := h.refines ⟨hempty, hopen⟩
  obtain ⟨hhead, htail, heq⟩ := hq.holds.positions
  have hpending := hq.holds.pending
  have hcount := hq.holds.count
  have hfifo := hrun.order
  rw [List.filterMap_filterMap, List.filterMap_filterMap] at hfifo
  simp only [event_accepted, event_delivered] at hfifo
  refine ⟨⟨hcount ▸ hq.holds.length_le, hhead, htail, heq, ?_, ?_⟩, hsame.trans hcapacity,
    fun e queue' hstep => hstep.justified hq, hq.defined⟩
  · rw [hpending, hcount]
  · rw [hpending]
    exact hfifo

/-- A queue of two: it is full, wraps and runs empty. -/
theorem QueueRun.fifo_two :
    let t : List (QueueSection Nat) := [.wait 1, .push 0 5 true, .push 0 6 true, .push 0 7 false,
      .pop 1 5, .push 0 7 true, .shutdown 0, .pop 1 6, .pop 2 7, .pop 1 (-1)]
    QueueFifo t ⟨[7, 6], 1, 1, 0, 2, true⟩ := by
  intro t
  have hrun : QueueRun ⟨[0, 0], 0, 0, 0, 2, false⟩ t ⟨[7, 6], 1, 1, 0, 2, true⟩ :=
    ((((((((((QueueRun.init.step (.wait 1 rfl)).step (.push 0 (by decide) rfl)).step
      (.push 0 (by decide) rfl)).step (.push 0 (by decide) rfl)).step (.pop 1 rfl rfl)).step
      (.push 0 (by decide) rfl)).step (.shutdown 0)).step (.pop 1 rfl rfl)).step
      (.pop 2 rfl rfl)).step (.pop 1 rfl rfl))
  exact (QueueRun.fifo (rfl : ([0, 0] : List HTTPSocket).length = 2) rfl hrun).1

end Sections

end SqlApi.Server

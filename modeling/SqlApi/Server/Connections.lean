import SqlApi.Lib.Lifecycle
import SqlApi.Server.ServerInvariant

/-!
# Every connection is settled exactly once

A connection is in one place at a time: with the main thread, in the queue, or with one
worker. So what happens to the connections is a run of life cycles, and when the server
returns they are all over.

## How the proof goes

`Places` is the state of the server as seen from its connections. A step of the server is a step of
the places, or leaves them (`PlacesStep`), and a step of the places is a step of the life cycle of
one connection (`Lifecycle`). That each life counts once is a property of the handlers
(`Program.Exactly`), proved branch by branch.
-/

namespace SqlApi.Server

open SqlApi.Lib

/-! ## Handlers count once -/

/-- The call that counts a response. -/
def HandlerOp.Counts : HandlerOp → Prop
  | .noteResponseComplete => True
  | _ => False

theorem httpServerSendAndCount_exactly (response : Option APIResponse) :
    (httpServerSendAndCount response).Exactly HandlerOp.Counts 1 := by
  cases response with
  | none => exact Program.exactly_perform trivial
  | some response =>
    exact Program.exactly_perform_bind not_false fun _ => Program.exactly_perform trivial

theorem httpServerSendErrorAndCount_exactly (statusCode : Int) (errorType message : List UInt8) :
    (httpServerSendErrorAndCount statusCode errorType message).Exactly HandlerOp.Counts 1 :=
  Program.exactly_perform_bind not_false httpServerSendAndCount_exactly

/-- Every path behind the parser counts once. -/
theorem httpServerRespond_exactly (request : APIRequest) :
    (httpServerRespond request).Exactly HandlerOp.Counts 1 := by
  unfold httpServerRespond
  -- GET /health and GET /metrics build their text and send it
  split
  · exact Program.exactly_perform_bind not_false fun _ =>
      Program.exactly_perform_bind not_false httpServerSendAndCount_exactly
  split
  · exact Program.exactly_perform_bind not_false fun _ =>
      Program.exactly_perform_bind not_false fun _ =>
        Program.exactly_perform_bind not_false httpServerSendAndCount_exactly
  -- POST /query has three ends: no execution, no response, or the response that is sent
  split
  · refine Program.exactly_perform_bind not_false fun execution => ?_
    cases execution with
    | none => exact httpServerSendErrorAndCount_exactly ..
    | some execution =>
      refine Program.exactly_perform_bind not_false fun response => ?_
      cases response with
      | none => exact httpServerSendErrorAndCount_exactly ..
      | some response => exact httpServerSendAndCount_exactly _
  · -- every other request is refused, and a refusal is counted once too
    split
    · exact httpServerSendErrorAndCount_exactly ..
    split
    · exact httpServerSendErrorAndCount_exactly ..
    split
    · exact httpServerSendErrorAndCount_exactly ..
    · exact httpServerSendErrorAndCount_exactly ..

/-- Every path of the handler counts once. -/
theorem httpServerHandleClient_exactly :
    httpServerHandleClient.Exactly HandlerOp.Counts 1 := by
  refine Program.exactly_perform_bind not_false fun received => ?_
  cases received with
  | error message => exact httpServerSendErrorAndCount_exactly ..
  | ok requestBuffer =>
    refine Program.exactly_perform_bind not_false fun parsed => ?_
    cases parsed with
    | error message => exact httpServerSendErrorAndCount_exactly ..
    | ok request => exact httpServerRespond_exactly request

theorem httpServerReject_exactly : httpServerReject.Exactly HandlerOp.Counts 1 :=
  Program.exactly_perform_bind not_false fun _ => httpServerSendErrorAndCount_exactly ..

/-! ## Where a connection is -/

/-- What a worker serves, and what is left to do for it. -/
def WorkerPhase.serving : WorkerPhase → Option (HTTPSocket × HandlerProg Unit)
  | .handling c program => some (c, program)
  | _ => none

/-- What the main thread serves, and what is left to do for it. -/
def MainPhase.serving : MainPhase → Option (HTTPSocket × HandlerProg Unit)
  | .rejecting c program => some (c, program)
  | _ => none

/-- The connection that the main thread is about to push. -/
def MainPhase.received : MainPhase → Option HTTPSocket
  | .pushing c => some c
  | _ => none

/-- The places where connections are. -/
structure Places where
  isOpen : HTTPSocket → Bool
  received : Option HTTPSocket
  pending : List HTTPSocket
  serving : ServerThread → Option (HTTPSocket × HandlerProg Unit)

/-- What each thread serves. -/
def ServerState.serving (s : ServerState) :
    ServerThread → Option (HTTPSocket × HandlerProg Unit)
  | .main => s.main.serving
  | .worker w => (s.worker w).serving

/-- The places of a server. -/
def ServerState.places (s : ServerState) : Places :=
  ⟨s.isOpen, s.main.received, s.queue.pending, s.serving⟩

/-- What an event is to a connection. -/
def ServerEvent.life : ServerEvent → Option (LifeEvent HTTPSocket ServerThread)
  | .accept c => some (.receive c)
  | .serve thread c => some (.serve thread c)
  | .count thread c => some (.count thread c)
  | .close thread c => some (.release thread c)
  | .raiseShuttingDown => none

/-- How a step moves connections. -/
inductive PlacesStep (p : Places) : Option (LifeEvent HTTPSocket ServerThread) → Places → Prop
  | same : PlacesStep p none p
  -- the main thread accepts a connection
  | receive (c : HTTPSocket) : p.isOpen c = false → p.received = none →
      PlacesStep p (some (.receive c))
        ⟨Function.update p.isOpen c true, some c, p.pending, p.serving⟩
  -- and hands it to the queue
  | enqueue (c : HTTPSocket) : p.received = some c →
      PlacesStep p none ⟨p.isOpen, none, p.pending ++ [c], p.serving⟩
  -- or answers it itself, when the queue refuses
  | refuse (thread : ServerThread) (c : HTTPSocket) (program : HandlerProg Unit) :
      p.received = some c → p.serving thread = none →
      program.Exactly HandlerOp.Counts 1 →
      PlacesStep p (some (.serve thread c))
        ⟨p.isOpen, none, p.pending, Function.update p.serving thread (some (c, program))⟩
  -- a worker takes the oldest connection of the queue
  | take (thread : ServerThread) (c : HTTPSocket) (rest : List HTTPSocket)
      (program : HandlerProg Unit) : p.pending = c :: rest → p.serving thread = none →
      program.Exactly HandlerOp.Counts 1 →
      PlacesStep p (some (.serve thread c))
        ⟨p.isOpen, p.received, rest, Function.update p.serving thread (some (c, program))⟩
  -- the handler of a served connection goes on
  | operate (thread : ServerThread) (c : HTTPSocket) (o : HandlerOp)
      (k : o.Ans → HandlerProg Unit) (answer : o.Ans) :
      p.serving thread = some (c, .call o k) →
      PlacesStep p ((o.event thread c).bind ServerEvent.life)
        ⟨p.isOpen, p.received, p.pending,
          Function.update p.serving thread (some (c, k answer))⟩
  -- the handler has returned, and the socket is closed
  | release (thread : ServerThread) (c : HTTPSocket) (r : Unit) :
      p.serving thread = some (c, .ret r) →
      PlacesStep p (some (.release thread c))
        ⟨Function.update p.isOpen c false, p.received, p.pending,
          Function.update p.serving thread none⟩

/-! ## A place for each stage -/

/-- How often a program still counts. -/
def countsLeft (counted : Bool) : Nat := if counted then 0 else 1

/-- A connection is where its stage says, and nowhere else. -/
structure PlacedAt (p : Places) (c : HTTPSocket) (stage : Stage ServerThread) : Prop where
  isOpen : p.isOpen c = true ↔ stage ≠ .closed
  received : p.received = some c ↔ stage = .received
  pending : c ∈ p.pending ↔ stage = .queued
  serving : ∀ thread program, p.serving thread = some (c, program) →
    ∃ counted, stage = .served thread counted ∧
      program.Exactly HandlerOp.Counts (countsLeft counted)
  served : ∀ thread counted, stage = .served thread counted →
    ∃ program, p.serving thread = some (c, program)

/-- A connection that a step does not move. -/
structure Unmoved (p p' : Places) (c : HTTPSocket) : Prop where
  isOpen : p'.isOpen c = p.isOpen c
  received : p'.received = some c ↔ p.received = some c
  pending : c ∈ p'.pending ↔ c ∈ p.pending
  serving : ∀ thread program,
    p'.serving thread = some (c, program) ↔ p.serving thread = some (c, program)

section Placed

variable {p p' : Places} {c : HTTPSocket} {stage : HTTPSocket → Stage ServerThread}

theorem PlacedAt.unmoved {g : Stage ServerThread} (h : PlacedAt p c g) (hsame : Unmoved p p' c) :
    PlacedAt p' c g where
  isOpen := hsame.isOpen ▸ h.isOpen
  received := hsame.received.trans h.received
  pending := hsame.pending.trans h.pending
  serving thread program hp := h.serving thread program ((hsame.serving thread program).mp hp)
  served thread counted hg :=
    (h.served thread counted hg).imp fun program => (hsame.serving thread program).mpr

/-- One connection moves. -/
private theorem placed_update {new : Stage ServerThread} (h : ∀ c, PlacedAt p c (stage c))
    (hself : PlacedAt p' c new) (hother : ∀ c', c' ≠ c → Unmoved p p' c') (c' : HTTPSocket) :
    PlacedAt p' c' (Function.update stage c new c') := by
  by_cases hc : c' = c
  · subst hc
    rwa [Function.update_self]
  · rw [Function.update_of_ne hc]
    exact (h c').unmoved (hother c' hc)

/-- What a thread that starts or ends serving does not touch. -/
private theorem serving_update {thread : ServerThread} {c' : HTTPSocket}
    {v : Option (HTTPSocket × HandlerProg Unit)}
    (hold : ∀ program, p.serving thread ≠ some (c', program))
    (hnew : ∀ program, v ≠ some (c', program)) (thread' : ServerThread)
    (program : HandlerProg Unit) :
    Function.update p.serving thread v thread' = some (c', program) ↔
      p.serving thread' = some (c', program) := by
  by_cases hthread : thread' = thread
  · subst hthread
    rw [Function.update_self]
    exact iff_of_false (hnew program) (hold program)
  · rw [Function.update_of_ne hthread]

private theorem placed_receive (hplaced : ∀ c, PlacedAt p c (stage c)) (hopen : p.isOpen c = false)
    (hnone : p.received = none) (c' : HTTPSocket) :
    PlacedAt ⟨Function.update p.isOpen c true, some c, p.pending, p.serving⟩ c'
      (Function.update stage c .received c') := by
  have hc := hplaced c
  have hclosed : stage c = .closed := by
    by_contra hne
    rw [hc.isOpen.mpr hne] at hopen
    cases hopen
  rw [hclosed] at hc
  refine placed_update hplaced ⟨?_, ?_, ?_, ?_, ?_⟩ (fun c' hne => ⟨?_, ?_, ?_, ?_⟩) c'
  · exact iff_of_true (Function.update_self ..) nofun
  · exact iff_of_true rfl rfl
  · exact iff_of_false (fun hmem => nomatch hc.pending.mp hmem) nofun
  · intro thread program hserving
    obtain ⟨_, hstage, -⟩ := hc.serving thread program hserving
    cases hstage
  · exact fun _ _ hstage => nomatch hstage
  · exact Function.update_of_ne hne ..
  · rw [hnone]
    exact iff_of_false (fun h => hne (Option.some.inj h).symm) nofun
  · exact Iff.rfl
  · exact fun _ _ => Iff.rfl

private theorem placed_enqueue (hplaced : ∀ c, PlacedAt p c (stage c))
    (hreceived : p.received = some c) (c' : HTTPSocket) :
    PlacedAt ⟨p.isOpen, none, p.pending ++ [c], p.serving⟩ c'
      (Function.update stage c .queued c') := by
  have hc := hplaced c
  rw [hc.received.mp hreceived] at hc
  refine placed_update hplaced ⟨?_, ?_, ?_, ?_, ?_⟩ (fun c' hne => ⟨?_, ?_, ?_, ?_⟩) c'
  · exact iff_of_true (hc.isOpen.mpr nofun) nofun
  · exact iff_of_false nofun nofun
  · exact iff_of_true (List.mem_append_right _ (List.mem_singleton_self c)) rfl
  · intro thread program hserving
    obtain ⟨_, hstage, -⟩ := hc.serving thread program hserving
    cases hstage
  · exact fun _ _ hstage => nomatch hstage
  · rfl
  · rw [hreceived]
    exact iff_of_false nofun fun h => hne (Option.some.inj h).symm
  · rw [List.mem_append, List.mem_singleton, or_iff_left hne]
  · exact fun _ _ => Iff.rfl

/-- A thread takes a connection, from the main thread or from the queue. -/
private theorem placed_serve {thread : ServerThread} {program : HandlerProg Unit}
    {received : Option HTTPSocket} {pending : List HTTPSocket}
    (hplaced : ∀ c, PlacedAt p c (stage c)) (hfree : p.serving thread = none)
    (hprogram : program.Exactly HandlerOp.Counts 1)
    (hstage : stage c = .received ∨ stage c = .queued)
    (hreceived : received ≠ some c ∧ ∀ c' ≠ c, received = some c' ↔ p.received = some c')
    (hpending : c ∉ pending ∧ ∀ c' ≠ c, c' ∈ pending ↔ c' ∈ p.pending) (c' : HTTPSocket) :
    PlacedAt ⟨p.isOpen, received, pending, Function.update p.serving thread (some (c, program))⟩ c'
      (Function.update stage c (.served thread false) c') := by
  have hc := hplaced c
  -- nobody serves the connection yet: it was just received, or stood in the queue
  have hidle : ∀ thread' program', p.serving thread' ≠ some (c, program') := by
    intro thread' program' hserving
    obtain ⟨_, hserved, -⟩ := hc.serving thread' program' hserving
    rcases hstage with hstage | hstage <;> rw [hstage] at hserved <;> cases hserved
  refine placed_update hplaced ⟨?_, ?_, ?_, ?_, ?_⟩ (fun c' hne => ⟨?_, ?_, ?_, ?_⟩) c'
  · refine iff_of_true (hc.isOpen.mpr ?_) nofun
    rcases hstage with hstage | hstage <;> rw [hstage] <;> exact nofun
  · exact iff_of_false hreceived.1 nofun
  · exact iff_of_false hpending.1 nofun
  · -- only the thread that takes it serves it from now on
    intro thread' program' hserving
    dsimp only at hserving
    by_cases hthread : thread' = thread
    · subst hthread
      rw [Function.update_self] at hserving
      obtain ⟨-, rfl⟩ := Prod.mk.inj (Option.some.inj hserving)
      exact ⟨false, rfl, hprogram⟩
    · rw [Function.update_of_ne hthread] at hserving
      exact absurd hserving (hidle thread' program')
  · intro thread' counted hserved
    cases hserved
    exact ⟨program, Function.update_self ..⟩
  · rfl
  · exact hreceived.2 c' hne
  · exact hpending.2 c' hne
  · refine serving_update (fun program' => ?_) (fun program' h => ?_)
    · rw [hfree]
      exact nofun
    · exact hne (Prod.mk.inj (Option.some.inj h)).1.symm

/-- A thread goes on with the connection it serves. -/
private theorem placed_operate {thread : ServerThread} {program program' : HandlerProg Unit}
    {counted : Bool} (hplaced : ∀ c, PlacedAt p c (stage c))
    (hserving : p.serving thread = some (c, program)) {counted' : Bool}
    (hstage : stage c = .served thread counted')
    (hprogram : program'.Exactly HandlerOp.Counts (countsLeft counted)) (c' : HTTPSocket) :
    PlacedAt ⟨p.isOpen, p.received, p.pending,
      Function.update p.serving thread (some (c, program'))⟩ c'
      (Function.update stage c (.served thread counted) c') := by
  have hc := hplaced c
  rw [hstage] at hc
  refine placed_update hplaced ⟨?_, ?_, ?_, ?_, ?_⟩ (fun c' hne => ⟨?_, ?_, ?_, ?_⟩) c'
  · exact iff_of_true (hc.isOpen.mpr nofun) nofun
  · exact iff_of_false (fun h => nomatch hc.received.mp h) nofun
  · exact iff_of_false (fun h => nomatch hc.pending.mp h) nofun
  · -- the serving thread is the only one, and its program has advanced by one operation
    intro thread' program'' hserving'
    dsimp only at hserving'
    by_cases hthread : thread' = thread
    · subst hthread
      rw [Function.update_self] at hserving'
      obtain ⟨-, rfl⟩ := Prod.mk.inj (Option.some.inj hserving')
      exact ⟨counted, rfl, hprogram⟩
    · rw [Function.update_of_ne hthread] at hserving'
      obtain ⟨_, hserved, -⟩ := hc.serving thread' program'' hserving'
      cases hserved
      exact absurd rfl hthread
  · intro thread' counted'' hserved
    cases hserved
    exact ⟨program', Function.update_self ..⟩
  · rfl
  · exact Iff.rfl
  · exact Iff.rfl
  · refine serving_update (fun program'' h => ?_) (fun program'' h => ?_)
    · rw [hserving] at h
      exact hne (Prod.mk.inj (Option.some.inj h)).1.symm
    · exact hne (Prod.mk.inj (Option.some.inj h)).1.symm

private theorem placed_release {thread : ServerThread} {program : HandlerProg Unit}
    (hplaced : ∀ c, PlacedAt p c (stage c)) (hserving : p.serving thread = some (c, program))
    {counted : Bool} (hstage : stage c = .served thread counted) (c' : HTTPSocket) :
    PlacedAt ⟨Function.update p.isOpen c false, p.received, p.pending,
      Function.update p.serving thread none⟩ c' (Function.update stage c .closed c') := by
  have hc := hplaced c
  rw [hstage] at hc
  refine placed_update hplaced ⟨?_, ?_, ?_, ?_, ?_⟩ (fun c' hne => ⟨?_, ?_, ?_, ?_⟩) c'
  · refine iff_of_false ?_ fun h => h rfl
    dsimp only
    rw [Function.update_self]
    exact Bool.false_ne_true
  · exact iff_of_false (fun h => nomatch hc.received.mp h) nofun
  · exact iff_of_false (fun h => nomatch hc.pending.mp h) nofun
  · -- the thread has let it go, and no other thread had it
    intro thread' program' hserving'
    dsimp only at hserving'
    by_cases hthread : thread' = thread
    · subst hthread
      rw [Function.update_self] at hserving'
      cases hserving'
    · rw [Function.update_of_ne hthread] at hserving'
      obtain ⟨_, hserved, -⟩ := hc.serving thread' program' hserving'
      cases hserved
      exact absurd rfl hthread
  · exact fun _ _ hserved => nomatch hserved
  · exact Function.update_of_ne hne ..
  · exact Iff.rfl
  · exact Iff.rfl
  · refine serving_update (fun program' h => ?_) (fun _ => nofun)
    rw [hserving] at h
    exact hne (Prod.mk.inj (Option.some.inj h)).1.symm

/-- Every move of a connection is a step in its life. -/
theorem PlacesStep.life {e : Option (LifeEvent HTTPSocket ServerThread)} (h : PlacesStep p e p')
    (hplaced : ∀ c, PlacedAt p c (stage c)) (hnodup : p.pending.Nodup) :
    p'.pending.Nodup ∧ ∃ stage', (e = none ∧ stage' = stage ∨ LifeStep stage e stage') ∧
      ∀ c, PlacedAt p' c (stage' c) := by
  cases h with
  | same => exact ⟨hnodup, stage, .inl ⟨rfl, rfl⟩, hplaced⟩
  | receive c hopen hnone =>
    have hclosed : stage c = .closed := by
      by_contra hne
      rw [(hplaced c).isOpen.mpr hne] at hopen
      cases hopen
    exact ⟨hnodup, _, .inr (.receive c hclosed), placed_receive hplaced hopen hnone⟩
  | enqueue c hreceived =>
    have hstage := (hplaced c).received.mp hreceived
    -- the queue holds it once, since it was not there before
    have hnew : c ∉ p.pending := by
      intro hmem
      rw [(hplaced c).pending.mp hmem] at hstage
      cases hstage
    refine ⟨?_, _, .inr (.enqueue c hstage), placed_enqueue hplaced hreceived⟩
    exact List.nodup_append.mpr ⟨hnodup, List.nodup_singleton c, fun a ha b hb =>
      List.mem_singleton.mp hb ▸ fun h => hnew (h ▸ ha)⟩
  | refuse thread c program hreceived hfree hprogram =>
    have hstage := (hplaced c).received.mp hreceived
    refine ⟨hnodup, _, .inr (.serve thread c (.inl hstage)), placed_serve hplaced hfree hprogram
      (.inl hstage) ⟨nofun, fun c' hne => ?_⟩ ⟨fun hmem => ?_, fun _ _ => Iff.rfl⟩⟩
    · rw [hreceived]
      exact iff_of_false nofun fun h => hne (Option.some.inj h).symm
    · rw [(hplaced c).pending.mp hmem] at hstage
      cases hstage
  | take thread c rest program hpending hfree hprogram =>
    have hstage := (hplaced c).pending.mp (hpending ▸ List.mem_cons_self ..)
    rw [hpending, List.nodup_cons] at hnodup
    refine ⟨hnodup.2, _, .inr (.serve thread c (.inr hstage)), placed_serve hplaced hfree hprogram
      (.inr hstage) ⟨fun h => ?_, fun _ _ => Iff.rfl⟩ ⟨hnodup.1, fun c' hne => ?_⟩⟩
    · rw [(hplaced c).received.mp h] at hstage
      cases hstage
    · rw [hpending, List.mem_cons, or_iff_right hne]
  | operate thread c o k answer hserving =>
    obtain ⟨counted, hstage, hexactly⟩ := (hplaced c).serving thread _ hserving
    by_cases ho : o.Counts
    -- a program that counts exactly once has not counted before this operation
    · obtain ⟨m, hm, hrest⟩ := hexactly.count ho
      obtain rfl : counted = false := by
        cases counted with
        | false => rfl
        | true => cases hm
      obtain rfl : 0 = m := Nat.succ.inj hm
      have hevent : (o.event thread c).bind ServerEvent.life = some (.count thread c) := by
        cases o <;> first | rfl | exact ho.elim
      rw [hevent]
      exact ⟨hnodup, _, .inr (.count thread c hstage),
        placed_operate hplaced hserving hstage
          (hrest answer : (k answer).Exactly HandlerOp.Counts (countsLeft true))⟩
    · have hevent : (o.event thread c).bind ServerEvent.life = none := by
        cases o <;> first | rfl | exact absurd trivial ho
      rw [hevent]
      refine ⟨hnodup, _, .inl ⟨rfl, rfl⟩, ?_⟩
      have hsame : Function.update stage c (.served thread counted) = stage := by
        rw [← hstage]
        exact Function.update_eq_self c stage
      rw [← hsame]
      exact placed_operate hplaced hserving hstage (hexactly.other ho answer)
  | release thread c r hserving =>
    obtain ⟨counted, hstage, hexactly⟩ := (hplaced c).serving thread _ hserving
    -- and one that has ended has counted
    obtain rfl : counted = true := by
      cases counted with
      | false => cases hexactly
      | true => rfl
    exact ⟨hnodup, _, .inr (.release thread c hstage), placed_release hplaced hserving hstage⟩

end Placed

/-! ## Steps of the server -/

section Steps

variable {options : HTTPServerOptions} {spurious : Prop} {s s' : ServerState}
  {e : Option ServerEvent} {t : List ServerEvent}

theorem serving_setMain (s : ServerState) (main : MainPhase) :
    (s.setMain main).serving = Function.update s.serving .main main.serving := by
  funext thread
  cases thread with
  | main => rw [Function.update_self]; rfl
  | worker w =>
    have hne : ServerThread.worker w ≠ .main := nofun
    rw [Function.update_of_ne hne]
    rfl

theorem serving_setWorker (s : ServerState) (w : Nat) (phase : WorkerPhase) :
    (s.setWorker w phase).serving = Function.update s.serving (.worker w) phase.serving := by
  funext thread
  cases thread with
  | main =>
    have hne : ServerThread.main ≠ .worker w := nofun
    rw [Function.update_of_ne hne]
    rfl
  | worker v =>
    by_cases hv : v = w
    · subst hv
      rw [Function.update_self]
      exact congrArg WorkerPhase.serving (Function.update_self ..)
    · rw [Function.update_of_ne fun h => hv (ServerThread.worker.inj h)]
      exact congrArg WorkerPhase.serving (Function.update_of_ne hv ..)

/-- The main thread serves what it served. -/
theorem serving_main (s : ServerState) {served : Option (HTTPSocket × HandlerProg Unit)}
    (h : served = s.main.serving) : Function.update s.serving .main served = s.serving := by
  rw [h]
  exact Function.update_eq_self ServerThread.main s.serving

private theorem places_setMain_eq (s : ServerState) (main : MainPhase) : (s.setMain main).places =
    ⟨s.isOpen, main.received, s.queue.pending,
      Function.update s.serving .main main.serving⟩ := by
  rw [← serving_setMain]
  rfl

private theorem places_setWorker_eq (s : ServerState) (w : Nat) (phase : WorkerPhase) :
    (s.setWorker w phase).places = ⟨s.isOpen, s.main.received, s.queue.pending,
      Function.update s.serving (.worker w) phase.serving⟩ := by
  rw [← serving_setWorker]
  rfl

/-- A move of the main thread that concerns no connection. -/
private theorem places_setMain {main : MainPhase} (hreceived : main.received = s.main.received)
    (hserving : main.serving = s.main.serving) : (s.setMain main).places = s.places := by
  rw [places_setMain_eq, hreceived, serving_main s hserving]
  rfl

/-- A move of a worker that concerns no connection. -/
private theorem places_setWorker {w : Nat} {phase : WorkerPhase}
    (hserving : phase.serving = (s.worker w).serving) : (s.setWorker w phase).places = s.places := by
  have hsame : Function.update s.serving (.worker w) phase.serving = s.serving := by
    rw [hserving]
    exact Function.update_eq_self (ServerThread.worker w) s.serving
  rw [places_setWorker_eq, hsame]
  rfl

private theorem places_wakeAll (s : ServerState) : s.wakeAll.places = s.places := by
  have hsame : s.wakeAll.serving = s.serving := by
    funext thread
    cases thread with
    | main => rfl
    | worker w =>
      unfold ServerState.wakeAll ServerState.serving
      dsimp only
      cases s.worker w <;> rfl
  unfold ServerState.places
  rw [hsame]
  rfl

theorem afterOp_serving (options : HTTPServerOptions) (s : ServerState) (o : HandlerOp) :
    (s.afterOp options o).serving = s.serving := by
  cases o <;> rfl

/-- Every step moves at most one connection. -/
theorem ServerStep.places (h : ServerStep options spurious s e s') (hs : ServerInv options s) :
    PlacesStep s.places (e.bind ServerEvent.life) s'.places := by
  have hsame {main : MainPhase} (hmain : s.main = main) {s₁ : ServerState} {main' : MainPhase}
      (hplaces : s₁.places = s.places) (hmain₁ : s₁.main = s.main)
      (hreceived : main'.received = main.received) (hserving : main'.serving = main.serving) :
      PlacesStep s.places none (s₁.setMain main').places := by
    rw [places_setMain (hreceived.trans (by rw [hmain₁, hmain]))
      (hserving.trans (by rw [hmain₁, hmain])), hplaces]
    exact .same
  have hworker {w : Nat} {phase phase' : WorkerPhase} (hw : s.worker w = phase)
      (hserving : phase'.serving = phase.serving) :
      PlacesStep s.places none (s.setWorker w phase').places := by
    rw [places_setWorker (hserving.trans (by rw [hw]))]
    exact .same
  have hqueued {c : HTTPSocket} {queue : HTTPRequestQueue} (hmain : s.main = .pushing c)
      (hpending : queue.pending = s.queue.pending ++ [c]) :
      PlacesStep s.places none ⟨s.isOpen, none, queue.pending,
        Function.update s.serving .main none⟩ := by
    have hserving : Function.update s.serving .main none = s.serving :=
      serving_main s (congrArg MainPhase.serving hmain).symm
    rw [hpending, hserving]
    exact .enqueue (p := s.places) c (congrArg MainPhase.received hmain)
  cases h with
  | signal => exact .same
  | create hmain _ =>
    refine hsame hmain (places_setWorker ?_) rfl rfl rfl
    rw [hs.notCreated _ (hmain ▸ le_rfl)]
    rfl
  | createFails hmain _ | raiseShuttingDown hmain | joinBack hmain _ | returnFailure hmain
  | created hmain | listenFails hmain | listen hmain | stop hmain _ | goOn hmain _
  | selectFails hmain | selectTimeout hmain | selectReady hmain | acceptFails hmain
  | join hmain _ _ | joined hmain => exact hsame hmain rfl rfl rfl rfl
  | shutdown hmain _ => exact hsame hmain (places_wakeAll _) rfl rfl rfl
  | lock hw _ | testWait hw _ | wait hw | wakeUp _ hw | leave hw _ | stay hw _ _ =>
    exact hworker hw rfl
  | @takeNone w queue hw hwait htake =>
    obtain ⟨rfl, -⟩ := hs.queue.takeNone hwait htake
    exact hworker hw rfl
  -- up to here no connection has changed its place
  | @accept c hmain _ hclosed =>
    have hstep := PlacesStep.receive (p := s.places) c hclosed (congrArg MainPhase.received hmain)
    rw [places_setMain_eq]
    have hserving := serving_main s (congrArg MainPhase.serving hmain).symm
    exact hserving.symm ▸ hstep
  | @pushSignal c w queue hmain _ hpush hw =>
    obtain ⟨-, hpending, -⟩ := hs.queue.push (hs.valid c hmain) hpush
    have hwake : ((s.setQueue queue).wake w).serving = s.serving := by
      rw [ServerState.wake, serving_setWorker]
      have hnone : WorkerPhase.serving .entering = s.serving (.worker w) :=
        (congrArg WorkerPhase.serving hw).symm
      rw [hnone]
      exact Function.update_eq_self (ServerThread.worker w) s.serving
    rw [places_setMain_eq, hwake]
    exact hqueued hmain hpending
  | @pushNoWaiter c queue hmain _ hpush _ =>
    obtain ⟨-, hpending, -⟩ := hs.queue.push (hs.valid c hmain) hpush
    rw [places_setMain_eq]
    exact hqueued hmain hpending
  | @pushRefused c queue hmain _ hpush =>
    obtain rfl := hs.queue.push_false hpush
    rw [places_setMain_eq]
    exact .refuse (p := s.places) .main c httpServerReject (congrArg MainPhase.received hmain)
      (congrArg MainPhase.serving hmain) httpServerReject_exactly
  -- the main thread serves a refused connection as a worker does an accepted one
  | @reject c o k answer hmain =>
    have hreceived : s.places.received = none := congrArg MainPhase.received hmain
    have hstep := PlacesStep.operate (p := s.places) .main c o k answer
      (congrArg MainPhase.serving hmain)
    rw [hreceived] at hstep
    rw [places_setMain_eq, afterOp_serving, ServerState.afterOp_isOpen, ServerState.afterOp_queue]
    exact hstep
  | @closeRejected c r hmain =>
    have hreceived : s.places.received = none := congrArg MainPhase.received hmain
    have hstep := PlacesStep.release (p := s.places) .main c r (congrArg MainPhase.serving hmain)
    rw [hreceived] at hstep
    rw [places_setMain_eq]
    exact hstep
  | @take w c queue hw _ htake hc =>
    obtain ⟨-, hpending, -⟩ := hs.queue.take hc htake
    rw [places_setWorker_eq]
    exact .take (p := s.places) (.worker w) c queue.pending httpServerHandleClient hpending
      (congrArg WorkerPhase.serving hw) httpServerHandleClient_exactly
  | @handle w c o k answer hw =>
    rw [places_setWorker_eq, afterOp_serving, ServerState.afterOp_isOpen,
      ServerState.afterOp_queue, ServerState.afterOp_main]
    exact .operate (p := s.places) (.worker w) c o k answer (congrArg WorkerPhase.serving hw)
  | @closeHandled w c r hw =>
    rw [places_setWorker_eq]
    exact .release (p := s.places) (.worker w) c r (congrArg WorkerPhase.serving hw)

/-! ## Runs -/

/-- What happened to the connections. -/
def connectionEvents (t : List ServerEvent) : List (LifeEvent HTTPSocket ServerThread) :=
  t.filterMap ServerEvent.life

theorem connectionEvents_append (t : List ServerEvent) (e : Option ServerEvent) :
    connectionEvents (t ++ e.toList) = connectionEvents t ++ (e.bind ServerEvent.life).toList := by
  rw [connectionEvents, List.filterMap_append]
  cases e with
  | none => rfl
  | some e => cases e <;> rfl

theorem pending_start {items : List HTTPSocket}
    (hitems : items.length = options.queueCapacity) (h : httpServerStart options items = some s) :
    s.queue.pending = [] := by
  obtain ⟨-, queue, hqueue, rfl⟩ := httpServerStart_eq_some h
  exact (HTTPRequestQueue.holds_init hitems hqueue).1.pending

private theorem placed_start {items : List HTTPSocket}
    (hitems : items.length = options.queueCapacity) (h : httpServerStart options items = some s)
    (c : HTTPSocket) : PlacedAt s.places c .closed := by
  have hempty : s.places.pending = [] := pending_start hitems h
  obtain ⟨-, queue, -, rfl⟩ := httpServerStart_eq_some h
  refine ⟨?_, ?_, ?_, ?_, ?_⟩
  · exact iff_of_false Bool.false_ne_true fun h => h rfl
  · exact iff_of_false nofun nofun
  · rw [hempty]
    exact iff_of_false List.not_mem_nil nofun
  · rintro (_ | w) program hserving <;> cases hserving
  · exact fun _ _ hstage => nomatch hstage

/-- The connections of a run live their lives. -/
theorem ServerRun.placed (h : ServerRun options spurious t s) :
    s.queue.pending.Nodup ∧ ∃ stage, LifeRun (connectionEvents t) stage ∧
      ∀ c, PlacedAt s.places c (stage c) := by
  induction h with
  | @start items s hitems hstart =>
    refine ⟨?_, _, .init, placed_start hitems hstart⟩
    rw [pending_start hitems hstart]
    exact List.nodup_nil
  | @step t s s' e hrun hstep ih =>
    obtain ⟨hnodup, stage, hlife, hplaced⟩ := ih
    obtain ⟨hnodup', stage', hmove, hplaced'⟩ :=
      (hstep.places hrun.inv).life hplaced hnodup
    refine ⟨hnodup', stage', ?_, hplaced'⟩
    rw [connectionEvents_append]
    rcases hmove with ⟨hnone, rfl⟩ | hmove
    · rw [hnone, Option.toList_none, List.append_nil]
      exact hlife
    · exact .step hlife hmove

/-- The number of connections that were counted. -/
def countedConnections (t : List ServerEvent) : Nat :=
  ((connectionEvents t).filter LifeEvent.isCount).length

/-- The number of connections that were accepted. -/
def acceptedConnections (t : List ServerEvent) : Nat :=
  ((connectionEvents t).filter LifeEvent.isReceive).length

private theorem completed_step (h : ServerStep options spurious s e s') :
    s'.completedResponses = s.completedResponses +
      UInt64.ofNat ((e.bind ServerEvent.life).toList.filter LifeEvent.isCount).length := by
  cases h with
  | @reject c o k answer _ =>
    cases o with
    | noteResponseComplete => rfl
    | _ => exact (UInt64.add_zero _).symm
  | @handle w c o k answer _ =>
    cases o with
    | noteResponseComplete => rfl
    | _ => exact (UInt64.add_zero _).symm
  | _ => exact (UInt64.add_zero _).symm

/-- `completed_responses` counts modulo `2 ^ 64`. -/
theorem ServerRun.completed (h : ServerRun options spurious t s) :
    s.completedResponses = UInt64.ofNat (countedConnections t) := by
  induction h with
  | start _ hstart =>
    obtain ⟨-, queue, -, rfl⟩ := httpServerStart_eq_some hstart
    rfl
  | @step t s s' e _ hstep ih =>
    rw [completed_step hstep, ih, countedConnections, countedConnections, connectionEvents_append,
      List.filter_append, List.length_append, UInt64.ofNat_add]

/-- All connections are settled, and counted modulo `2 ^ 64`. -/
structure Settled (t : List ServerEvent) (s : ServerState) : Prop where
  queue : s.queue.pending = []
  closed : ∀ c, s.isOpen c = false
  lives : ∀ c, ∃ threads : List ServerThread,
    historyOf c (connectionEvents t) = threads.flatMap (life c)
  completed : s.completedResponses = UInt64.ofNat (acceptedConnections t)

/-- A server that has returned holds no connection. -/
theorem closed_of_returned (hs : ServerInv options s) (hworkers : 0 < options.workerCount)
    (hmain : s.main = .returned 0) {c : HTTPSocket} {stage : Stage ServerThread}
    (hplaced : PlacedAt s.places c stage) : s.queue.pending = [] ∧ stage = .closed := by
  -- the main thread has joined every worker before it returns
  have hfinished (w : Nat) (hw : w < options.workerCount) : s.worker w = .finished := by
    have hjoined := hs.joined w
    rw [hmain] at hjoined
    exact hjoined hw
  -- a worker leaves its loop only with an empty queue
  have hempty := (hs.left 0 (.inr (hfinished 0 hworkers))).1
  refine ⟨hempty, ?_⟩
  cases stage with
  | closed => rfl
  | received =>
    have hreceived : s.main.received = some c := hplaced.received.mpr rfl
    rw [hmain] at hreceived
    cases hreceived
  | queued =>
    have hpending : c ∈ s.queue.pending := hplaced.pending.mpr rfl
    rw [hempty] at hpending
    exact absurd hpending List.not_mem_nil
  -- a thread that still serves is neither main, which returned, nor a worker that finished or was
  -- never created
  | served thread counted =>
    obtain ⟨program, hserving⟩ := hplaced.served thread counted rfl
    cases thread with
    | main =>
      have hmain' : s.main.serving = some (c, program) := hserving
      rw [hmain] at hmain'
      cases hmain'
    | worker w =>
      have hworker : (s.worker w).serving = some (c, program) := hserving
      rcases Nat.lt_or_ge w options.workerCount with hw | hw
      · rw [hfinished w hw] at hworker
        cases hworker
      · have hnever := hs.notCreated w
        rw [hmain] at hnever
        rw [hnever hw] at hworker
        cases hworker

/-- Every connection is settled exactly once: at any time its history is complete lives, each
with one thread, and the part of one that its place says; when the server has returned all
lives are over. -/
theorem ServerRun.settled (h : ServerRun options spurious t s) :
    (∀ c, ∃ (threads : List ServerThread) (stage : Stage ServerThread),
      historyOf c (connectionEvents t) = threads.flatMap (life c) ++ stage.part c ∧
        PlacedAt s.places c stage) ∧
      s.completedResponses = UInt64.ofNat (countedConnections t) ∧
      (s.main = .returned 0 → Settled t s) := by
  obtain ⟨-, stage, hlife, hplaced⟩ := h.placed
  refine ⟨fun c => ?_, h.completed, fun hmain => ?_⟩
  · obtain ⟨threads, hhistory⟩ := hlife.history c
    exact ⟨threads, stage c, hhistory, hplaced c⟩
  · have hreturned (c : HTTPSocket) :=
      closed_of_returned h.inv h.workerCount_pos hmain (hplaced c)
    refine ⟨(hreturned 0).1, fun c => ?_, fun c => ?_, ?_⟩
    · apply eq_false_of_ne_true
      intro hopen
      exact (hplaced c).isOpen.mp hopen (hreturned c).2
    · obtain ⟨threads, hhistory⟩ := hlife.history c
      rw [(hreturned c).2, Stage.part, List.append_nil] at hhistory
      exact ⟨threads, hhistory⟩
    · have hcount := hlife.count_eq fun c => (hreturned c).2
      rw [h.completed, countedConnections, hcount, acceptedConnections]

end Steps

/-! ## A server with one worker -/

section OneWorker

/-- One worker, a queue of one, no limit on the requests. -/
def oneOptions : HTTPServerOptions := ⟨1, 1, 0⟩

/-- A state of that server in which only connection 5 may be open. -/
def oneState (queue : HTTPRequestQueue) (queueMutex : Option Nat) (stopRequested : Bool)
    (completedResponses : UInt64) (phase : WorkerPhase) (main : MainPhase) (isOpen : Bool) :
    ServerState :=
  ⟨queue, queueMutex, stopRequested, completedResponses,
    Function.update (fun _ => .notCreated) 0 phase, main, Function.update (fun _ => false) 5 isOpen⟩

/-- The queue, empty or with connection 5. -/
def oneQueue (item : HTTPSocket) (count : Nat) (shuttingDown : Bool) : HTTPRequestQueue :=
  ⟨[item], 0, 0, count, 1, shuttingDown⟩

abbrev OneStep (s : ServerState) (e : Option ServerEvent) (s' : ServerState) : Prop :=
  ServerStep oneOptions False s e s'

private theorem ServerRun.silent {t : List ServerEvent} {s s' : ServerState}
    (h : ServerRun oneOptions False t s) (hstep : OneStep s none s') :
    ServerRun oneOptions False t s' := by
  have hrun := h.step hstep
  rwa [Option.toList_none, List.append_nil] at hrun

section Steps

variable {queue : HTTPRequestQueue} {queueMutex : Option Nat} {stopRequested : Bool}
  {completedResponses : UInt64} {phase : WorkerPhase} {main : MainPhase} {isOpen : Bool}

theorem oneState_setWorker (phase' : WorkerPhase) :
    (oneState queue queueMutex stopRequested completedResponses phase main isOpen).setWorker 0
      phase' = oneState queue queueMutex stopRequested completedResponses phase' main isOpen := by
  unfold oneState ServerState.setWorker
  dsimp only
  rw [Function.update_idem]

theorem oneState_setOpen (isOpen' : Bool) :
    (oneState queue queueMutex stopRequested completedResponses phase main isOpen).setOpen 5
      isOpen' = oneState queue queueMutex stopRequested completedResponses phase main isOpen' := by
  unfold oneState ServerState.setOpen
  dsimp only
  rw [Function.update_idem]

theorem oneState_noteResponseComplete :
    (oneState queue queueMutex stopRequested completedResponses phase main
      isOpen).noteResponseComplete oneOptions =
      oneState queue queueMutex stopRequested (completedResponses + 1) phase main isOpen := by
  unfold oneState ServerState.noteResponseComplete
  dsimp only
  rw [show decide (0 < oneOptions.maxRequests) = false from rfl, Bool.false_and, Bool.or_false]

theorem oneState_setMain (main' : MainPhase) :
    (oneState queue queueMutex stopRequested completedResponses phase main isOpen).setMain main' =
      oneState queue queueMutex stopRequested completedResponses phase main' isOpen := rfl

theorem oneState_setMutex (queueMutex' : Option Nat) :
    (oneState queue queueMutex stopRequested completedResponses phase main isOpen).setMutex
      queueMutex' =
      oneState queue queueMutex' stopRequested completedResponses phase main isOpen := rfl

theorem oneState_setQueue (queue' : HTTPRequestQueue) :
    (oneState queue queueMutex stopRequested completedResponses phase main isOpen).setQueue
      queue' =
      oneState queue' queueMutex stopRequested completedResponses phase main isOpen := rfl

/-- The worker gets the mutex and tests the queue. -/
theorem one_lock :
    OneStep (oneState queue none stopRequested completedResponses .entering main isOpen) none
      (oneState queue (some 0) stopRequested completedResponses .testing main isOpen) := by
  have hstep : OneStep (oneState queue none stopRequested completedResponses .entering main isOpen)
      none _ := .lock (w := 0) rfl rfl
  simpa only [oneState_setMutex, oneState_setWorker] using hstep

/-- The worker performs one call of its handler. -/
private theorem one_handle {o : HandlerOp} {k : o.Ans → HandlerProg Unit} (answer : o.Ans)
    (hevent : o.event (.worker 0) 5 = none) (hafter : ∀ s, ServerState.afterOp oneOptions s o = s) :
    OneStep (oneState queue queueMutex stopRequested completedResponses
        (.handling 5 (.call o k)) main isOpen) none
      (oneState queue queueMutex stopRequested completedResponses
        (.handling 5 (k answer)) main isOpen) := by
  have hstep : OneStep (oneState queue queueMutex stopRequested completedResponses
      (.handling 5 (.call o k)) main isOpen) _ _ := .handle (w := 0) answer rfl
  rwa [hevent, hafter, oneState_setWorker] at hstep

private theorem one_count {k : Unit → HandlerProg Unit} :
    OneStep (oneState queue queueMutex stopRequested completedResponses
        (.handling 5 (.call .noteResponseComplete k)) main isOpen) (some (.count (.worker 0) 5))
      (oneState queue queueMutex stopRequested (completedResponses + 1)
        (.handling 5 (k ())) main isOpen) := by
  have hstep : OneStep (oneState queue queueMutex stopRequested completedResponses
      (.handling 5 (.call .noteResponseComplete k)) main isOpen) _ _ := .handle (w := 0) () rfl
  rwa [ServerState.afterOp, oneState_noteResponseComplete, oneState_setWorker] at hstep

end Steps

/-- The server waits for a connection, the worker for something to do. -/
def oneIdle (item : HTTPSocket) (completedResponses : UInt64) : ServerState :=
  oneState (oneQueue item 0 false) none false completedResponses .waiting .looping false

theorem one_push (item : HTTPSocket) :
    httpRequestQueuePush (oneQueue item 0 false) 5 = some (true, oneQueue 5 1 false) := by
  simp [httpRequestQueuePush, oneQueue]

theorem one_take : httpRequestQueueTake (oneQueue 5 1 false) = some (5, oneQueue 5 0 false) := by
  simp [httpRequestQueueTake, oneQueue]

/-- The handler on a request that cannot be read, when there is no memory for an answer. -/
theorem httpServerHandleClient_unread : ∃ k k', httpServerHandleClient = .call .readRequest k ∧
    k (.error []) = .call (.buildErrorResponse 400 (bytes "malformed_http") []) k' ∧
    k' none = .call .noteResponseComplete .ret := ⟨_, _, rfl, rfl, rfl⟩

/-- What happens to one connection. -/
private def oneLife : List ServerEvent :=
  [.accept 5, .serve (.worker 0) 5, .count (.worker 0) 5, .close (.worker 0) 5]

/-- The server accepts a connection and the worker handles it. -/
private theorem one_round {t : List ServerEvent} {item : HTTPSocket} {completedResponses : UInt64}
    (h : ServerRun oneOptions False t (oneIdle item completedResponses)) :
    ServerRun oneOptions False (t ++ oneLife) (oneIdle 5 (completedResponses + 1)) := by
  obtain ⟨k, k', hhandler, hk, hk'⟩ := httpServerHandleClient_unread
  -- the main thread accepts the connection and queues it
  have haccept := ((h.silent (.goOn rfl rfl)).silent (.selectReady rfl)).step
    (.accept (c := 5) rfl (by decide) rfl)
  rw [oneIdle, oneState_setMain, oneState_setMain, oneState_setOpen, oneState_setMain] at haccept
  have hpush := haccept.silent (.pushSignal (w := 0) rfl rfl (one_push item) rfl)
  rw [ServerState.wake, oneState_setQueue, oneState_setWorker, oneState_setMain] at hpush
  -- the one worker takes it, reads nothing and answers 400
  have htake := (hpush.silent one_lock).step (.take (w := 0) (c := 5) rfl rfl one_take (by decide))
  rw [oneState_setQueue, oneState_setMutex, oneState_setWorker, hhandler] at htake
  have hread := htake.silent
    (one_handle (o := .readRequest) (k := k) (Except.error []) rfl fun _ => rfl)
  rw [hk] at hread
  have hbuild := hread.silent (one_handle (k := k') none rfl fun _ => rfl)
  rw [hk'] at hbuild
  -- it closes the connection, finds the queue empty and waits again
  have hclose := (hbuild.step one_count).step (.closeHandled (w := 0) rfl)
  rw [oneState_setOpen, oneState_setWorker] at hclose
  have htest := (hclose.silent one_lock).silent (.testWait (w := 0) rfl rfl)
  rw [oneState_setWorker] at htest
  have hwait := htest.silent (.wait (w := 0) rfl)
  rw [oneState_setMutex, oneState_setWorker] at hwait
  simp only [Option.toList_some, List.append_assoc, List.cons_append, List.nil_append] at hwait
  exact hwait

/-- The queue is shut down, and the worker wakes up. -/
theorem one_shutdown (item : HTTPSocket) (completedResponses : UInt64) :
    OneStep (oneState (oneQueue item 0 false) none true completedResponses .waiting
        (.shuttingDown 0) false) none
      (oneState (oneQueue item 0 true) none true completedResponses .entering (.joining 0 0)
        false) := by
  have hstep : OneStep (oneState (oneQueue item 0 false) none true completedResponses .waiting
      (.shuttingDown 0) false) none _ := .shutdown rfl rfl
  -- the broadcast wakes the only worker that waits
  have hwoken : ((oneState (oneQueue item 0 false) none true completedResponses .waiting
      (.shuttingDown 0) false).setQueue (oneQueue item 0 true)).wakeAll =
      oneState (oneQueue item 0 true) none true completedResponses .entering (.shuttingDown 0)
        false := by
    unfold ServerState.wakeAll oneState
    congr 1
    funext w
    by_cases hw : w = 0
    · subst hw
      rfl
    · rw [Function.update_of_ne hw]
      dsimp only [ServerState.setQueue]
      rw [Function.update_of_ne hw]
  change OneStep _ none ((((oneState (oneQueue item 0 false) none true completedResponses .waiting
    (.shuttingDown 0) false).setQueue (oneQueue item 0 true)).wakeAll).setMain (.joining 0 0))
    at hstep
  rwa [hwoken, oneState_setMain] at hstep

/-- The server stops. -/
private theorem one_return {t : List ServerEvent} {item : HTTPSocket} {completedResponses : UInt64}
    (h : ServerRun oneOptions False t (oneIdle item completedResponses)) :
    ServerRun oneOptions False t (oneState (oneQueue item 0 true) none true completedResponses
      .finished (.returned 0) false) := by
  have hdown := ((h.silent .signal).silent (.stop rfl rfl)).silent
    (one_shutdown item completedResponses)
  have htake := (hdown.silent one_lock).silent (.takeNone (w := 0) rfl rfl rfl)
  rw [oneState_setQueue, oneState_setMutex, oneState_setWorker] at htake
  have hleave := htake.silent (.leave (w := 0) rfl (.inl rfl))
  rw [oneState_setWorker] at hleave
  exact (hleave.silent (.join rfl (by decide) rfl)).silent (.joined rfl)

/-- The server starts. -/
private theorem one_start : ServerRun oneOptions False [] (oneIdle 0 0) := by
  have hstart : ServerRun oneOptions False []
      (oneState (oneQueue 0 0 false) none false 0 .notCreated (.creating 0) false) := by
    refine .start (rfl : ([0] : List HTTPSocket).length = 1) ?_
    unfold oneState
    rw [Function.update_eq_self_iff.mpr rfl, Function.update_eq_self_iff.mpr rfl]
    rfl
  have hcreate := hstart.silent (.create rfl (by decide))
  rw [oneState_setWorker, oneState_setMain] at hcreate
  have hlisten := (hcreate.silent (.created rfl)).silent (.listen rfl)
  rw [oneState_setMain, oneState_setMain] at hlisten
  have htest := (hlisten.silent one_lock).silent (.testWait (w := 0) rfl rfl)
  rw [oneState_setWorker] at htest
  have hwait := htest.silent (.wait (w := 0) rfl)
  rwa [oneState_setMutex, oneState_setWorker] at hwait

/-- The server with one worker can handle any number of connections. -/
private theorem one_run (n : Nat) : ∃ (t : List ServerEvent) (item : HTTPSocket),
    ServerRun oneOptions False t (oneIdle item (UInt64.ofNat n)) ∧ acceptedConnections t = n := by
  induction n with
  | zero => exact ⟨[], 0, one_start, rfl⟩
  | succ n ih =>
    obtain ⟨t, item, hrun, hcount⟩ := ih
    refine ⟨t ++ oneLife, 5, ?_, ?_⟩
    · rw [UInt64.ofNat_add]
      exact one_round hrun
    · rw [acceptedConnections, connectionEvents, List.filterMap_append, List.filter_append,
        List.length_append]
      exact congrArg (· + 1) hcount

/-- A server that returns after one connection. -/
theorem ServerRun.settled_one : ∃ s, s.main = .returned 0 ∧
    Settled [.accept 5, .serve (.worker 0) 5, .count (.worker 0) 5, .close (.worker 0) 5] s :=
  ⟨_, rfl, (ServerRun.settled (one_return (one_round one_start))).2.2 rfl⟩

/-- After `2 ^ 64` connections the counter is where it was at the start. -/
theorem ServerRun.completed_wraps : ∃ t s, ServerRun ⟨1, 1, 0⟩ False t s ∧ s.main = .returned 0 ∧
    acceptedConnections t = 2 ^ 64 ∧ s.completedResponses.toNat ≠ acceptedConnections t := by
  obtain ⟨t, item, hrun, hcount⟩ := one_run (2 ^ 64)
  refine ⟨t, _, one_return hrun, rfl, hcount, ?_⟩
  rw [hcount]
  exact (UInt64.toNat_lt _).ne

end OneWorker

end SqlApi.Server

import SqlApi.Lib.Program
import SqlApi.Lib.RWLock

/-!
# Programs under a readers–writer lock

Any number of clients serve requests over one shared state. A request names the access
it needs; its program runs one operation at a time between taking and giving back the
lock, interleaved with the programs of the other clients.

Three conditions on the programs (`Guarded`) make every interleaving look like one
request after the other: without access a program does nothing, with read access it
leaves the state alone, and run alone it ends. The order is the order in which access was
granted (`Guarded.Run.serial`).
-/

namespace SqlApi.Lib

/-- Requests over a shared state, and the programs that serve them. -/
structure Guarded (Op : Type) (Ans : Op → Type) (σ Q R : Type) where
  handler : Handler Op Ans σ
  /-- The access a request takes before its program runs. -/
  access : Q → Access
  body : Q → Program Op Ans R
  /-- Holds of the state while nobody writes. -/
  inv : σ → Prop
  /-- Operations that leave such a state alone. -/
  reads : Op → Prop
  body_total : ∀ q s, inv s → ∃ r s', (body q).run handler s = some (r, s') ∧ inv s'
  body_none : ∀ q, access q = .none → ∃ r, body q = pure r
  body_read : ∀ q, access q = .read → (body q).Uses reads
  reads_same : ∀ o s r, reads o → inv s → handler o s = some r → r.2 = s

/-- What a client does. -/
inductive ClientPhase (Op : Type) (Ans : Op → Type) (Q R : Type) where
  /-- Nothing that concerns the lock or the state. -/
  | idle
  /-- It was granted access for the request; this is left of the program. -/
  | running (q : Q) (p : Program Op Ans R)

/-- What a client does to the lock and the state. -/
inductive ClientEvent (W Q R : Type) where
  | acquire (w : W) (q : Q)
  | operation (w : W)
  | release (w : W) (q : Q) (r : R)

/-- Something that happens to the lock. -/
inductive LockEvent where
  | acquired (a : Access)
  | released (a : Access)
  deriving DecidableEq, Repr

section Guarded

variable {Op : Type} {Ans : Op → Type} {σ Q R W : Type}

/-! ## Traces -/

/-- The requests in the order in which they were granted access. -/
def grantOrder (t : List (ClientEvent W Q R)) : List (W × Q) :=
  t.filterMap fun
    | .acquire w q => some (w, q)
    | _ => none

section GrantOrder

variable (w : W) (t : List (ClientEvent W Q R)) (q : Q) (r : R)

@[simp] theorem grantOrder_acquire :
    grantOrder (t ++ [.acquire w q]) = grantOrder t ++ [(w, q)] := by
  simp [grantOrder]

@[simp] theorem grantOrder_operation : grantOrder (t ++ [.operation w]) = grantOrder t := by
  simp [grantOrder]

@[simp] theorem grantOrder_release : grantOrder (t ++ [.release w q r]) = grantOrder t := by
  simp [grantOrder]

end GrantOrder

/-- The programs of the requests one after the other, with all results. -/
def serial (body : Q → Program Op Ans R) : List (W × Q) → Program Op Ans (List (W × Q × R))
  | [] => pure []
  | (w, q) :: rest => do
    let r ← body q
    let answers ← serial body rest
    return (w, q, r) :: answers

private theorem serial_append (body : Q → Program Op Ans R) (calls : List (W × Q)) (w : W) (q : Q) :
    serial body (calls ++ [(w, q)]) = do
      let answers ← serial body calls
      let r ← body q
      return answers ++ [(w, q, r)] := by
  induction calls with
  | nil => simp [serial]
  | cons call rest ih =>
    obtain ⟨v, q'⟩ := call
    simp only [List.cons_append, serial, ih, bind_assoc, pure_bind]

/-- One more request at the end of a serial run. -/
theorem run_serial_append {h : Handler Op Ans σ} {body : Q → Program Op Ans R}
    {calls : List (W × Q)} {answers : List (W × Q × R)} {s s' s'' : σ} {q : Q} {r : R} (w : W)
    (hcalls : (serial body calls).run h s = some (answers, s'))
    (hbody : (body q).run h s' = some (r, s'')) :
    (serial body (calls ++ [(w, q)])).run h s = some (answers ++ [(w, q, r)], s'') := by
  rw [serial_append, Program.run_bind_of_eq hcalls, Program.run_bind_of_eq hbody]
  rfl

/-- A serial run up to one of its results, and from there on. -/
theorem run_serial_split {h : Handler Op Ans σ} {body : Q → Program Op Ans R} {calls : List (W × Q)}
    {earlier later : List (W × Q × R)} {s s' : σ} {w : W} {q : Q} {r : R}
    (hrun : (serial body calls).run h s = some (earlier ++ (w, q, r) :: later, s')) :
    ∃ before after s₁ s₂, calls = before ++ (w, q) :: after ∧
      (serial body before).run h s = some (earlier, s₁) ∧
      (body q).run h s₁ = some (r, s₂) ∧ (serial body after).run h s₂ = some (later, s') := by
  -- the induction is on the calls, until the one whose answer is asked for
  induction calls generalizing earlier s with
  | nil =>
    obtain ⟨hnil, -⟩ := Prod.mk.inj (Option.some.inj hrun)
    exact absurd hnil.symm (List.append_ne_nil_of_right_ne_nil _ (List.cons_ne_nil _ _))
  | cons call calls ih =>
    obtain ⟨v, q'⟩ := call
    rw [serial, Program.run_bind, Option.bind_eq_some_iff] at hrun
    obtain ⟨⟨r', s₁⟩, hbody, hrun⟩ := hrun
    rw [Program.run_bind, Option.bind_eq_some_iff] at hrun
    obtain ⟨⟨answers, s''⟩, hrest, hrun⟩ := hrun
    obtain ⟨hanswers, rfl⟩ : (v, q', r') :: answers = earlier ++ (w, q, r) :: later ∧ s'' = s' := by
      simpa using hrun
    cases earlier with
    | nil =>
      simp only [List.nil_append, List.cons.injEq, Prod.mk.injEq] at hanswers
      obtain ⟨⟨rfl, rfl, rfl⟩, rfl⟩ := hanswers
      exact ⟨[], calls, s, s₁, rfl, rfl, hbody, hrest⟩
    | cons first earlier =>
      obtain ⟨rfl, rfl⟩ := List.cons.inj hanswers
      obtain ⟨before, after, s₂, s₃, rfl, hbefore, hmine, hafter⟩ := ih hrest
      refine ⟨(v, q') :: before, after, s₂, s₃, rfl, ?_, hmine, hafter⟩
      rw [serial, Program.run_bind_of_eq hbody, Program.run_bind_of_eq hbefore]
      rfl

/-- The results of a serial run are those of its requests. -/
theorem calls_of_serial {h : Handler Op Ans σ} {body : Q → Program Op Ans R} {calls : List (W × Q)}
    {answers : List (W × Q × R)} {s s' : σ}
    (hrun : (serial body calls).run h s = some (answers, s')) :
    calls = answers.map fun answer => (answer.1, answer.2.1) := by
  induction calls generalizing answers s with
  | nil =>
    obtain ⟨rfl, -⟩ : [] = answers ∧ s = s' := by simpa [serial] using hrun
    rfl
  | cons call calls ih =>
    obtain ⟨v, q⟩ := call
    rw [serial, Program.run_bind, Option.bind_eq_some_iff] at hrun
    obtain ⟨⟨r, s₁⟩, -, hrun⟩ := hrun
    rw [Program.run_bind, Option.bind_eq_some_iff] at hrun
    obtain ⟨⟨answers', s₂⟩, hrest, hrun⟩ := hrun
    obtain ⟨rfl, rfl⟩ : (v, q, r) :: answers' = answers ∧ s₂ = s' := by simpa using hrun
    rw [ih hrest, List.map_cons]

variable [DecidableEq W]

/-- The requests a client is done with, and their results. -/
def servedBy (w : W) (t : List (ClientEvent W Q R)) : List (Q × R) :=
  t.filterMap fun
    | .release v q r => if v = w then some (q, r) else none
    | _ => none

/-- What a client does to the lock. -/
def lockEvents (access : Q → Access) (w : W) (t : List (ClientEvent W Q R)) : List LockEvent :=
  t.filterMap fun
    | .acquire v q => if v = w ∧ access q ≠ .none then some (.acquired (access q)) else none
    | .release v q _ => if v = w ∧ access q ≠ .none then some (.released (access q)) else none
    | .operation _ => none

/-- The last event of a client that holds this access. -/
def heldNow (a : Access) : List LockEvent := if a = .none then [] else [.acquired a]

/-- Each access is taken and given back before the next. -/
def lockPairs (accesses : List Access) : List LockEvent :=
  accesses.flatMap fun a => [.acquired a, .released a]

/-- The requests of one client, and their results. -/
def answersOf (w : W) (answers : List (W × Q × R)) : List (Q × R) :=
  answers.filterMap fun answer => if answer.1 = w then some answer.2 else none

theorem answersOf_append_self (w : W) (answers : List (W × Q × R)) (q : Q) (r : R) :
    answersOf w (answers ++ [(w, q, r)]) = answersOf w answers ++ [(q, r)] := by
  simp [answersOf]

theorem answersOf_append_other {v w : W} (h : w ≠ v) (answers : List (W × Q × R)) (q : Q)
    (r : R) : answersOf v (answers ++ [(w, q, r)]) = answersOf v answers := by
  simp [answersOf, h]

/-- The last result of a client, and what came before and after it. -/
theorem answersOf_last {w : W} {answers : List (W × Q × R)} {mine : List (Q × R)} {q : Q} {r : R}
    (h : answersOf w answers = mine ++ [(q, r)]) :
    ∃ earlier later, answers = earlier ++ (w, q, r) :: later ∧ ∀ answer ∈ later, answer.1 ≠ w := by
  -- the induction is on the answers from the end: the last of this worker is found there
  induction answers using List.reverseRecOn with
  | nil => exact absurd h.symm (List.append_ne_nil_of_right_ne_nil _ (List.cons_ne_nil _ _))
  | append_singleton answers answer ih =>
    obtain ⟨v, q', r'⟩ := answer
    rcases eq_or_ne v w with rfl | hne
    · rw [answersOf_append_self] at h
      obtain ⟨-, hlast⟩ := List.append_inj' h rfl
      obtain ⟨rfl, rfl⟩ := Prod.mk.inj (List.singleton_inj.mp hlast)
      exact ⟨answers, [], rfl, fun _ hmem => absurd hmem List.not_mem_nil⟩
    · rw [answersOf_append_other hne] at h
      obtain ⟨earlier, later, rfl, hlater⟩ := ih h
      refine ⟨earlier, later ++ [(v, q', r')], by simp, fun answer hmem => ?_⟩
      rcases List.mem_append.mp hmem with hmem | hmem
      · exact hlater answer hmem
      · rw [List.mem_singleton.mp hmem]
        exact hne

section Trace

variable (v w : W) (t : List (ClientEvent W Q R)) (q : Q) (r : R)

@[simp] theorem servedBy_acquire : servedBy v (t ++ [.acquire w q]) = servedBy v t := by
  simp [servedBy]

@[simp] theorem servedBy_operation : servedBy v (t ++ [.operation w]) = servedBy v t := by
  simp [servedBy]

@[simp] theorem servedBy_release_self :
    servedBy w (t ++ [.release w q r]) = servedBy w t ++ [(q, r)] := by
  simp [servedBy]

theorem lockEvents_acquire_self (access : Q → Access) :
    lockEvents access w (t ++ [.acquire w q]) = lockEvents access w t ++ heldNow (access q) := by
  unfold heldNow
  by_cases hq : access q = .none <;> simp [lockEvents, hq]

theorem lockEvents_release_self (access : Q → Access) :
    heldNow (access q) = [] ∧
        lockEvents access w (t ++ [.release w q r]) = lockEvents access w t ∨
      heldNow (access q) = [.acquired (access q)] ∧
        lockEvents access w (t ++ [.release w q r]) =
          lockEvents access w t ++ [.released (access q)] := by
  unfold heldNow
  by_cases hq : access q = .none <;> simp [lockEvents, hq]

@[simp] theorem lockEvents_operation (access : Q → Access) :
    lockEvents access v (t ++ [.operation w]) = lockEvents access v t := by
  simp [lockEvents]

theorem lockEvents_acquire_other (access : Q → Access) {v w : W} (h : w ≠ v) :
    lockEvents access v (t ++ [.acquire w q]) = lockEvents access v t := by
  simp [lockEvents, h]

theorem lockEvents_release_other (access : Q → Access) {v w : W} (h : w ≠ v) :
    lockEvents access v (t ++ [.release w q r]) = lockEvents access v t := by
  simp [lockEvents, h]

theorem servedBy_release_other {v w : W} (h : w ≠ v) :
    servedBy v (t ++ [.release w q r]) = servedBy v t := by
  simp [servedBy, h]

end Trace

/-! ## Interleavings -/

/-- The shared state, the lock, and what each client does. -/
structure GuardedState (Op : Type) (Ans : Op → Type) (σ Q R W : Type) where
  state : σ
  lock : RWLock
  phase : W → ClientPhase Op Ans Q R

/-- Nobody does anything yet. -/
def GuardedState.start (s : σ) : GuardedState Op Ans σ Q R W := ⟨s, .free, fun _ => .idle⟩

/-- The access a client holds. -/
def ClientPhase.holds (access : Q → Access) : ClientPhase Op Ans Q R → Access
  | .idle => .none
  | .running q _ => access q

namespace Guarded

variable (G : Guarded Op Ans σ Q R)

/-- The access each client holds. -/
def holds (phase : W → ClientPhase Op Ans Q R) (w : W) : Access := (phase w).holds G.access

omit [DecidableEq W] in
theorem holds_of_idle {phase : W → ClientPhase Op Ans Q R} {w : W} (h : phase w = .idle) :
    G.holds phase w = .none := by
  unfold holds
  rw [h]
  rfl

omit [DecidableEq W] in
theorem holds_of_running {phase : W → ClientPhase Op Ans Q R} {w : W} {q : Q}
    {p : Program Op Ans R} (h : phase w = .running q p) : G.holds phase w = G.access q := by
  unfold holds
  rw [h]
  rfl

theorem holds_update (phase : W → ClientPhase Op Ans Q R) (w : W) (ph : ClientPhase Op Ans Q R) :
    G.holds (Function.update phase w ph) =
      Function.update (G.holds phase) w (ph.holds G.access) :=
  Function.comp_update (ClientPhase.holds G.access) phase w ph

/-- One step of one client. -/
inductive Step (c : GuardedState Op Ans σ Q R W) :
    ClientEvent W Q R → GuardedState Op Ans σ Q R W → Prop
  | acquire {w : W} {q : Q} {l : RWLock} : c.phase w = .idle →
      c.lock.tryLock (G.access q) = some l →
      Step c (.acquire w q)
        { c with lock := l, phase := Function.update c.phase w (.running q (G.body q)) }
  | operation {w : W} {q : Q} {p p' : Program Op Ans R} {s : σ} : c.phase w = .running q p →
      p.step G.handler c.state = some (p', s) →
      Step c (.operation w)
        { c with state := s, phase := Function.update c.phase w (.running q p') }
  | release {w : W} {q : Q} {r : R} : c.phase w = .running q (.ret r) →
      Step c (.release w q r)
        { c with
          lock := c.lock.unlock (G.access q)
          phase := Function.update c.phase w .idle }

/-- The states any interleaving reaches, and what happened on the way. -/
inductive Run (s₀ : σ) : List (ClientEvent W Q R) → GuardedState Op Ans σ Q R W → Prop
  | start : Run s₀ [] (.start s₀)
  | step {t : List (ClientEvent W Q R)} {c c' : GuardedState Op Ans σ Q R W}
      {e : ClientEvent W Q R} : Run s₀ t c → G.Step c e c' → Run s₀ (t ++ [e]) c'

/-! ## Every interleaving is serial -/

/-- What is left of a running program. `final` is the state after all requests that were
granted access, one after the other. -/
structure Pending (s final : σ) (q : Q) (p : Program Op Ans R) (r : R) : Prop where
  none : G.access q = .none → p = .ret r
  read : G.access q = .read → p.Uses G.reads
  run : G.access q ≠ .none → p.run G.handler s = some (r, final)

/-- The serial results of a client are those it got, and the one it is about to get. -/
def Answered (s final : σ) (served answers : List (Q × R)) : ClientPhase Op Ans Q R → Prop
  | .idle => answers = served
  | .running q p => ∃ r, G.Pending s final q p r ∧ answers = served ++ [(q, r)]

/-- A client does not notice the steps of others. -/
theorem Answered.other {s s' final final' : σ} {served answers : List (Q × R)}
    {ph : ClientPhase Op Ans Q R} (h : G.Answered s final served answers ph)
    (hsame : ph.holds G.access ≠ .none → s' = s ∧ final' = final) :
    G.Answered s' final' served answers ph := by
  cases ph with
  | idle => exact h
  | running q p =>
    obtain ⟨r, hp, hanswers⟩ := h
    refine ⟨r, ?_, hanswers⟩
    rcases eq_or_ne (G.access q) .none with hnone | hsome
    · exact ⟨hp.none, fun hread => absurd (hnone.symm.trans hread) nofun,
        fun hsome => absurd hnone hsome⟩
    · obtain ⟨rfl, rfl⟩ := hsame hsome
      exact hp

/-- Where an interleaving stands compared with the serial run. -/
structure Serial (s₀ : σ) (t : List (ClientEvent W Q R)) (c : GuardedState Op Ans σ Q R W)
    (answers : List (W × Q × R)) (final : σ) : Prop where
  serial : (serial G.body (grantOrder t)).run G.handler s₀ = some (answers, final)
  inv : G.inv final
  counts : c.lock.Counts (G.holds c.phase)
  settled : (∀ w, G.holds c.phase w ≠ .write) → c.state = final
  clients : ∀ w, G.Answered c.state final (servedBy w t) (answersOf w answers) (c.phase w)

variable {G} {s₀ : σ} {t : List (ClientEvent W Q R)} {c c' : GuardedState Op Ans σ Q R W}
  {answers : List (W × Q × R)} {final : σ} {w : W} {q : Q} {r : R}

theorem Serial.start (hinv : G.inv s₀) : G.Serial s₀ [] (.start (W := W) s₀) [] s₀ where
  serial := rfl
  inv := hinv
  counts := RWLock.counts_free
  settled := fun _ => rfl
  clients := fun _ => rfl

/-- Only a writer changes the state. -/
private theorem final_eq (hwrite : G.access q ≠ .write) (hinv : G.inv final) {final' : σ}
    (hbody : (G.body q).run G.handler final = some (r, final')) : final' = final := by
  cases haccess : G.access q with
  | none =>
    obtain ⟨r', hpure⟩ := G.body_none q haccess
    obtain ⟨-, rfl⟩ : r' = r ∧ final = final' := by simpa [hpure] using hbody
    rfl
  | read =>
    have hsame : G.inv final → final' = final := by
      refine (G.body_read q haccess).run (R := fun s s' => G.inv s → s' = s) (fun s _ => rfl)
        (fun s t u hst htu hs => ?_) (fun o s r ho hr hs => G.reads_same o s r ho hs hr) hbody
      rw [htu (hst hs ▸ hs), hst hs]
    exact hsame hinv
  | write => exact absurd haccess hwrite

/-- Granting access: the request is served next in the serial run. -/
theorem Serial.acquire (h : G.Serial s₀ t c answers final) {l : RWLock}
    (hidle : c.phase w = .idle) (hlock : c.lock.tryLock (G.access q) = some l) :
    ∃ answers' final', G.Serial s₀ (t ++ [.acquire w q])
      { c with lock := l, phase := Function.update c.phase w (.running q (G.body q)) }
      answers' final' := by
  obtain ⟨r, final', hbody, hinv'⟩ := G.body_total q final h.inv
  -- a reader finds no writer, a writer finds nobody
  obtain ⟨hread, hwrite⟩ := h.counts.of_tryLock hlock
  have hnone := G.holds_of_idle hidle
  have hfinal (hq : G.access q ≠ .write) : final' = final := final_eq hq h.inv hbody
  have hclient : G.Pending c.state final' q (G.body q) r := by
    refine ⟨fun hq => ?_, G.body_read q, fun hq => ?_⟩
    · obtain ⟨r', hpure⟩ := G.body_none q hq
      obtain ⟨rfl, -⟩ : r' = r ∧ final = final' := by simpa [hpure] using hbody
      exact hpure
    · -- whoever gets the lock finds the state settled
      rw [h.settled fun v => ?_]
      · exact hbody
      · cases haccess : G.access q with
        | none => exact absurd haccess hq
        | read => exact hread haccess v
        | write =>
          rw [hwrite haccess v]
          exact nofun
  refine ⟨answers ++ [(w, q, r)], final', ?_, hinv', ?_, fun hsettled => ?_, fun v => ?_⟩
  · -- the call is appended to the serial order at the moment it gets the lock
    rw [grantOrder_acquire]
    exact run_serial_append w h.serial hbody
  · rw [holds_update]
    exact h.counts.tryLock hnone hlock
  · rw [holds_update] at hsettled
    have hq : G.access q ≠ .write := by
      have hself := hsettled w
      rwa [Function.update_self] at hself
    rw [hfinal hq]
    refine h.settled fun v => ?_
    rcases eq_or_ne v w with rfl | hne
    · rw [hnone]
      exact nofun
    · have hother := hsettled v
      rwa [Function.update_of_ne hne] at hother
  · rw [servedBy_acquire]
    dsimp only
    rcases eq_or_ne w v with rfl | hne
    · rw [answersOf_append_self, Function.update_self]
      have hmine := h.clients w
      rw [hidle] at hmine
      exact ⟨r, hclient, by rw [hmine]⟩
    · rw [answersOf_append_other hne, Function.update_of_ne hne.symm]
      refine (h.clients v).other G fun hholds => ⟨rfl, hfinal fun hq => hholds ?_⟩
      exact hwrite hq v

/-- An operation: the serial run is the same. -/
theorem Serial.operation (h : G.Serial s₀ t c answers final) {p p' : Program Op Ans R} {s : σ}
    (hrunning : c.phase w = .running q p) (hstep : p.step G.handler c.state = some (p', s)) :
    G.Serial s₀ (t ++ [.operation w])
      { c with state := s, phase := Function.update c.phase w (.running q p') }
      answers final := by
  have hclient := h.clients w
  rw [hrunning] at hclient
  obtain ⟨r, hp, hanswers⟩ := hclient
  have hholds := G.holds_of_running hrunning
  have hsame : G.holds (Function.update c.phase w (.running q p')) = G.holds c.phase := by
    rw [holds_update]
    change Function.update (G.holds c.phase) w (G.access q) = _
    rw [← hholds, Function.update_eq_self]
  have hlocked : G.access q ≠ .none := by
    intro hq
    rw [hp.none hq] at hstep
    cases hstep
  -- a reader's operation changes nothing
  have hread (hq : G.access q = .read) : s = c.state ∧ c.state = final := by
    have hsettled := h.settled (h.counts.not_write (hholds.trans hq))
    obtain ⟨-, o, a, ho, ha, rfl⟩ := (hp.read hq).step hstep
    exact ⟨G.reads_same o c.state a ho (hsettled ▸ h.inv) ha, hsettled⟩
  have hclient' : G.Pending s final q p' r := by
    refine ⟨fun hq => absurd hq hlocked, fun hq => ((hp.read hq).step hstep).1, fun hq => ?_⟩
    rw [← Program.run_step hstep]
    exact hp.run hq
  refine ⟨?_, h.inv, hsame ▸ h.counts, fun hsettled => ?_, fun v => ?_⟩
  · rw [grantOrder_operation]
    exact h.serial
  · rw [hsame] at hsettled
    cases hq : G.access q with
    | none => exact absurd hq hlocked
    | read => exact (hread hq).1.trans (hread hq).2
    | write => exact absurd (hholds.trans hq) (hsettled w)
  · rw [servedBy_operation]
    dsimp only
    rcases eq_or_ne v w with rfl | hne
    · rw [Function.update_self]
      exact ⟨r, hclient', hanswers⟩
    · rw [Function.update_of_ne hne]
      refine (h.clients v).other G fun hv => ⟨?_, rfl⟩
      cases hq : G.access q with
      | none => exact absurd hq hlocked
      | read => exact (hread hq).1
      | write => exact absurd (h.counts.alone w v (hholds.trans hq) hv) hne.symm

/-- Giving access back: the result is the serial one. -/
theorem Serial.release (h : G.Serial s₀ t c answers final)
    (hrunning : c.phase w = .running q (.ret r)) :
    G.Serial s₀ (t ++ [.release w q r])
      { c with
        lock := c.lock.unlock (G.access q)
        phase := Function.update c.phase w .idle }
      answers final := by
  have hclient := h.clients w
  rw [hrunning] at hclient
  obtain ⟨r', hp, hanswers⟩ := hclient
  have hholds := G.holds_of_running hrunning
  -- the answer is the one the serial run gave when the lock was granted
  have hresult : r' = r ∧ (G.access q ≠ .none → c.state = final) := by
    rcases eq_or_ne (G.access q) .none with hq | hq
    · exact ⟨by simpa using (hp.none hq).symm, fun hlocked => absurd hq hlocked⟩
    · obtain ⟨rfl, hstate⟩ : r = r' ∧ c.state = final := by simpa using hp.run hq
      exact ⟨rfl, fun _ => hstate⟩
  obtain ⟨rfl, hstate⟩ := hresult
  refine ⟨?_, h.inv, ?_, fun hsettled => ?_, fun v => ?_⟩
  · rw [grantOrder_release]
    exact h.serial
  · rw [holds_update]
    change (c.lock.unlock (G.access q)).Counts (Function.update (G.holds c.phase) w .none)
    rw [← hholds]
    exact h.counts.unlock
  · rcases eq_or_ne (G.access q) .none with hq | hq
    · refine h.settled fun v => ?_
      rcases eq_or_ne v w with rfl | hne
      · rw [hholds, hq]
        exact nofun
      · have hother := hsettled v
        rwa [holds_update, Function.update_of_ne hne] at hother
    · exact hstate hq
  · dsimp only
    rcases eq_or_ne w v with rfl | hne
    · rw [Function.update_self, servedBy_release_self]
      exact hanswers
    · rw [Function.update_of_ne hne.symm, servedBy_release_other t q _ hne]
      exact h.clients v

/-- Every interleaving is serial, in the order in which access was granted. -/
theorem Run.serial (h : G.Run s₀ t c) (hinv : G.inv s₀) :
    ∃ answers final, G.Serial s₀ t c answers final := by
  induction h with
  | start => exact ⟨_, _, .start hinv⟩
  | step _ hstep ih =>
    obtain ⟨answers, final, hserial⟩ := ih
    cases hstep with
    | acquire hidle hlock => exact hserial.acquire hidle hlock
    | operation hrunning hop => exact ⟨_, _, hserial.operation hrunning hop⟩
    | release hrunning => exact ⟨_, _, hserial.release hrunning⟩

/-- A request that holds the lock is never stuck: it has its result or performs another
operation. -/
theorem Serial.progress (h : G.Serial s₀ t c answers final) {p : Program Op Ans R}
    (hrunning : c.phase w = .running q p) :
    (∃ r, p = .ret r) ∨ ∃ p' s, p.step G.handler c.state = some (p', s) := by
  have hclient := h.clients w
  rw [hrunning] at hclient
  obtain ⟨r, hp, -⟩ := hclient
  rcases eq_or_ne (G.access q) .none with hq | hq
  · exact .inl ⟨r, hp.none hq⟩
  · have hrun := hp.run hq
    cases p with
    | ret r' => exact .inl ⟨r', rfl⟩
    | call o k =>
      rw [Program.run_call, Option.bind_eq_some_iff] at hrun
      obtain ⟨a, ha, -⟩ := hrun
      exact .inr ⟨k a.1, a.2, by rw [Program.step, ha]; rfl⟩

/-- A client that has its result: the request was served after the ones that were granted access
before it, the client was granted none since, and the state is the one after all of them. -/
theorem Serial.of_result (h : G.Serial s₀ t c answers final)
    (hrunning : c.phase w = .running q (.ret r)) :
    ∃ before after earlier later s s', grantOrder t = before ++ (w, q) :: after ∧
      (∀ call ∈ after, call.1 ≠ w) ∧
      (Lib.serial G.body before).run G.handler s₀ = some (earlier, s) ∧
      (G.body q).run G.handler s = some (r, s') ∧
      (Lib.serial G.body after).run G.handler s' = some (later, final) ∧
      (G.access q ≠ .none → c.state = final) := by
  have hclient := h.clients w
  rw [hrunning] at hclient
  obtain ⟨r', hp, hanswers⟩ := hclient
  have hresult : r' = r ∧ (G.access q ≠ .none → c.state = final) := by
    rcases eq_or_ne (G.access q) .none with hq | hq
    · exact ⟨by simpa using (hp.none hq).symm, fun hlocked => absurd hq hlocked⟩
    · obtain ⟨rfl, hstate⟩ : r = r' ∧ c.state = final := by simpa using hp.run hq
      exact ⟨rfl, fun _ => hstate⟩
  obtain ⟨rfl, hstate⟩ := hresult
  -- the last answer of this worker splits the serial order in front of its call
  obtain ⟨earlier, later, rfl, hlater⟩ := answersOf_last hanswers
  obtain ⟨before, after, s, s', hcalls, hbefore, hmine, hafter⟩ := run_serial_split h.serial
  refine ⟨before, after, earlier, later, s, s', hcalls, ?_, hbefore, hmine, hafter, hstate⟩
  rw [calls_of_serial hafter]
  intro call hcall
  obtain ⟨answer, hanswer, rfl⟩ := List.mem_map.mp hcall
  exact hlater answer hanswer

/-! ## Readers -/

/-- While a client reads, the others only perform reading operations. -/
theorem Serial.uses_of_reader (h : G.Serial s₀ t c answers final)
    (hread : G.holds c.phase w = .read) {v : W} {q : Q} {p : Program Op Ans R}
    (hrunning : c.phase v = .running q p) : p.Uses G.reads := by
  have hclient := h.clients v
  rw [hrunning] at hclient
  obtain ⟨r, hp, -⟩ := hclient
  cases hq : G.access q with
  | none =>
    rw [hp.none hq]
    trivial
  | read => exact hp.read hq
  | write =>
    have hholds := G.holds_of_running hrunning
    exact absurd (hholds.trans hq) (h.counts.not_write hread v)

/-- While a client reads, the state is the one after all requests served so far. -/
theorem Serial.state_of_reader (h : G.Serial s₀ t c answers final)
    (hread : G.holds c.phase w = .read) : G.inv c.state ∧ c.state = final := by
  have hstate := h.settled (h.counts.not_write hread)
  exact ⟨hstate ▸ h.inv, hstate⟩

/-- While a client reads, an operation of any client leaves the state as it is. -/
theorem Serial.operation_of_reader (h : G.Serial s₀ t c answers final)
    (hread : G.holds c.phase w = .read) {v : W} {q : Q} {p p' : Program Op Ans R} {s : σ}
    (hrunning : c.phase v = .running q p) (hstep : p.step G.handler c.state = some (p', s)) :
    s = c.state := by
  obtain ⟨-, o, a, ho, ha, rfl⟩ := (h.uses_of_reader hread hrunning).step hstep
  exact G.reads_same o c.state a ho (h.state_of_reader hread).1 ha

/-- What is left of a reader's request computes what the whole request does. -/
theorem Run.run_of_reader (h : G.Run s₀ t c) (hinv : G.inv s₀) {p : Program Op Ans R}
    (hrunning : c.phase w = .running q p) (hread : G.access q = .read) :
    p.run G.handler c.state = (G.body q).run G.handler c.state := by
  -- the induction is on the run: as long as a reader holds the lock, nobody changes the state
  induction h generalizing p with
  | start => cases hrunning
  | @step t c c' e hrun hstep ih =>
    obtain ⟨answers, final, hserial⟩ := hrun.serial hinv
    cases hstep with
    | @acquire v q' l hidle hlock =>
      dsimp only at hrunning ⊢
      rcases eq_or_ne w v with rfl | hne
      · obtain ⟨rfl, rfl⟩ := by simpa using hrunning
        rfl
      · rw [Function.update_of_ne hne] at hrunning
        exact ih hrunning
    | @operation v q' p₀ p₀' s hrunning₀ hop =>
      dsimp only at hrunning ⊢
      rcases eq_or_ne w v with rfl | hne
      · obtain ⟨rfl, rfl⟩ := by simpa using hrunning
        have hholds := (G.holds_of_running hrunning₀).trans hread
        have hsame := hserial.operation_of_reader hholds hrunning₀ hop
        rw [← Program.run_step hop, hsame]
        exact ih hrunning₀
      · rw [Function.update_of_ne hne] at hrunning
        have hholds := (G.holds_of_running hrunning).trans hread
        have hsame := hserial.operation_of_reader hholds hrunning₀ hop
        rw [hsame]
        exact ih hrunning
    | @release v q' r hrunning₀ =>
      dsimp only at hrunning ⊢
      rcases eq_or_ne w v with rfl | hne
      · simp at hrunning
      · rw [Function.update_of_ne hne] at hrunning
        exact ih hrunning

/-! ## Locks are paired -/

/-- Every client gives back each access it took before it takes the next, and gives back
nothing else. -/
theorem Run.lockEvents_paired (h : G.Run s₀ t c) (v : W) :
    ∃ accesses, lockEvents G.access v t = lockPairs accesses ++ heldNow (G.holds c.phase v) := by
  -- the induction is on the run: a grant opens a pair and the release of the same worker closes it
  induction h with
  | start => exact ⟨[], rfl⟩
  | @step t c c' e _ hstep ih =>
    obtain ⟨accesses, ih⟩ := ih
    cases hstep with
    | @acquire w q l hidle hlock =>
      rcases eq_or_ne w v with rfl | hne
      · refine ⟨accesses, ?_⟩
        rw [lockEvents_acquire_self, ih, G.holds_of_idle hidle, holds_update, Function.update_self,
          List.append_assoc]
        rfl
      · rw [lockEvents_acquire_other t q _ hne, holds_update, Function.update_of_ne hne.symm]
        exact ⟨accesses, ih⟩
    | @operation w q p p' s hrunning hop =>
      rw [lockEvents_operation, holds_update]
      rcases eq_or_ne w v with rfl | hne
      · rw [Function.update_self]
        rw [G.holds_of_running hrunning] at ih
        exact ⟨accesses, ih⟩
      · rw [Function.update_of_ne hne.symm]
        exact ⟨accesses, ih⟩
    | @release w q r hrunning =>
      rcases eq_or_ne w v with rfl | hne
      · rw [holds_update, Function.update_self]
        rw [G.holds_of_running hrunning] at ih
        rcases lockEvents_release_self w t q r G.access with ⟨hheld, hevents⟩ | ⟨hheld, hevents⟩
        · exact ⟨accesses, by rw [hevents, ih, hheld]; rfl⟩
        · refine ⟨accesses ++ [G.access q], ?_⟩
          rw [hevents, ih, hheld]
          simp [lockPairs, heldNow, ClientPhase.holds]
      · rw [lockEvents_release_other t q _ _ hne, holds_update, Function.update_of_ne hne.symm]
        exact ⟨accesses, ih⟩

end Guarded

end Guarded

end SqlApi.Lib

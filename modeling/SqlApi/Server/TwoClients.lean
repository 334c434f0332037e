import SqlApi.Server.EndToEnd

/-!
# What clients see of each other

Two clients of one server, whatever the interleaving: their queries have places in one common order,
and when the connection of one is about to be closed before a worker takes that of the other, its
place is the earlier one. So no INSERT that was acknowledged is lost, no id is given twice, and a
SELECT never sees less than an earlier one.

The place of a query in the common order is where the lock was granted to it, and it lies between
the start of its call and the end (`Linearizable`). A worker that takes a connection after another
one is about to be closed starts its call later than that one was granted.
-/

namespace SqlApi.Server

open SqlApi.Lib SqlApi.Core

variable {options : HTTPServerOptions} {spurious : Prop} {t : List ServiceEvent} {s : Service}
  {c : HTTPSocket} {w : Nat} {query : Cursor}

/-! ## One after the other -/

/-- The answer to a query that waited too long for its lock. -/
def lockTimeoutAnswer : APIAnswer :=
  .error 503 (bytes "lock_timeout") (bytes "Lock wait timeout exceeded")

variable {t₁ t₂ : List ServiceEvent} {s₁ s' : Service} {v : Nat} {d : HTTPSocket}
  {query' : Cursor}

/-- What one client was told before a worker took the connection of another has its place before
what the other is told. -/
theorem ServiceRun.told_in_order {execution execution' : DBServerExecution} {rows rows' : List Row}
    {program program' : HandlerProg Unit} (h : ServiceRun options spurious t s)
    (hsteps : s.Steps options spurious t₁ s₁) (hfree : s₁.server.serving (.worker w) = none)
    (hsteps' : s₁.Steps options spurious t₂ s')
    (hfirst : s.server.serving (.worker v) = some (c, program))
    (hexecuted : (s.exchange (.worker v)).executed = some ⟨query, execution, rows⟩)
    (hsecond : s'.server.serving (.worker w) = some (d, program'))
    (hexecuted' : (s'.exchange (.worker w)).executed = some ⟨query', execution', rows'⟩) :
    ∃ earlier later earlier' later',
      callTrace (databaseTrace (t ++ t₁ ++ t₂)) = earlier ++ later ∧
      callTrace (databaseTrace (t ++ t₁ ++ t₂)) = earlier' ++ later' ∧
      Linearized earlier (.worker v) query execution rows ∧
      Linearized earlier' (.worker w) query' execution' rows' ∧
      ∀ before before', GrantedAfter earlier (.worker v) query before →
        GrantedAfter earlier' (.worker w) query' before' →
        ∃ between, before' = before ++ (.worker v, query) :: between := by
  have htold := (h.inv.serves (.worker v)).told (by rw [hfirst]; rintro ⟨⟩)
  obtain ⟨-, earlier, later, hsplit, -, hplace⟩ := htold.executed _ hexecuted
  -- the second worker started its call when it had been free
  have hserves := hsteps'.serves (h.steps hsteps) hfree
  obtain ⟨-, earlier', later', hsplit', hstarted, hplace'⟩ :=
    (hserves.told (by rw [hsecond]; rintro ⟨⟩)).executed _ hexecuted'
  have htrace (t' : List ServiceEvent) : callTrace (databaseTrace (t ++ t')) =
      earlier ++ (later ++ callTrace (databaseTrace t')) := by
    rw [databaseTrace, List.filterMap_append, callTrace_append, ← List.append_assoc, ← hsplit]
    rfl
  have htotal := htrace (t₁ ++ t₂)
  rw [← List.append_assoc] at htotal
  refine ⟨earlier, _, earlier', later', htotal, hsplit', hplace, hplace', ?_⟩
  intro before before' hgranted hgranted'
  obtain ⟨after, horder, -⟩ := hgranted.lockOrder
  obtain ⟨rest, rfl⟩ := hgranted'.startedAfter hstarted
  refine ⟨after ++ lockOrder (later ++ callTrace (databaseTrace t₁)) ++ rest, ?_⟩
  rw [htrace, lockOrder_append, horder]
  simp only [List.append_assoc, List.cons_append]

/-- Then both are answered as the list of rows answers them in this order, unless one timed out. -/
theorem Linearized.in_order {earlier earlier' : List (CallEvent ServerThread)}
    {execution execution' : DBServerExecution} {rows rows' : List Row}
    (h : Linearized earlier (.worker v) query execution rows)
    (h' : Linearized earlier' (.worker w) query' execution' rows') (hcount : Countable earlier)
    (hcount' : Countable earlier')
    (horder : ∀ before before', GrantedAfter earlier (.worker v) query before →
      GrantedAfter earlier' (.worker w) query' before' →
      ∃ between, before' = before ++ (.worker v, query) :: between) :
    apiExecutionAnswer rows execution = lockTimeoutAnswer ∨
    apiExecutionAnswer rows' execution' = lockTimeoutAnswer ∨ ∃ before between,
      before ++ (.worker v, query) :: between ++ [(.worker w, query')] <+: lockOrder earlier' ∧
      apiExecutionAnswer rows execution = (apiReference (referenceRows before []) query).1 ∧
      apiExecutionAnswer rows' execution' = (apiReference
        (referenceRows (before ++ (.worker v, query) :: between) []) query').1 := by
  rcases h.reference hcount with ⟨-, htimeout⟩ | ⟨before, hgranted, hanswer⟩
  · exact .inl htimeout
  rcases h'.reference hcount' with ⟨-, htimeout⟩ | ⟨before', hgranted', hanswer'⟩
  · exact .inr (.inl htimeout)
  obtain ⟨between, rfl⟩ := horder before before' hgranted hgranted'
  obtain ⟨after, hgrants, -⟩ := hgranted'.lockOrder
  refine .inr (.inr ⟨before, between, ⟨after, ?_⟩, hanswer, hanswer'⟩)
  rw [hgrants]
  simp

/-- Clients see the queries of each other in the order of real time: if the connection of one is
about to be closed before a worker takes the connection of the other, both are answered as the list
of rows answers them, and the first query is before the second in the common order; except that
either may time out. The requests are of the form `SendsQuery`, with queries of at most 1023 bytes,
and the run has fewer than 2^31 - 1 INSERTs. -/
theorem ServiceRun.queries_ordered (h : ServiceRun options spurious t s)
    (hsteps : s.Steps options spurious t₁ s₁) (hfree : s₁.server.serving (.worker w) = none)
    (hsteps' : s₁.Steps options spurious t₂ s')
    (ht : Countable (callTrace (databaseTrace (t ++ t₁ ++ t₂))))
    (hfirst : s.server.serving (.worker v) = some (c, .ret ()))
    (hsends : SendsQuery query (s.exchange (.worker v)).received) (hquery : query.length ≤ 1023)
    (hsecond : s'.server.serving (.worker w) = some (d, .ret ()))
    (hsends' : SendsQuery query' (s'.exchange (.worker w)).received)
    (hquery' : query'.length ≤ 1023) :
    ∃ answer answer',
      Received (.answer answer) (s.exchange (.worker v)).complete (s.exchange (.worker v)).sent ∧
      Received (.answer answer') (s'.exchange (.worker w)).complete
        (s'.exchange (.worker w)).sent ∧
      (answer = lockTimeoutAnswer ∨ answer' = lockTimeoutAnswer ∨
        ∃ before between,
          before ++ (.worker v, query) :: between ++ [(.worker w, query')] <+:
            lockOrder (callTrace (databaseTrace (t ++ t₁ ++ t₂))) ∧
          answer = (apiReference (referenceRows before []) query).1 ∧
          answer' = (apiReference
            (referenceRows (before ++ (.worker v, query) :: between) []) query').1) := by
  obtain ⟨execution, rows, hexecuted, hreceived⟩ := h.query_delivered hfirst hsends hquery
  obtain ⟨execution', rows', hexecuted', hreceived'⟩ :=
    ((h.steps hsteps).steps hsteps').query_delivered hsecond hsends' hquery'
  -- the first answer was computed before the second request was taken, so its place in the lock
  -- order is earlier
  obtain ⟨earlier, later, earlier', later', hsplit, hsplit', hplace, hplace', horder⟩ :=
    h.told_in_order hsteps hfree hsteps' hfirst hexecuted hsecond hexecuted'
  refine ⟨_, _, hreceived, hreceived', ?_⟩
  rcases hplace.in_order hplace' (Countable.earlier (hsplit ▸ ht))
    (Countable.earlier (hsplit' ▸ ht)) horder with htimeout | htimeout | hdone
  · exact .inl htimeout
  · exact .inr (.inl htimeout)
  obtain ⟨before, between, hgrants, hanswer, hanswer'⟩ := hdone
  refine .inr (.inr ⟨before, between, ?_, hanswer, hanswer'⟩)
  rw [hsplit', lockOrder_append]
  exact hgrants.trans (List.prefix_append _ _)

/-- A client that inserts a row, and one that looks for it later. -/
theorem ServiceRun.queries_ordered_kim : ∃ (t t₁ t₂ : List ServiceEvent) (s s' : Service)
    (answer answer' : APIAnswer), ServiceRun oneOptions False t s ∧
    s.Steps oneOptions False (t₁ ++ t₂) s' ∧
    Received (.answer answer) (s.exchange (.worker 0)).complete (s.exchange (.worker 0)).sent ∧
    Received (.answer answer') (s'.exchange (.worker 0)).complete
      (s'.exchange (.worker 0)).sent ∧
    (answer = lockTimeoutAnswer ∨ answer' = lockTimeoutAnswer ∨
      ∃ before between,
        before ++ (.worker 0, insertKim) :: between ++ [(.worker 0, selectKim)] <+:
          lockOrder (callTrace (databaseTrace (t ++ t₁ ++ t₂))) ∧
        answer = (apiReference (referenceRows before []) insertKim).1 ∧
        answer' = (apiReference
          (referenceRows (before ++ (.worker 0, insertKim) :: between) []) selectKim).1) := by
  obtain ⟨t₀, t, t₁, t₂, s, s₁, s', s'', horder, hsessions⟩ := kim_session
  obtain ⟨answer, answer', hanswers⟩ := hsessions.first.queries_ordered hsessions.between
    hsessions.free hsessions.second
    (hsessions.countable (countable_start horder) kim_fits.1.2 kim_fits.2.2)
    hsessions.serves (hsessions.received ▸ sendsQuery_kim.1) (by decide) hsessions.serves'
    (hsessions.received' ▸ sendsQuery_kim.2) (by decide)
  exact ⟨_, t₁, t₂, s, s', answer, answer', hsessions.first,
    hsessions.between.trans hsessions.second, hanswers⟩

/-- No query takes a row away or changes one. -/
theorem prefix_referenceRows {W : Type} (calls : List (W × Cursor)) (rows : List Row) :
    rows <+: referenceRows calls rows := by
  induction calls generalizing rows with
  | nil => exact List.prefix_refl _
  | cons call calls ih =>
    refine List.IsPrefix.trans ?_ (ih _)
    unfold apiReference
    dsimp only
    split
    · next statement _ =>
      cases statement with
      | insert name age => exact List.prefix_append _ _
      | select select => exact List.prefix_refl _
    · exact List.prefix_refl _

/-- The row of an INSERT is there from its place on. -/
theorem referenceRows_insert {W : Type} {name : List UInt8} {age : Int}
    (hvalid : (SqlStatement.insert name age).Valid)
    (htext : (SqlStatement.insert name age).Renders query) (before : List (W × Cursor)) (v : W)
    (between : List (W × Cursor)) :
    referenceRows before [] ++ [⟨(referenceRows before []).length + 1, name, age⟩] <+:
      referenceRows (before ++ (v, query) :: between) [] := by
  rw [referenceRows, referenceRows, List.foldl_append, List.foldl_cons]
  refine List.IsPrefix.trans ?_ (prefix_referenceRows between _)
  dsimp only
  rw [apiReference_of_renders hvalid htext]
  exact List.prefix_refl _

/-- An INSERT that was answered with an id is seen by every SELECT whose connection a worker takes
later: the SELECT finds the row of that id if and only if the row meets the condition. The
statements are valid ones, in any spelling, and the requests are as in `queries_ordered`. -/
theorem ServiceRun.insert_visible {name : List UInt8} {age : Int} {select : SqlSelect}
    (h : ServiceRun options spurious t s)
    (hsteps : s.Steps options spurious t₁ s₁) (hfree : s₁.server.serving (.worker w) = none)
    (hsteps' : s₁.Steps options spurious t₂ s')
    (ht : Countable (callTrace (databaseTrace (t ++ t₁ ++ t₂))))
    (hinsert : (SqlStatement.insert name age).Valid)
    (hselect : (SqlStatement.select select).Valid)
    (htext : (SqlStatement.insert name age).Renders query)
    (htext' : (SqlStatement.select select).Renders query')
    (hfirst : s.server.serving (.worker v) = some (c, .ret ()))
    (hsends : SendsQuery query (s.exchange (.worker v)).received) (hquery : query.length ≤ 1023)
    (hsecond : s'.server.serving (.worker w) = some (d, .ret ()))
    (hsends' : SendsQuery query' (s'.exchange (.worker w)).received)
    (hquery' : query'.length ≤ 1023) :
    ∃ answer answer',
      Received (.answer answer) (s.exchange (.worker v)).complete (s.exchange (.worker v)).sent ∧
      Received (.answer answer') (s'.exchange (.worker w)).complete
        (s'.exchange (.worker w)).sent ∧
      (answer = lockTimeoutAnswer ∨ answer' = lockTimeoutAnswer ∨
        ∃ id rows, answer = .insert id ∧ answer' = .select (selectUsesIndex select) rows ∧
          (⟨id, name, age⟩ ∈ rows ↔ select.condition ⟨id, name, age⟩ = true)) := by
  obtain ⟨execution, rows, hexecuted, hreceived⟩ := h.query_delivered hfirst hsends hquery
  obtain ⟨execution', rows', hexecuted', hreceived'⟩ :=
    ((h.steps hsteps).steps hsteps').query_delivered hsecond hsends' hquery'
  -- the first answer was computed before the second request was taken, so its place in the lock
  -- order is earlier
  obtain ⟨earlier, later, earlier', later', hsplit, hsplit', hplace, hplace', horder⟩ :=
    h.told_in_order hsteps hfree hsteps' hfirst hexecuted hsecond hexecuted'
  refine ⟨_, _, hreceived, hreceived', ?_⟩
  rcases hplace.in_order hplace' (Countable.earlier (hsplit ▸ ht))
    (Countable.earlier (hsplit' ▸ ht)) horder with htimeout | htimeout | hdone
  · exact .inl htimeout
  · exact .inr (.inl htimeout)
  obtain ⟨before, between, -, hanswer, hanswer'⟩ := hdone
  rw [apiReference_of_renders hinsert htext] at hanswer
  rw [apiReference_of_renders hselect htext'] at hanswer'
  refine .inr (.inr ⟨_, _, hanswer, hanswer', ?_⟩)
  -- the reference model keeps the row through everything that runs in between
  have hrow : (⟨(referenceRows before []).length + 1, name, age⟩ : Row) ∈
      referenceRows (before ++ (.worker v, query) :: between) [] :=
    (referenceRows_insert hinsert htext before _ between).subset
      (List.mem_append_right _ (List.mem_singleton_self _))
  rw [List.mem_filter]
  exact ⟨fun hmem => hmem.2, fun hcondition => ⟨hrow, hcondition⟩⟩

/-- The client that looks for the row finds it. -/
theorem ServiceRun.insert_visible_kim : ∃ (t t' : List ServiceEvent) (s s' : Service)
    (answer answer' : APIAnswer), ServiceRun oneOptions False t s ∧
    s.Steps oneOptions False t' s' ∧
    Received (.answer answer) (s.exchange (.worker 0)).complete (s.exchange (.worker 0)).sent ∧
    Received (.answer answer') (s'.exchange (.worker 0)).complete
      (s'.exchange (.worker 0)).sent ∧
    (answer = lockTimeoutAnswer ∨ answer' = lockTimeoutAnswer ∨
      ∃ id rows, answer = .insert id ∧ answer' = .select true rows ∧
        (⟨id, bytes "Kim", 25⟩ ∈ rows ↔ id = 1)) := by
  obtain ⟨t₀, t, t₁, t₂, s, s₁, s', s'', horder, hsessions⟩ := kim_session
  obtain ⟨answer, answer', hanswer, hanswer', hdone⟩ := hsessions.first.insert_visible
    hsessions.between hsessions.free hsessions.second
    (hsessions.countable (countable_start horder) kim_fits.1.2 kim_fits.2.2) kim_valid.1 kim_valid.2
    (SqlStatement.renders_sqlText _) (SqlStatement.renders_sqlText _) hsessions.serves
    (hsessions.received ▸ sendsQuery_kim.1) (by decide) hsessions.serves'
    (hsessions.received' ▸ sendsQuery_kim.2) (by decide)
  refine ⟨_, _, s, s', answer, answer', hsessions.first,
    hsessions.between.trans hsessions.second, hanswer, hanswer', ?_⟩
  rcases hdone with htimeout | htimeout | ⟨id, rows, hinsert, hselect, hfound⟩
  · exact .inl htimeout
  · exact .inr (.inl htimeout)
  · refine .inr (.inr ⟨id, rows, hinsert, hselect, hfound.trans ?_⟩)
    exact decide_eq_true_iff

/-- A SELECT sees at least what an earlier SELECT with the same condition has seen, in the same
order. The condition is a valid one, in any two spellings, and the requests are as in
`queries_ordered`. -/
theorem ServiceRun.selects_grow {select : SqlSelect} (h : ServiceRun options spurious t s)
    (hsteps : s.Steps options spurious t₁ s₁) (hfree : s₁.server.serving (.worker w) = none)
    (hsteps' : s₁.Steps options spurious t₂ s')
    (ht : Countable (callTrace (databaseTrace (t ++ t₁ ++ t₂))))
    (hselect : (SqlStatement.select select).Valid)
    (htext : (SqlStatement.select select).Renders query)
    (htext' : (SqlStatement.select select).Renders query')
    (hfirst : s.server.serving (.worker v) = some (c, .ret ()))
    (hsends : SendsQuery query (s.exchange (.worker v)).received) (hquery : query.length ≤ 1023)
    (hsecond : s'.server.serving (.worker w) = some (d, .ret ()))
    (hsends' : SendsQuery query' (s'.exchange (.worker w)).received)
    (hquery' : query'.length ≤ 1023) :
    ∃ answer answer',
      Received (.answer answer) (s.exchange (.worker v)).complete (s.exchange (.worker v)).sent ∧
      Received (.answer answer') (s'.exchange (.worker w)).complete
        (s'.exchange (.worker w)).sent ∧
      (answer = lockTimeoutAnswer ∨ answer' = lockTimeoutAnswer ∨
        ∃ rows rows', answer = .select (selectUsesIndex select) rows ∧
          answer' = .select (selectUsesIndex select) rows' ∧ rows <+: rows') := by
  obtain ⟨execution, rows, hexecuted, hreceived⟩ := h.query_delivered hfirst hsends hquery
  obtain ⟨execution', rows', hexecuted', hreceived'⟩ :=
    ((h.steps hsteps).steps hsteps').query_delivered hsecond hsends' hquery'
  obtain ⟨earlier, later, earlier', later', hsplit, hsplit', hplace, hplace', horder⟩ :=
    h.told_in_order hsteps hfree hsteps' hfirst hexecuted hsecond hexecuted'
  refine ⟨_, _, hreceived, hreceived', ?_⟩
  rcases hplace.in_order hplace' (Countable.earlier (hsplit ▸ ht))
    (Countable.earlier (hsplit' ▸ ht)) horder with htimeout | htimeout | hdone
  · exact .inl htimeout
  · exact .inr (.inl htimeout)
  obtain ⟨before, between, -, hanswer, hanswer'⟩ := hdone
  rw [apiReference_of_renders hselect htext] at hanswer
  rw [apiReference_of_renders hselect htext'] at hanswer'
  refine .inr (.inr ⟨_, _, hanswer, hanswer', List.IsPrefix.filter _ ?_⟩)
  -- the reference model only appends rows, and the condition filters both lists
  rw [referenceRows, referenceRows, List.foldl_append]
  exact prefix_referenceRows _ _

/-- Two clients that look for the row of a third. -/
theorem ServiceRun.selects_grow_kim : ∃ (t t' : List ServiceEvent) (s s' : Service)
    (answer answer' : APIAnswer), ServiceRun oneOptions False t s ∧
    s.Steps oneOptions False t' s' ∧
    Received (.answer answer) (s.exchange (.worker 0)).complete (s.exchange (.worker 0)).sent ∧
    Received (.answer answer') (s'.exchange (.worker 0)).complete
      (s'.exchange (.worker 0)).sent ∧
    (answer = lockTimeoutAnswer ∨ answer' = lockTimeoutAnswer ∨
      ∃ rows rows', answer = .select true rows ∧ answer' = .select true rows' ∧
        rows <+: rows') := by
  obtain ⟨t₀, s₀, h₀, hrests, hinit, horder₀⟩ := one_starts
  have hm : TableInv s₀.database.server.memory [] := hinit ▸ tableCreate_inv
  have hn : Numbered s₀.database.server.memory [] := hinit ▸ tableCreate_numbered
  -- one INSERT first, so that the two SELECTs have a row to return
  obtain ⟨s₁, s₂, rows, hinsert, -, -, hrest, hrests₂, -, hm₂, hn₂, hrows⟩ :=
    one_answers h₀ hrests hm hn (by decide) sendsQuery_kim.1 kim_fits.1.1 kim_fits.1.2 (by
      rw [Rows.contents, List.map_nil, apiReference_insertKim]
      exact kim_messages.1)
  rw [Rows.contents, Rows.contents, List.map_nil, apiReference_insertKim] at hrows
  obtain ⟨t₁, h₂, -, horder₁⟩ := h₀.leads (hinsert.trans hrest)
  have hone : rows.length = 1 := by
    have hlength := congrArg List.length hrows
    rwa [List.length_map] at hlength
  obtain ⟨t, t', t'', s, s', s'', s₃, hsessions⟩ := one_session h₂ hrests₂ hm₂ hn₂
    (by rw [hone]; decide) sendsQuery_kim.2 kim_fits.2.1 kim_fits.2.2 sendsQuery_kim.2
    kim_fits.2.1 kim_fits.2.2
    (by rw [Rows.contents, hrows, apiReference_selectKim]; exact kim_messages.2.2)
    (by
      rw [Rows.contents, hrows, apiReference_selectKim, apiReference_selectKim]
      exact kim_messages.2.2)
  have hcountable := hsessions.countable (by
    rw [lockOrder_trace_append, horder₀, horder₁]
    refine ⟨le_refl 1, fun call hcall => ?_⟩
    obtain rfl := List.mem_singleton.mp hcall
    exact kim_fits.1.2)
    kim_fits.2.2 kim_fits.2.2
  obtain ⟨answer, answer', hanswers⟩ := hsessions.first.selects_grow hsessions.between
    hsessions.free hsessions.second hcountable kim_valid.2 (SqlStatement.renders_sqlText _)
    (SqlStatement.renders_sqlText _) hsessions.serves (hsessions.received ▸ sendsQuery_kim.2)
    kim_fits.2.1 hsessions.serves' (hsessions.received' ▸ sendsQuery_kim.2) kim_fits.2.1
  exact ⟨_, _, s, s'', answer, answer', hsessions.first,
    hsessions.between.trans hsessions.second, hanswers⟩

/-! ## Two connections at any times -/

/-- Two connections are different: another worker has the second, or the same one that was free in
between. -/
def OtherConnection (options : HTTPServerOptions) (spurious : Prop) (s s' : Service) (v w : Nat)
    (t' : List ServiceEvent) : Prop :=
  v ≠ w ∨ ∃ t₁ s₁ t₂, s.Steps options spurious t₁ s₁ ∧ s₁.server.serving (.worker w) = none ∧
    s₁.Steps options spurious t₂ s' ∧ t' = t₁ ++ t₂

/-- Different elements of a list are one before the other. -/
private theorem places_apart {α : Type} {l before before' : List α} {a b : α}
    (h : before ++ [a] <+: l) (h' : before' ++ [b] <+: l) (hne : a ≠ b) :
    (∃ between, before' = before ++ a :: between) ∨
      ∃ between, before = before' ++ b :: between := by
  have hlater {x y : List α} {e : α} (hx : x ++ [e] <+: l) (hy : y <+: l)
      (hlt : x.length < y.length) : ∃ between, y = x ++ e :: between := by
    have hlength : (x ++ [e]).length ≤ y.length := by
      rw [List.length_append, List.length_singleton]
      exact hlt
    obtain ⟨between, hbetween⟩ := List.prefix_of_prefix_length_le hx hy hlength
    exact ⟨between, by rw [← hbetween, List.append_assoc, List.singleton_append]⟩
  rcases lt_trichotomy before.length before'.length with hlt | heq | hgt
  · exact .inl (hlater h ((List.prefix_append _ _).trans h') hlt)
  · have hlength : (before ++ [a]).length = (before' ++ [b]).length := by
      rw [List.length_append, List.length_append, heq]
      rfl
    have hsame := (List.prefix_of_prefix_length_le h h' hlength.le).eq_of_length hlength
    exact absurd (List.singleton_inj.mp (List.append_inj' hsame rfl).2) hne
  · exact .inr (hlater h' ((List.prefix_append _ _).trans h) hgt)

/-- What a client was told has its place in every longer run. -/
theorem ServiceRun.told_place {execution : DBServerExecution} {rows : List Row}
    {program : HandlerProg Unit} (h : ServiceRun options spurious t s) (t' : List ServiceEvent)
    (hserving : s.server.serving (.worker v) = some (c, program))
    (hexecuted : (s.exchange (.worker v)).executed = some ⟨query, execution, rows⟩) :
    ∃ earlier later, callTrace (databaseTrace (t ++ t')) = earlier ++ later ∧
      Linearized earlier (.worker v) query execution rows := by
  have htold := (h.inv.serves (.worker v)).told (by rw [hserving]; rintro ⟨⟩)
  obtain ⟨-, earlier, later, hsplit, -, hplace⟩ := htold.executed _ hexecuted
  refine ⟨earlier, later ++ callTrace (databaseTrace t'), ?_, hplace⟩
  rw [databaseTrace, List.filterMap_append, callTrace_append, ← List.append_assoc, ← hsplit]
  rfl

/-- A granted call is in the order of the locks behind the calls before it. -/
theorem prefix_of_granted {earlier later : List (CallEvent ServerThread)}
    {before : List (ServerThread × Cursor)} {thread : ServerThread}
    (h : GrantedAfter earlier thread query before) :
    before ++ [(thread, query)] <+: lockOrder (earlier ++ later) := by
  obtain ⟨after, horder, -⟩ := h.lockOrder
  refine ⟨after ++ lockOrder later, ?_⟩
  rw [lockOrder_append, horder]
  simp only [List.append_assoc, List.cons_append, List.nil_append]

/-- Two clients with different connections have different places. -/
theorem ServiceRun.told_apart {t' : List ServiceEvent} {execution execution' : DBServerExecution}
    {rows rows' : List Row} {program program' : HandlerProg Unit}
    (h : ServiceRun options spurious t s) (hsteps : s.Steps options spurious t' s')
    (hother : OtherConnection options spurious s s' v w t')
    (hfirst : s.server.serving (.worker v) = some (c, program))
    (hexecuted : (s.exchange (.worker v)).executed = some ⟨query, execution, rows⟩)
    (hsecond : s'.server.serving (.worker w) = some (d, program'))
    (hexecuted' : (s'.exchange (.worker w)).executed = some ⟨query', execution', rows'⟩) :
    ∃ earlier later earlier' later',
      callTrace (databaseTrace (t ++ t')) = earlier ++ later ∧
      callTrace (databaseTrace (t ++ t')) = earlier' ++ later' ∧
      Linearized earlier (.worker v) query execution rows ∧
      Linearized earlier' (.worker w) query' execution' rows' ∧
      ∀ before before', GrantedAfter earlier (.worker v) query before →
        GrantedAfter earlier' (.worker w) query' before' →
        (∃ between, before' = before ++ (.worker v, query) :: between) ∨
          ∃ between, before = before' ++ (.worker w, query') :: between := by
  -- either the workers differ and the lock grants them two places, or the same worker served one
  -- request after the other
  rcases hother with hne | ⟨t₁, s₁, t₂, hsteps₁, hfree, hsteps₂, rfl⟩
  · obtain ⟨earlier, later, hsplit, hplace⟩ := h.told_place t' hfirst hexecuted
    obtain ⟨earlier', later', hsplit', hplace'⟩ :=
      (h.steps hsteps).told_place [] hsecond hexecuted'
    rw [List.append_nil] at hsplit'
    refine ⟨earlier, later, earlier', later', hsplit, hsplit', hplace, hplace', ?_⟩
    intro before before' hgranted hgranted'
    have hfirst : before ++ [(.worker v, query)] <+: lockOrder (earlier ++ later) :=
      prefix_of_granted hgranted
    have hsecond : before' ++ [(.worker w, query')] <+: lockOrder (earlier ++ later) := by
      rw [← hsplit, hsplit']
      exact prefix_of_granted hgranted'
    exact places_apart hfirst hsecond fun heq =>
      hne (ServerThread.worker.inj (Prod.mk.inj heq).1)
  · obtain ⟨earlier, later, earlier', later', hsplit, hsplit', hplace, hplace', horder⟩ :=
      h.told_in_order hsteps₁ hfree hsteps₂ hfirst hexecuted hsecond hexecuted'
    rw [List.append_assoc] at hsplit hsplit'
    exact ⟨earlier, later, earlier', later', hsplit, hsplit', hplace, hplace',
      fun before before' hgranted hgranted' => .inl (horder before before' hgranted hgranted')⟩

/-- No id is given twice: two clients whose INSERTs were both answered with an id, at any times and
concurrently or not, have different ids. The requests are as in `queries_ordered`. -/
theorem ServiceRun.ids_distinct {t' : List ServiceEvent} {name name' : List UInt8} {age age' : Int}
    (h : ServiceRun options spurious t s) (hsteps : s.Steps options spurious t' s')
    (hother : OtherConnection options spurious s s' v w t')
    (ht : Countable (callTrace (databaseTrace (t ++ t'))))
    (hinsert : (SqlStatement.insert name age).Valid)
    (hinsert' : (SqlStatement.insert name' age').Valid)
    (htext : (SqlStatement.insert name age).Renders query)
    (htext' : (SqlStatement.insert name' age').Renders query')
    (hfirst : s.server.serving (.worker v) = some (c, .ret ()))
    (hsends : SendsQuery query (s.exchange (.worker v)).received) (hquery : query.length ≤ 1023)
    (hsecond : s'.server.serving (.worker w) = some (d, .ret ()))
    (hsends' : SendsQuery query' (s'.exchange (.worker w)).received)
    (hquery' : query'.length ≤ 1023) :
    ∃ answer answer',
      Received (.answer answer) (s.exchange (.worker v)).complete (s.exchange (.worker v)).sent ∧
      Received (.answer answer') (s'.exchange (.worker w)).complete
        (s'.exchange (.worker w)).sent ∧
      (answer = lockTimeoutAnswer ∨ answer' = lockTimeoutAnswer ∨
        ∃ id id', answer = .insert id ∧ answer' = .insert id' ∧ id ≠ id') := by
  obtain ⟨execution, rows, hexecuted, hreceived⟩ := h.query_delivered hfirst hsends hquery
  obtain ⟨execution', rows', hexecuted', hreceived'⟩ :=
    (h.steps hsteps).query_delivered hsecond hsends' hquery'
  obtain ⟨earlier, later, earlier', later', hsplit, hsplit', hplace, hplace', happart⟩ :=
    h.told_apart hsteps hother hfirst hexecuted hsecond hexecuted'
  refine ⟨_, _, hreceived, hreceived', ?_⟩
  rcases hplace.reference (Countable.earlier (hsplit ▸ ht)) with
    ⟨-, htimeout⟩ | ⟨before, hgranted, hanswer⟩
  · exact .inl htimeout
  rcases hplace'.reference (Countable.earlier (hsplit' ▸ ht)) with
    ⟨-, htimeout⟩ | ⟨before', hgranted', hanswer'⟩
  · exact .inr (.inl htimeout)
  rw [apiReference_of_renders hinsert htext] at hanswer
  rw [apiReference_of_renders hinsert' htext'] at hanswer'
  refine .inr (.inr ⟨_, _, hanswer, hanswer', ?_⟩)
  -- the later INSERT finds the row of the earlier one
  rcases happart before before' hgranted hgranted' with ⟨between, rfl⟩ | ⟨between, rfl⟩
  · have hlength := (referenceRows_insert hinsert htext before (.worker v) between).length_le
    rw [List.length_append, List.length_singleton] at hlength
    omega
  · have hlength := (referenceRows_insert hinsert' htext' before' (.worker w) between).length_le
    rw [List.length_append, List.length_singleton] at hlength
    omega

/-- Two clients that insert the same row. -/
theorem ServiceRun.ids_distinct_kim : ∃ (t t' : List ServiceEvent) (s s' : Service)
    (answer answer' : APIAnswer), ServiceRun oneOptions False t s ∧
    s.Steps oneOptions False t' s' ∧
    Received (.answer answer) (s.exchange (.worker 0)).complete (s.exchange (.worker 0)).sent ∧
    Received (.answer answer') (s'.exchange (.worker 0)).complete
      (s'.exchange (.worker 0)).sent ∧
    (answer = lockTimeoutAnswer ∨ answer' = lockTimeoutAnswer ∨
      ∃ id id', answer = .insert id ∧ answer' = .insert id' ∧ id ≠ id') := by
  -- the second INSERT of the same text gets the next id
  have hagain : (apiReference [⟨1, bytes "Kim", 25⟩] insertKim).1 = .insert 2 := by
    rw [insertKim, apiReference_of_renders kim_valid.1 (SqlStatement.renders_sqlText _)]
    rfl
  obtain ⟨t₀, t, t₁, t₂, s, s₁, s', s'', horder, hsessions⟩ := first_session sendsQuery_kim.1
    kim_fits.1.1 kim_fits.1.2 sendsQuery_kim.1 kim_fits.1.1 kim_fits.1.2
    (by rw [apiReference_insertKim]; exact kim_messages.1)
    (by rw [apiReference_insertKim, hagain]; exact kim_messages.2.1)
  have hcountable := hsessions.countable (countable_start horder) kim_fits.1.2 kim_fits.1.2
  rw [List.append_assoc (t₀ ++ t)] at hcountable
  have hsteps := hsessions.between.trans hsessions.second
  obtain ⟨answer, answer', hanswers⟩ := hsessions.first.ids_distinct hsteps
    (.inr ⟨t₁, s₁, t₂, hsessions.between, hsessions.free, hsessions.second, rfl⟩) hcountable
    kim_valid.1 kim_valid.1 (SqlStatement.renders_sqlText _) (SqlStatement.renders_sqlText _)
    hsessions.serves (hsessions.received ▸ sendsQuery_kim.1) kim_fits.1.1 hsessions.serves'
    (hsessions.received' ▸ sendsQuery_kim.1) kim_fits.1.1
  exact ⟨_, _, s, s', answer, answer', hsessions.first, hsteps, hanswers⟩

end SqlApi.Server

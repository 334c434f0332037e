import SqlApi.Lib.Numerals
import SqlApi.Server.HttpServer

/-!
# `server.c`: the options of the program

`main` reads its arguments from left to right. Seven options take a number, which
`server_parse_unsigned` converts with `strtoul` and a cast stores in a field. `Fits` says
which integers an option refuses or stores as they are; of all others something else is
stored.

Each option is the same code with another bound and another place to store the number; the
definitions are instances of one, and the theorem is about all of them.
-/

namespace SqlApi.Server

open SqlApi.Lib SqlApi.Core

/-! ## Data -/

/-- `struct DBServerConfig` -/
structure DBServerConfig where
  lockTimeoutMs : UInt32
  simulateReadDelayMs : UInt32
  simulateWriteDelayMs : UInt32
  deriving DecidableEq

/-- `db_server_config_default` -/
def dbServerConfigDefault : DBServerConfig := ⟨1000, 0, 0⟩

/-- `struct HTTPServerOptions` with the fields that decide nothing about the threads. -/
structure HTTPServerAllOptions extends HTTPServerOptions where
  port : UInt16
  lockTimeoutMs : UInt32
  simulateReadDelayMs : UInt32
  simulateWriteDelayMs : UInt32

/-- `http_server_options_default` -/
def httpServerOptionsDefault : HTTPServerAllOptions where
  port := 8080
  workerCount := 4
  queueCapacity := 16
  lockTimeoutMs := 1000
  simulateReadDelayMs := 0
  simulateWriteDelayMs := 0
  maxRequests := 0

/-- The variables of `main` that reading the arguments sets. -/
structure ServerArguments where
  cliConfig : DBServerConfig
  httpOptions : HTTPServerAllOptions
  serveMode : Bool
  hasQueryArgument : Bool

/-- Before the first argument. -/
def ServerArguments.initial : ServerArguments :=
  ⟨dbServerConfigDefault, httpServerOptionsDefault, false, false⟩

/-- An early `return`, with what was printed. -/
structure ServerExit where
  status : Nat
  stdout : List UInt8
  stderr : List UInt8
  deriving DecidableEq

/-- `server_print_usage` -/
def serverPrintUsage (programName : List UInt8) : List UInt8 :=
  bytes "Usage:\n" ++
  bytes "  " ++ cstr programName ++ bytes " --query \"SQL\" [--query \"SQL\" ...]\n" ++
  bytes "  " ++ cstr programName ++ bytes " --serve [--port 8080] [--workers 4] [--queue 16]\n" ++
  bytes "  " ++ cstr programName ++ bytes "\n" ++
  bytes "\n" ++
  bytes "CLI mode reads one SQL statement per line from stdin when --query is omitted.\n" ++
  bytes "HTTP mode enables GET /health, GET /metrics, and POST /query.\n"

/-! ## Options that take a number -/

/-- The options that take a number. -/
inductive ServerOption where
  | port | workers | queue | lockTimeoutMs | simulateReadDelayMs | simulateWriteDelayMs
  | maxRequests
  deriving DecidableEq, Repr

namespace ServerOption

/-- In the order in which `main` compares. -/
def all : List ServerOption :=
  [port, workers, queue, lockTimeoutMs, simulateReadDelayMs, simulateWriteDelayMs, maxRequests]

/-- The argument that it is given by. -/
def name : ServerOption → List UInt8
  | port => bytes "--port"
  | workers => bytes "--workers"
  | queue => bytes "--queue"
  | lockTimeoutMs => bytes "--lock-timeout-ms"
  | simulateReadDelayMs => bytes "--simulate-read-delay-ms"
  | simulateWriteDelayMs => bytes "--simulate-write-delay-ms"
  | maxRequests => bytes "--max-requests"

/-- What is printed when it is refused. -/
def message : ServerOption → List UInt8
  | port => bytes "--port requires a valid number between 0 and 65535.\n"
  | workers => bytes "--workers requires a positive integer.\n"
  | queue => bytes "--queue requires a positive integer.\n"
  | lockTimeoutMs => bytes "--lock-timeout-ms requires a non-negative integer.\n"
  | simulateReadDelayMs => bytes "--simulate-read-delay-ms requires a non-negative integer.\n"
  | simulateWriteDelayMs => bytes "--simulate-write-delay-ms requires a non-negative integer.\n"
  | maxRequests => bytes "--max-requests requires a non-negative integer.\n"

/-- The exit when it is refused. -/
def refusal (option : ServerOption) : ServerExit := ⟨1, [], option.message⟩

/-- The converted numbers that it refuses. -/
def refuses : ServerOption → Nat → Bool
  | port, parsed => parsed > 65535
  | workers, parsed | queue, parsed => parsed == 0
  | _, _ => false

/-- The assignments to its fields, with their casts. -/
def store (option : ServerOption) (parsed : Nat) (args : ServerArguments) : ServerArguments :=
  match option with
  | port => { args with httpOptions.port := parsed.toUInt16 }
  | workers => { args with httpOptions.workerCount := parsed }
  | queue => { args with httpOptions.queueCapacity := parsed }
  -- the times go into the configurations of both modes
  | lockTimeoutMs => { args with
      cliConfig.lockTimeoutMs := parsed.toUInt32
      httpOptions.lockTimeoutMs := parsed.toUInt32 }
  | simulateReadDelayMs => { args with
      cliConfig.simulateReadDelayMs := parsed.toUInt32
      httpOptions.simulateReadDelayMs := parsed.toUInt32 }
  | simulateWriteDelayMs => { args with
      cliConfig.simulateWriteDelayMs := parsed.toUInt32
      httpOptions.simulateWriteDelayMs := parsed.toUInt32 }
  | maxRequests => { args with httpOptions.maxRequests := parsed.toUInt32 }

/-- The values of its fields. -/
def fields (option : ServerOption) (args : ServerArguments) : List Nat :=
  match option with
  | port => [args.httpOptions.port.toNat]
  | workers => [args.httpOptions.workerCount]
  | queue => [args.httpOptions.queueCapacity]
  | lockTimeoutMs => [args.cliConfig.lockTimeoutMs.toNat, args.httpOptions.lockTimeoutMs.toNat]
  | simulateReadDelayMs =>
    [args.cliConfig.simulateReadDelayMs.toNat, args.httpOptions.simulateReadDelayMs.toNat]
  | simulateWriteDelayMs =>
    [args.cliConfig.simulateWriteDelayMs.toNat, args.httpOptions.simulateWriteDelayMs.toNat]
  | maxRequests => [args.httpOptions.maxRequests.toNat]

/-- The bits of the type that it is cast to. -/
def width : ServerOption → Nat
  | port => 16
  | workers | queue => 64
  | _ => 32

end ServerOption

/-- The option that an argument names. -/
def serverOptionNamed (argument : List UInt8) : Option ServerOption :=
  ServerOption.all.find? fun option => cstr argument == option.name

/-- `server_parse_unsigned`; after a failure nobody looks at the number. -/
def serverParseUnsigned (value : List UInt8) : Option Nat :=
  let (parsed, endPtr) := strtoul (cstr value)
  if endPtr ≠ cstr value ∧ peek endPtr = 0 then some parsed else none

/-- What `main` does with the argument of such an option; `none` when it is refused. -/
def serverReadOption (option : ServerOption) (value : List UInt8) (args : ServerArguments) :
    Option ServerArguments :=
  match serverParseUnsigned value with
  | none => none
  | some parsed => if option.refuses parsed then none else some (option.store parsed args)

/-! ## `main` -/

/-- The loop over the arguments. -/
def serverReadArguments (programName : List UInt8) :
    List (List UInt8) → ServerArguments → Except ServerExit ServerArguments
  | [], args => .ok args
  | argument :: rest, args =>
    if cstr argument = bytes "--help" then .error ⟨0, serverPrintUsage programName, []⟩
    else if cstr argument = bytes "--serve" then
      serverReadArguments programName rest { args with serveMode := true }
    else if cstr argument = bytes "--query" then
      match rest with
      | [] => .error ⟨1, [], bytes "--query requires a SQL string.\n"⟩
      | _ :: rest => serverReadArguments programName rest { args with hasQueryArgument := true }
    else
      match serverOptionNamed argument with
      | none => .error ⟨1, serverPrintUsage programName,
          bytes "Unknown argument: " ++ cstr argument ++ bytes "\n"⟩
      | some option =>
        match rest with
        | [] => .error option.refusal
        | value :: rest =>
          match serverReadOption option value args with
          | none => .error option.refusal
          | some args => serverReadArguments programName rest args

/-- The loop that runs the queries, as the list of those it comes to. -/
def serverQueries : List (List UInt8) → List (List UInt8)
  | [] => []
  | argument :: rest =>
    if cstr argument = bytes "--query" then
      match rest with
      | [] => []
      | query :: rest => query :: serverQueries rest
    else serverQueries rest

/-- What `main` goes on with after its arguments. -/
inductive ServerStart where
  | exits (exit : ServerExit)
  /-- `http_server_run` -/
  | serves (options : HTTPServerAllOptions)
  /-- `server_run_stdin` on a server with this configuration. -/
  | readsStdin (config : DBServerConfig)
  /-- `server_run_query` for each query, up to the first that stops. -/
  | runsQueries (config : DBServerConfig) (queries : List (List UInt8))

/-- `main`, up to where a server is made. -/
def serverMain (programName : List UInt8) (arguments : List (List UInt8)) : ServerStart :=
  match serverReadArguments programName arguments .initial with
  | .error exit => .exits exit
  | .ok args =>
    if args.serveMode && args.hasQueryArgument then
      .exits ⟨1, [], bytes "--serve cannot be combined with --query.\n"⟩
    else if args.serveMode then .serves args.httpOptions
    else if arguments.isEmpty || !args.hasQueryArgument then .readsStdin args.cliConfig
    else .runsQueries args.cliConfig (serverQueries arguments)

/-! ## One option -/

section Option

variable {option other : ServerOption} {parsed : Nat} {args : ServerArguments}

/-- A number within the bounds of `unsigned long` is cut to the width of the field. -/
theorem ServerOption.fields_store (hparsed : parsed < 2 ^ 64) :
    ∀ field ∈ option.fields (option.store parsed args), field = parsed % 2 ^ option.width := by
  cases option <;> simp [store, fields, width] <;> omega

theorem ServerOption.fields_ne_nil (option : ServerOption) (args : ServerArguments) :
    option.fields args ≠ [] := by
  cases option <;> exact List.cons_ne_nil _ _

/-- Every option has its own fields. -/
theorem ServerOption.fields_store_of_ne (hne : option ≠ other) :
    option.fields (other.store parsed args) = option.fields args := by
  cases option <;> cases other <;> first | rfl | exact absurd rfl hne

/-- An option is found by its name, which is none of the other arguments. -/
theorem serverOptionNamed_name (option : ServerOption) :
    serverOptionNamed option.name = some option ∧ cstr option.name ≠ bytes "--help" ∧
      cstr option.name ≠ bytes "--serve" ∧ cstr option.name ≠ bytes "--query" := by
  cases option <;> decide

/-- What denotes an integer is converted. -/
theorem serverParseUnsigned_of_denotes {value : List UInt8} {v : Int}
    (h : Denotes (cstr value) v) : serverParseUnsigned value = some (strtoulValue v) := by
  rw [serverParseUnsigned, strtoul_of_denotes h]
  exact if_pos ⟨h.ne_nil.symm, rfl⟩

/-- Nothing else is. -/
theorem denotes_of_serverParseUnsigned {value : List UInt8}
    (h : serverParseUnsigned value = some parsed) :
    ∃ v, Denotes (cstr value) v ∧ parsed = strtoulValue v := by
  have hread := h
  unfold serverParseUnsigned at hread
  dsimp only at hread
  split at hread
  case isFalse => cases hread
  case isTrue hends =>
    -- the end pointer is at the terminator, as the text has no other zero
    have hend : (strtoul (cstr value)).2 = [] := by
      cases hrest : (strtoul (cstr value)).2 with
      | nil => rfl
      | cons c rest =>
        have hc : c = 0 := by simpa [hrest] using hends.2
        have hmem : c ∈ cstr value :=
          (strtoul_suffix (cstr value)).subset (hrest ▸ List.mem_cons_self ..)
        exact absurd (hc ▸ hmem) (zero_notMem_cstr value)
    obtain ⟨v, hv⟩ := denotes_of_strtoul hends.1 hend
    exact ⟨v, hv, Option.some.inj (h.symm.trans (serverParseUnsigned_of_denotes hv))⟩

theorem serverReadOption_eq_some {value : List UInt8} {args' : ServerArguments}
    (h : serverReadOption option value args = some args') :
    ∃ parsed, serverParseUnsigned value = some parsed ∧ ¬ option.refuses parsed = true ∧
      option.store parsed args = args' := by
  rw [serverReadOption] at h
  cases hparse : serverParseUnsigned value with
  | none =>
    rw [hparse] at h
    cases h
  | some parsed =>
    rw [hparse] at h
    dsimp only at h
    split at h
    · cases h
    case isFalse hrefuses => exact ⟨parsed, rfl, hrefuses, Option.some.inj h⟩

end Option

/-! ## Which integers an option refuses or keeps -/

/-- The integers that the option refuses or stores as they are. -/
def ServerOption.Fits : ServerOption → Int → Prop
  | port, v => ¬ (-2 ^ 64 < v ∧ v ≤ -(2 ^ 64 - 65535))
  | workers, v | queue, v => 0 ≤ v ∧ v < 2 ^ 64
  | _, v => 0 ≤ v ∧ v < 2 ^ 32

theorem ServerOption.fits_iff {option : ServerOption} {v : Int} :
    option.Fits v ↔ option.refuses (strtoulValue v) = true ∨
      ((strtoulValue v % 2 ^ option.width : Nat) : Int) = v := by
  unfold strtoulValue
  cases option <;> simp only [Fits, refuses, width, decide_eq_true_eq, beq_iff_eq,
    Bool.false_eq_true, false_or] <;> split <;> omega

/-! ## Waiting for the lock -/

/-- The loop of `db_server_try_acquire_lock` over its attempts: whether the lock was free, and
the milliseconds since the first one. `none` while it has not returned. -/
def dbServerLockAttempts (config : DBServerConfig) : List (Bool × UInt64) → Option Bool
  | [] => none
  | (acquired, elapsed) :: attempts =>
    if acquired then some true
    else if config.lockTimeoutMs > 0 ∧ elapsed ≥ config.lockTimeoutMs.toUInt64 then some false
    else dbServerLockAttempts config attempts

/-- As long as the lock is not free the loop does not return. -/
def DBServerConfig.WaitsForEver (config : DBServerConfig) : Prop :=
  ∀ attempts, (∀ attempt ∈ attempts, attempt.1 = false) →
    dbServerLockAttempts config attempts = none

theorem DBServerConfig.waitsForEver_iff {config : DBServerConfig} :
    config.WaitsForEver ↔ config.lockTimeoutMs = 0 := by
  constructor
  · intro h
    by_contra hne
    have hpos : config.lockTimeoutMs > 0 := UInt32.pos_iff_ne_zero.mpr hne
    -- one attempt when the timeout is over
    have hone := h [(false, config.lockTimeoutMs.toUInt64)] (by simp)
    simp [dbServerLockAttempts, hpos] at hone
  · intro hzero attempts hattempts
    induction attempts with
    | nil => rfl
    | cons attempt attempts ih =>
      obtain ⟨acquired, elapsed⟩ := attempt
      obtain ⟨rfl, hrest⟩ := List.forall_mem_cons.mp hattempts
      have hno : ¬ (config.lockTimeoutMs > 0 ∧ elapsed ≥ config.lockTimeoutMs.toUInt64) := by
        simp [hzero]
      rw [dbServerLockAttempts, if_neg Bool.false_ne_true, if_neg hno]
      exact ih hrest

/-! ## The loop over the arguments -/

/-- The arguments of the options that take a number. -/
def givenOptions : List (List UInt8) → List (ServerOption × List UInt8)
  | [] => []
  | argument :: rest =>
    if cstr argument = bytes "--query" then
      match rest with
      | [] => []
      | _ :: rest => givenOptions rest
    else
      match serverOptionNamed argument with
      | none => givenOptions rest
      | some option =>
        match rest with
        | [] => []
        | value :: rest => (option, value) :: givenOptions rest

section Arguments

variable {programName argument value : List UInt8} {before argv : List (List UInt8)}
  {args args' : ServerArguments} {option : ServerOption}

theorem serverReadArguments_serve (h : cstr argument = bytes "--serve") :
    serverReadArguments programName (argument :: argv) args =
      serverReadArguments programName argv { args with serveMode := true } := by
  have hhelp : cstr argument ≠ bytes "--help" := by
    rw [h]
    decide
  cases argv <;> simp only [serverReadArguments, if_neg hhelp, if_pos h]

theorem givenOptions_serve (h : cstr argument = bytes "--serve") :
    givenOptions (argument :: argv) = givenOptions argv := by
  have hquery : cstr argument ≠ bytes "--query" := by
    rw [h]
    decide
  have hnone : serverOptionNamed argument = none := by
    rw [serverOptionNamed, h]
    decide
  cases argv <;> simp only [givenOptions, if_neg hquery, hnone]

/-- What was read does not depend on what follows. -/
theorem serverReadArguments_append
    (h : serverReadArguments programName before args = .ok args') (rest : List (List UInt8)) :
    serverReadArguments programName (before ++ rest) args =
      serverReadArguments programName rest args' := by
  fun_induction serverReadArguments programName before args with
  | case1 args =>
    cases h
    rfl
  | case2 argument before args hhelp => cases h -- `--help`
  | case3 argument before args hhelp hserve ih =>
    -- `--serve`
    rw [List.cons_append, serverReadArguments_serve hserve]
    exact ih h
  | case4 argument args hhelp hserve hquery => cases h
  | case5 argument args hhelp hserve hquery query before ih =>
    -- `--query` and its statement
    rw [List.cons_append, List.cons_append, serverReadArguments, if_neg hhelp, if_neg hserve,
      if_pos hquery]
    exact ih h
  | case6 argument before args hhelp hserve hquery hnone => cases h
  | case7 argument args hhelp hserve hquery option hsome => cases h
  | case8 argument args hhelp hserve hquery option hsome value before hrefused => cases h
  | case9 argument args hhelp hserve hquery option hsome value before args'' hread ih =>
    -- an option that is stored
    rw [List.cons_append, List.cons_append, serverReadArguments, if_neg hhelp, if_neg hserve,
      if_neg hquery, hsome]
    simp only [hread]
    exact ih h

/-- An option and its argument. -/
theorem serverReadArguments_name (rest : List (List UInt8)) :
    serverReadArguments programName (option.name :: value :: rest) args =
      match serverReadOption option value args with
      | none => .error option.refusal
      | some args => serverReadArguments programName rest args := by
  obtain ⟨hnamed, hhelp, hserve, hquery⟩ := serverOptionNamed_name option
  rw [serverReadArguments, if_neg hhelp, if_neg hserve, if_neg hquery, hnamed]

/-- The fields of an option that is not given are left alone. -/
theorem serverReadArguments_fields (h : serverReadArguments programName argv args = .ok args')
    (hgiven : ∀ value, (option, value) ∉ givenOptions argv) :
    option.fields args' = option.fields args := by
  fun_induction serverReadArguments programName argv args with
  | case1 args =>
    cases h
    rfl
  | case2 argument argv args hhelp => cases h
  | case3 argument argv args hhelp hserve ih =>
    -- the flags of `main` are no fields of an option
    rw [givenOptions_serve hserve] at hgiven
    rw [ih h hgiven]
    cases option <;> rfl
  | case4 argument args hhelp hserve hquery => cases h
  | case5 argument args hhelp hserve hquery query argv ih =>
    rw [givenOptions, if_pos hquery] at hgiven
    rw [ih h hgiven]
    cases option <;> rfl
  | case6 argument argv args hhelp hserve hquery hnone => cases h
  | case7 argument args hhelp hserve hquery other hsome => cases h
  | case8 argument args hhelp hserve hquery other hsome value argv hrefused => cases h
  | case9 argument args hhelp hserve hquery other hsome value argv args'' hread ih =>
    rw [givenOptions, if_neg hquery, hsome] at hgiven
    simp only [List.mem_cons, not_or] at hgiven
    rw [ih h fun value' => (hgiven value').2]
    -- the option that is stored here is another one
    have hne : option ≠ other := fun heq => (hgiven value).1 (by rw [heq])
    obtain ⟨parsed, -, -, rfl⟩ := serverReadOption_eq_some hread
    exact ServerOption.fields_store_of_ne hne

/-- If everything that is given fits, then at the end an option holds the integer that was given
to it last, and what it held before if there was none. -/
theorem serverReadArguments_last (h : serverReadArguments programName argv args = .ok args')
    (hfits : ∀ given ∈ givenOptions argv, ∀ v, Denotes (cstr given.2) v → given.1.Fits v)
    (option : ServerOption) :
    match ((givenOptions argv).filter (·.1 = option)).getLast? with
    | none => option.fields args' = option.fields args
    | some given => ∃ n : Nat, Denotes (cstr given.2) n ∧ ∀ field ∈ option.fields args', field = n := by
  fun_induction serverReadArguments programName argv args with
  | case1 args =>
    cases h
    rfl
  | case2 argument argv args hhelp => cases h
  | case3 argument argv args hhelp hserve ih =>
    rw [givenOptions_serve hserve] at hfits ⊢
    have hlast := ih h hfits
    revert hlast
    cases option <;> exact id
  | case4 argument args hhelp hserve hquery => cases h
  | case5 argument args hhelp hserve hquery query argv ih =>
    rw [givenOptions, if_pos hquery] at hfits ⊢
    have hlast := ih h hfits
    revert hlast
    cases option <;> exact id
  | case6 argument argv args hhelp hserve hquery hnone => cases h
  | case7 argument args hhelp hserve hquery other hsome => cases h
  | case8 argument args hhelp hserve hquery other hsome value argv hrefused => cases h
  | case9 argument args hhelp hserve hquery other hsome value argv args'' hread ih =>
    rw [givenOptions, if_neg hquery, hsome] at hfits ⊢
    obtain ⟨hfirst, hrest⟩ := List.forall_mem_cons.mp hfits
    have hlast := ih h hrest
    obtain ⟨parsed, hparse, hrefuses, rfl⟩ := serverReadOption_eq_some hread
    by_cases hsame : other = option
    · subst hsame
      rw [List.filter_cons_of_pos (by simp), List.getLast?_cons]
      cases hends : ((givenOptions argv).filter (·.1 = other)).getLast? with
      | some given =>
        -- it is given again further on
        rw [hends] at hlast
        exact hlast
      | none =>
        -- the last one is this one
        rw [hends] at hlast
        obtain ⟨v, hv, rfl⟩ := denotes_of_serverParseUnsigned hparse
        have hkept := (ServerOption.fits_iff.mp (hfirst v hv)).resolve_left hrefuses
        refine ⟨strtoulValue v % 2 ^ other.width, by rw [hkept]; exact hv, fun field hfield => ?_⟩
        rw [show other.fields args' = _ from hlast] at hfield
        exact ServerOption.fields_store (strtoulValue_lt v) field hfield
    · rw [List.filter_cons_of_neg (by simpa using hsame)]
      rw [ServerOption.fields_store_of_ne (Ne.symm hsame)] at hlast
      exact hlast

end Arguments

/-! ## Stored as written, or refused -/

/-- From the argument `value` of an option on, until that option is given again, its fields
hold the integer that `value` denotes. -/
structure ExactlyStored (programName : List UInt8) (before : List (List UInt8))
    (option : ServerOption) (value : List UInt8) (n : Nat) : Prop where
  denotes : Denotes (cstr value) n
  accepted : ∃ args,
    serverReadArguments programName (before ++ [option.name, value]) .initial = .ok args
  stored : ∀ between args, (∀ value', (option, value') ∉ givenOptions between) →
    serverReadArguments programName (before ++ option.name :: value :: between) .initial =
      .ok args → ∀ field ∈ option.fields args, field = n

/-- Behind the arguments `before`, the option is refused with its message, or stores what
`value` denotes. -/
def RefusedOrExact (programName : List UInt8) (before : List (List UInt8)) (option : ServerOption)
    (value : List UInt8) : Prop :=
  (∀ after, serverMain programName (before ++ option.name :: value :: after) =
    .exits option.refusal) ∨
  ∃ n, ExactlyStored programName before option value n

section Exact

variable {programName value : List UInt8} {before : List (List UInt8)} {args : ServerArguments}
  {option : ServerOption} {parsed n : Nat}

/-- A refusal is none of the other exits. -/
theorem serverMain_eq_refusal {argv : List (List UInt8)} :
    serverMain programName argv = .exits option.refusal ↔
      serverReadArguments programName argv .initial = .error option.refusal := by
  unfold serverMain
  cases serverReadArguments programName argv .initial with
  | error exit => simp
  | ok args =>
    have hother : (⟨1, [], bytes "--serve cannot be combined with --query.\n"⟩ : ServerExit) ≠
        option.refusal := by cases option <;> decide
    dsimp only
    split
    · simpa using hother
    · split
      · simp
      · split <;> simp

/-- The arguments up to and with the option. -/
theorem serverReadArguments_before
    (hbefore : serverReadArguments programName before .initial = .ok args)
    (after : List (List UInt8)) :
    serverReadArguments programName (before ++ option.name :: value :: after) .initial =
      match serverReadOption option value args with
      | none => .error option.refusal
      | some args => serverReadArguments programName after args := by
  rw [serverReadArguments_append hbefore, serverReadArguments_name]

/-- What a stored number is from there on. -/
theorem ExactlyStored.of_store (hbefore : serverReadArguments programName before .initial = .ok args)
    (hread : serverReadOption option value args = some (option.store parsed args))
    (hparsed : parsed < 2 ^ 64) (hvalue : Denotes (cstr value) n)
    (hn : parsed % 2 ^ option.width = n) : ExactlyStored programName before option value n where
  denotes := hvalue
  accepted := ⟨_, by rw [serverReadArguments_before hbefore, hread]; rfl⟩
  stored := by
    intro between args' hgiven h field hfield
    rw [serverReadArguments_before hbefore, hread] at h
    rw [serverReadArguments_fields h hgiven] at hfield
    rw [ServerOption.fields_store hparsed field hfield, hn]

/-- What is refused or exactly stored is of the integers that fit. -/
theorem RefusedOrExact.fits
    (hbefore : serverReadArguments programName before .initial = .ok args)
    (h : RefusedOrExact programName before option value) {v : Int} (hv : Denotes (cstr value) v) :
    option.Fits v := by
  rw [ServerOption.fits_iff]
  by_cases hrefuses : option.refuses (strtoulValue v) = true
  · exact .inl hrefuses
  have hread : serverReadOption option value args =
      some (option.store (strtoulValue v) args) := by
    rw [serverReadOption, serverParseUnsigned_of_denotes hv]
    exact if_neg hrefuses
  have hmain : serverReadArguments programName (before ++ [option.name, value]) .initial =
      .ok (option.store (strtoulValue v) args) := by
    rw [serverReadArguments_before hbefore, hread]
    rfl
  refine .inr ?_
  rcases h with hrefused | ⟨n, hexact⟩
  · -- with nothing behind the option the loop has come to its end
    have hexit := serverMain_eq_refusal.mp (hrefused [])
    rw [hmain] at hexit
    cases hexit
  · -- each field holds both what was stored and what the argument denotes
    obtain ⟨field, hfield⟩ := List.exists_mem_of_ne_nil _
      (option.fields_ne_nil (option.store (strtoulValue v) args))
    have hstored := hexact.stored [] _ (fun _ => List.not_mem_nil) hmain field hfield
    rw [ServerOption.fields_store (strtoulValue_lt v) field hfield] at hstored
    rw [hstored]
    exact hexact.denotes.unique hv

/-- An option is refused or stores what its argument denotes if and only if that integer, where
there is one, is of those that fit. -/
theorem serverMain_refusedOrExact_iff
    (hbefore : serverReadArguments programName before .initial = .ok args) (option : ServerOption)
    (value : List UInt8) :
    RefusedOrExact programName before option value ↔
      ∀ v, Denotes (cstr value) v → option.Fits v := by
  refine ⟨fun h v hv => h.fits hbefore hv, fun h => ?_⟩
  cases hparse : serverParseUnsigned value with
  | none =>
    -- not an integer
    refine .inl fun after => serverMain_eq_refusal.mpr ?_
    rw [serverReadArguments_before hbefore, serverReadOption, hparse]
  | some parsed =>
    obtain ⟨v, hv, rfl⟩ := denotes_of_serverParseUnsigned hparse
    by_cases hrefuses : option.refuses (strtoulValue v) = true
    · -- an integer out of the option's own bounds
      refine .inl fun after => serverMain_eq_refusal.mpr ?_
      rw [serverReadArguments_before hbefore, serverReadOption, hparse]
      simp only [hrefuses, if_true]
    · have hkept := (ServerOption.fits_iff.mp (h v hv)).resolve_left hrefuses
      have hread : serverReadOption option value args =
          some (option.store (strtoulValue v) args) := by
        rw [serverReadOption, hparse]
        exact if_neg hrefuses
      have hdenotes : Denotes (cstr value) ((strtoulValue v % 2 ^ option.width : Nat) : Int) := by
        rw [hkept]
        exact hv
      exact .inr ⟨_, .of_store hbefore hread (strtoulValue_lt v) hdenotes rfl⟩

/-- The second of two options. -/
theorem serverMain_refusedOrExact_iff_port :
    RefusedOrExact (bytes "server") [bytes "--serve", bytes "--workers", bytes "8"] .port
        (bytes "9090") ↔
      ∀ v, Denotes (cstr (bytes "9090")) v → ServerOption.port.Fits v :=
  have hbefore : serverReadArguments (bytes "server")
      [bytes "--serve", bytes "--workers", bytes "8"] .initial =
      .ok (ServerOption.workers.store 8 { ServerArguments.initial with serveMode := true }) := by
    rfl
  serverMain_refusedOrExact_iff hbefore .port _

/-- A positive timeout becomes 0, which waits for ever, and a negative one is accepted. -/
theorem serverMain_lockTimeout_wraps :
    (∃ config, serverMain (bytes "server") [bytes "--lock-timeout-ms", bytes "4294967296"] =
      .readsStdin config ∧ config.WaitsForEver) ∧
    ¬ RefusedOrExact (bytes "server") [] .lockTimeoutMs (bytes "4294967296") ∧
    ¬ RefusedOrExact (bytes "server") [] .lockTimeoutMs (bytes "-1") := by
  have hwrapped : Denotes (cstr (bytes "4294967296")) 4294967296 :=
    @Denotes.plain [] (bytes "4294967296") (by decide) (by decide) (by decide)
  have hnegative : Denotes (cstr (bytes "-1")) (-1) :=
    @Denotes.minus [] (bytes "1") (by decide) (by decide) (by decide)
  have hnone : serverReadArguments (bytes "server") [] .initial = .ok .initial := rfl
  refine ⟨⟨⟨0, 0, 0⟩, by rfl, DBServerConfig.waitsForEver_iff.mpr rfl⟩, fun h => ?_, fun h => ?_⟩
  · have hfits := h.fits hnone hwrapped
    simp [ServerOption.Fits] at hfits
  · have hfits := h.fits hnone hnegative
    simp [ServerOption.Fits] at hfits

end Exact

end SqlApi.Server

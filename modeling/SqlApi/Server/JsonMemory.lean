import SqlApi.Lib.Program
import SqlApi.Server.JsonBody

/-!
# What `api_extract_query_string` reads and writes

The same functions as in `HttpRequest`, as programs over memory: `cursor` and `end` are
distances from `body`, every `*cursor` is a load and every `buffer[length] = …` a store, and
an access outside of its memory is undefined behaviour. The readable bytes may be the window
alone or go on behind it.

`Points m endPtr cursor i`: in the memory `m` the pointer `i` stands where the list model has the
cursor `cursor`. Each function keeps it, and answers what its list model answers, as long as no byte
behind the window is read.
-/

namespace SqlApi.Server

open SqlApi.Lib SqlApi.Core

/-! ## Memory -/

/-- The buffers that strings are written to. -/
inductive ScanBuffer where
  | key | ignored | query
  deriving DecidableEq

/-- The accesses to memory. -/
inductive ScanOp where
  /-- `*cursor` -/
  | load (cursor : Nat)
  /-- `buffer[index] = c` -/
  | store (buffer : ScanBuffer) (index : Nat) (c : UInt8)
  /-- The text of `key`, as `strcmp` reads it. -/
  | loadKey

abbrev ScanOp.Ans : ScanOp → Type
  | .load _ => UInt8
  | .store .. => Unit
  | .loadKey => List UInt8

/-- A program of such accesses. -/
abbrev ScanProg (α : Type) : Type := Program ScanOp ScanOp.Ans α

/-- The bytes that can be read from `body` on, and the contents of the buffers. -/
structure ScanMemory where
  body : List UInt8
  buffer : ScanBuffer → List UInt8

/-- With a byte of a buffer changed. -/
def ScanMemory.write (m : ScanMemory) (buffer : ScanBuffer) (index : Nat) (c : UInt8) :
    ScanMemory :=
  { m with buffer := Function.update m.buffer buffer ((m.buffer buffer).set index c) }

/-- What an access does; `none` outside of the memory. -/
def ScanMemory.access : Handler ScanOp ScanOp.Ans ScanMemory
  | .load cursor, m => m.body[cursor]?.map (·, m)
  | .store buffer index c, m =>
    if index < (m.buffer buffer).length then some ((), m.write buffer index c) else none
  | .loadKey, m => if 0 ∈ m.buffer .key then some (cstr (m.buffer .key), m) else none

def load (cursor : Nat) : ScanProg UInt8 := Program.perform (ScanOp.load cursor)

def store (buffer : ScanBuffer) (index : Nat) (c : UInt8) : ScanProg Unit :=
  Program.perform (ScanOp.store buffer index c)

def loadKey : ScanProg (List UInt8) := Program.perform ScanOp.loadKey

/-- Run such a program. -/
abbrev ScanProg.run {α : Type} (p : ScanProg α) (m : ScanMemory) : Option (α × ScanMemory) :=
  Program.run ScanMemory.access p m

/-! ## The functions

A loop that advances the cursor has the distance to the end as its fuel. -/

/-- A loop that advances the cursor over such bytes. -/
def advanceWhileAt (p : UInt8 → Bool) (endPtr : Nat) : (fuel : Nat) → (cursor : Nat) → ScanProg Nat
  | 0, cursor => pure cursor
  | fuel + 1, cursor =>
    if cursor < endPtr then do
      if p (← load cursor) then advanceWhileAt p endPtr fuel (cursor + 1) else pure cursor
    else pure cursor

/-- `api_skip_spaces` -/
def apiSkipSpacesAt (cursor endPtr : Nat) : ScanProg Nat :=
  advanceWhileAt isSpace endPtr (endPtr - cursor) cursor

/-- `cursor < end && *cursor == c` -/
def isByteAt (cursor endPtr : Nat) (c : UInt8) : ScanProg Bool :=
  if cursor < endPtr then do return (← load cursor) == c
  else pure false

/-- The loop of `api_parse_json_string`. -/
def apiJsonStringLoopAt (endPtr : Nat) (buffer : ScanBuffer) (bufferSize : Nat) :
    (fuel : Nat) → (cursor length : Nat) → ScanProg (Option Nat)
  | 0, _, _ => pure none
  | fuel + 1, cursor, length =>
    if cursor < endPtr then do
      let current ← load cursor
      if current = 34 then
        -- the closing quote ends the text with a zero byte
        store buffer length 0
        return some (cursor + 1)
      else if current = 92 then
        -- a backslash at the end of the window
        if cursor + 1 ≥ endPtr then return none
        else
          let escaped ← load (cursor + 1)
          match apiUnescape escaped with
          | none => return none
          | some current =>
            if length + 1 ≥ bufferSize then return none
            else
              store buffer length current
              apiJsonStringLoopAt endPtr buffer bufferSize fuel (cursor + 2) (length + 1)
      else if length + 1 ≥ bufferSize then return none
      else
        store buffer length current
        apiJsonStringLoopAt endPtr buffer bufferSize fuel (cursor + 1) (length + 1)
    else pure none

/-- `api_parse_json_string`; the cursor behind the string, `none` for the return value 0. -/
def apiParseJsonStringAt (cursor endPtr : Nat) (buffer : ScanBuffer) (bufferSize : Nat) :
    ScanProg (Option Nat) := do
  if !(← isByteAt cursor endPtr 34) then return none
  else apiJsonStringLoopAt endPtr buffer bufferSize (endPtr - (cursor + 1)) (cursor + 1) 0

/-- The loop past a value that is no string. -/
def apiSkipRawAt (cursor endPtr : Nat) : ScanProg Nat :=
  advanceWhileAt (fun c => c != byte ',' && c != byte '}') endPtr (endPtr - cursor) cursor

/-- Past the value of a field that is not the query. The first load is not guarded. -/
def apiSkipValueAt (cursor endPtr : Nat) : ScanProg (Option Nat) := do
  if (← load cursor) = 34 then apiParseJsonStringAt cursor endPtr .ignored 16
  else return some (← apiSkipRawAt cursor endPtr)

/-- The loop of `api_extract_query_string`. -/
def apiExtractLoopAt (endPtr querySize : Nat) : (fuel : Nat) → (cursor : Nat) → ScanProg Bool
  | 0, _ => pure false
  | fuel + 1, cursor =>
    if cursor < endPtr then do
      let cursor ← apiSkipSpacesAt cursor endPtr
      if ← isByteAt cursor endPtr (byte '}') then return false
      else
        match ← apiParseJsonStringAt cursor endPtr .key 64 with
        | none => return false
        | some cursor =>
          let cursor ← apiSkipSpacesAt cursor endPtr
          if !(← isByteAt cursor endPtr (byte ':')) then return false
          else
            let cursor ← apiSkipSpacesAt (cursor + 1) endPtr
            if (← loadKey) = bytes "query" then
              return (← apiParseJsonStringAt cursor endPtr .query querySize).isSome
            else
              -- the value is looked at without a test of the window
              match ← apiSkipValueAt cursor endPtr with
              | none => return false
              | some cursor =>
                let cursor ← apiSkipSpacesAt cursor endPtr
                if ← isByteAt cursor endPtr (byte ',') then
                  apiExtractLoopAt endPtr querySize fuel (cursor + 1)
                else apiExtractLoopAt endPtr querySize fuel cursor
    else pure false

/-- `api_extract_query_string`; the query is in its buffer. -/
def apiExtractQueryStringAt (bodyLength querySize : Nat) : ScanProg Bool := do
  let cursor ← apiSkipSpacesAt 0 bodyLength
  if !(← isByteAt cursor bodyLength (byte '{')) then return false
  else apiExtractLoopAt bodyLength querySize bodyLength (cursor + 1)

/-! ## Pointers into the window -/

/-- The cursor `i` points to these bytes, which go up to the end of the window. -/
structure Points (m : ScanMemory) (endPtr : Nat) (cursor : Cursor) (i : Nat) : Prop where
  window : i + cursor.length = endPtr
  text : cursor <+: m.body.drop i

/-- The same bytes and buffers of the same size. -/
structure ScanMemory.SameShape (m m' : ScanMemory) : Prop where
  body : m'.body = m.body
  length : ∀ buffer, (m'.buffer buffer).length = (m.buffer buffer).length

section Points

variable {m m' : ScanMemory} {endPtr fuel i : Nat} {cursor : Cursor} {buffer : ScanBuffer}
  {read : List UInt8} {c : UInt8}

theorem ScanMemory.SameShape.refl (m : ScanMemory) : m.SameShape m := ⟨rfl, fun _ => rfl⟩

theorem ScanMemory.SameShape.trans {m'' : ScanMemory} (h : m.SameShape m')
    (h' : m'.SameShape m'') : m.SameShape m'' :=
  ⟨h'.body.trans h.body, fun buffer => (h'.length buffer).trans (h.length buffer)⟩

theorem Points.congr (h : Points m endPtr cursor i) (hm : m.SameShape m') :
    Points m' endPtr cursor i :=
  ⟨h.window, hm.body ▸ h.text⟩

theorem Points.lt_iff (h : Points m endPtr cursor i) : i < endPtr ↔ cursor ≠ [] := by
  have hwindow := h.window
  rw [← List.length_pos_iff]
  omega

theorem Points.tail (h : Points m endPtr (c :: cursor) i) :
    m.body[i]? = some c ∧ Points m endPtr cursor (i + 1) := by
  obtain ⟨behind, hbehind⟩ := h.text
  have hwindow := h.window
  rw [List.length_cons] at hwindow
  refine ⟨?_, by omega, behind, ?_⟩
  · rw [← List.head?_drop, ← hbehind]
    rfl
  · rw [← List.tail_drop, ← hbehind]
    rfl

/-- A byte of the window is read. -/
theorem Points.run_load (h : Points m endPtr (c :: cursor) i) :
    (load i).run m = some (c, m) := by
  rw [load, ScanProg.run, Program.run_perform]
  simp [ScanMemory.access, h.tail.1]

/-- Behind the window there is a byte if the memory goes on. -/
theorem Points.run_load_end (h : Points m endPtr [] i) :
    (load i).run m = m.body[endPtr]?.map (·, m) := by
  obtain rfl : i = endPtr := h.window
  rw [load, ScanProg.run, Program.run_perform]
  rfl

theorem ScanMemory.sameShape_write (m : ScanMemory) (buffer : ScanBuffer) (index : Nat)
    (c : UInt8) : m.SameShape (m.write buffer index c) where
  body := rfl
  length other := by
    by_cases hother : other = buffer
    · subst hother
      simp [write]
    · simp [write, hother]

/-- A byte is written behind those that were. -/
theorem run_store (hread : read <+: m.buffer buffer)
    (hroom : read.length < (m.buffer buffer).length) (c : UInt8) :
    ∃ m', (store buffer read.length c).run m = some ((), m') ∧ m.SameShape m' ∧
      read ++ [c] <+: m'.buffer buffer := by
  refine ⟨m.write buffer read.length c, ?_, m.sameShape_write .., ?_⟩
  · rw [store, ScanProg.run, Program.run_perform]
    exact if_pos hroom
  · obtain ⟨behind, hbehind⟩ := hread
    have hwritten : (m.write buffer read.length c).buffer buffer =
        (read ++ behind).set read.length c := by
      rw [hbehind]
      exact Function.update_self ..
    rw [hwritten]
    rw [← hbehind] at hroom
    -- the slot behind the text is there, and the rest of the buffer stays
    cases behind with
    | nil => simp at hroom
    | cons d behind => exact ⟨behind, by simp⟩

/-- The cursor is advanced within the window. -/
theorem Points.run_advanceWhile (p : UInt8 → Bool) (h : Points m endPtr cursor i)
    (hfuel : cursor.length ≤ fuel) : ∃ j, (advanceWhileAt p endPtr fuel i).run m = some (j, m) ∧
      Points m endPtr (cursor.dropWhile p) j := by
  -- the induction is on the bytes in front of the end pointer; the pointer moves by one with each
  induction cursor generalizing fuel i with
  | nil =>
    refine ⟨i, ?_, h⟩
    cases fuel with
    | zero => rfl
    | succ fuel => simp [advanceWhileAt, h.lt_iff]
  | cons c cursor ih =>
    obtain ⟨fuel, rfl⟩ : ∃ k, fuel = k + 1 := Nat.exists_eq_add_one.mpr (by simp at hfuel; omega)
    have hlt : i < endPtr := h.lt_iff.mpr (List.cons_ne_nil _ _)
    have hstep : (advanceWhileAt p endPtr (fuel + 1) i).run m =
        (if p c then advanceWhileAt p endPtr fuel (i + 1) else pure i).run m := by
      rw [advanceWhileAt, if_pos hlt]
      exact Program.run_bind_of_eq h.run_load _
    rw [hstep]
    cases hc : p c with
    | true =>
      rw [if_pos rfl, List.dropWhile_cons_of_pos hc]
      exact ih h.tail.2 (by simpa using hfuel)
    | false =>
      rw [if_neg Bool.false_ne_true, List.dropWhile_cons_of_neg (by simp [hc])]
      exact ⟨i, rfl, h⟩

theorem Points.run_skipSpaces (h : Points m endPtr cursor i) :
    ∃ j, (apiSkipSpacesAt i endPtr).run m = some (j, m) ∧
      Points m endPtr (apiSkipSpaces cursor) j :=
  h.run_advanceWhile isSpace (by have := h.window; omega)

/-- A byte is compared with the next one of the window, if there is one. -/
theorem Points.run_isByte (h : Points m endPtr cursor i) (c : UInt8) :
    (isByteAt i endPtr c).run m = some (decide (cursor.head? = some c), m) := by
  cases cursor with
  | nil => simp [isByteAt, h.lt_iff]
  | cons d cursor =>
    have hlt : i < endPtr := h.lt_iff.mpr (List.cons_ne_nil _ _)
    rw [isByteAt, if_pos hlt]
    refine (Program.run_bind_of_eq h.run_load _).trans ?_
    simp [beq_eq_decide]

end Points

/-! ## Strings -/

section Strings

variable {m : ScanMemory} {endPtr fuel i size : Nat} {cursor : Cursor} {buffer : ScanBuffer}
  {read : List UInt8}

/-- What a run of `api_parse_json_string` or of its loop comes to, when reading the bytes of
the window comes to `result`. -/
def ReadsString (p : ScanProg (Option Nat)) (m : ScanMemory) (endPtr : Nat) (buffer : ScanBuffer)
    (result : Option (List UInt8 × Cursor)) : Prop :=
  ∃ j m', p.run m = some (j, m') ∧ m.SameShape m' ∧
    match result with
    | none => j = none
    | some (q, rest) => ∃ i, j = some i ∧ Points m' endPtr rest i ∧ q ++ [0] <+: m'.buffer buffer

theorem readsString_none (m : ScanMemory) (endPtr : Nat) (buffer : ScanBuffer) :
    ReadsString (pure none) m endPtr buffer none :=
  ⟨none, m, rfl, .refl m, rfl⟩

/-- A byte of the window is looked at. -/
theorem ReadsString.load {c : UInt8} {result : Option (List UInt8 × Cursor)}
    {f : UInt8 → ScanProg (Option Nat)} (h : Points m endPtr (c :: cursor) i)
    (hf : ReadsString (f c) m endPtr buffer result) :
    ReadsString (load i >>= f) m endPtr buffer result := by
  obtain ⟨j, m', hrun, hshape, hresult⟩ := hf
  exact ⟨j, m', (Program.run_bind_of_eq h.run_load _).trans hrun, hshape, hresult⟩

/-- A byte is stored if there is room, and the loop goes on. -/
theorem ReadsString.put {c : UInt8} {result : Option (List UInt8 × Cursor)}
    (hsize : (m.buffer buffer).length = size) (hread : read <+: m.buffer buffer)
    (hfits : ¬ read.length + 1 ≥ size) {rest : ScanProg (Option Nat)}
    (hrest : ∀ m', m.SameShape m' → read ++ [c] <+: m'.buffer buffer →
      ReadsString rest m' endPtr buffer result) :
    ReadsString (if read.length + 1 ≥ size then pure none
      else do store buffer read.length c; rest) m endPtr buffer result := by
  obtain ⟨m', hstore, hshape, hread'⟩ := run_store hread (by omega) c
  obtain ⟨j, m'', hrun, hshape', hresult⟩ := hrest m' hshape hread'
  rw [if_neg hfits]
  exact ⟨j, m'', (Program.run_bind_of_eq hstore _).trans hrun, hshape.trans hshape', hresult⟩

/-- The last branch of the loop has no backslash. -/
private theorem ne_backslash {c : UInt8} (hlast : c = 92 → cursor = [] → False)
    (hmore : ∀ escaped rest, c = 92 → cursor = escaped :: rest → False) : c ≠ 92 := by
  intro hc
  cases cursor with
  | nil => exact hlast hc rfl
  | cons escaped rest => exact hmore escaped rest hc rfl

/-- The loop reads the bytes of the window and no others. -/
theorem Points.readsString_loop (h : Points m endPtr cursor i) (hfuel : cursor.length ≤ fuel)
    (hsize : (m.buffer buffer).length = size) (hread : read <+: m.buffer buffer)
    (hroom : read.length < size) :
    ReadsString (apiJsonStringLoopAt endPtr buffer size fuel i read.length) m endPtr buffer
      (apiJsonStringLoop size read cursor) := by
  have hcons {m : ScanMemory} {cursor : Cursor} {i fuel : Nat} (h : Points m endPtr cursor i)
      (hne : cursor ≠ []) (hfuel : cursor.length ≤ fuel) : i < endPtr ∧ ∃ k, fuel = k + 1 :=
    ⟨h.lt_iff.mpr hne, Nat.exists_eq_add_one.mpr (by have := List.length_pos_iff.mpr hne; omega)⟩
  fun_induction apiJsonStringLoop size read cursor generalizing m i fuel with
  | case1 read =>
    -- the window ends within the string
    cases fuel with
    | zero => exact readsString_none ..
    | succ fuel =>
      rw [apiJsonStringLoopAt, if_neg (by simp [h.lt_iff])]
      exact readsString_none ..
  | case2 read cursor =>
    -- the closing quote, where the terminator is stored
    obtain ⟨hlt, fuel, rfl⟩ := hcons h (List.cons_ne_nil _ _) hfuel
    rw [apiJsonStringLoopAt, if_pos hlt]
    refine .load h ?_
    obtain ⟨m', hstore, hshape, hread'⟩ := run_store hread (by omega) 0
    rw [if_pos rfl]
    exact ⟨some (i + 1), m', Program.run_bind_of_eq hstore _, hshape, i + 1, rfl,
      h.tail.2.congr hshape, hread'⟩
  | case3 read =>
    -- a backslash that is the last byte of the window
    obtain ⟨hlt, fuel, rfl⟩ := hcons h (List.cons_ne_nil _ _) hfuel
    have hend : i + 1 ≥ endPtr := by
      have := h.window
      simp at this
      omega
    rw [apiJsonStringLoopAt, if_pos hlt]
    refine .load h ?_
    rw [if_neg (by decide), if_pos rfl, if_pos hend]
    exact readsString_none ..
  | case4 read escaped cursor hescaped =>
    -- no escape that the scanner knows
    obtain ⟨hlt, fuel, rfl⟩ := hcons h (List.cons_ne_nil _ _) hfuel
    have hmore : ¬ i + 1 ≥ endPtr := not_le.mpr (h.tail.2.lt_iff.mpr (List.cons_ne_nil _ _))
    rw [apiJsonStringLoopAt, if_pos hlt]
    refine .load h ?_
    rw [if_neg (by decide), if_pos rfl, if_neg hmore]
    refine .load h.tail.2 ?_
    rw [hescaped]
    exact readsString_none ..
  | case5 read escaped cursor c hescaped hfull =>
    -- an escape for which the buffer has no room
    obtain ⟨hlt, fuel, rfl⟩ := hcons h (List.cons_ne_nil _ _) hfuel
    have hmore : ¬ i + 1 ≥ endPtr := not_le.mpr (h.tail.2.lt_iff.mpr (List.cons_ne_nil _ _))
    rw [apiJsonStringLoopAt, if_pos hlt]
    refine .load h ?_
    rw [if_neg (by decide), if_pos rfl, if_neg hmore]
    refine .load h.tail.2 ?_
    simp only [hescaped]
    rw [if_pos hfull]
    exact readsString_none ..
  | case6 read escaped cursor c hescaped hfits ih =>
    obtain ⟨hlt, fuel, rfl⟩ := hcons h (List.cons_ne_nil _ _) hfuel
    have hmore : ¬ i + 1 ≥ endPtr := not_le.mpr (h.tail.2.lt_iff.mpr (List.cons_ne_nil _ _))
    rw [apiJsonStringLoopAt, if_pos hlt]
    refine .load h ?_
    rw [if_neg (by decide), if_pos rfl, if_neg hmore]
    refine .load h.tail.2 ?_
    simp only [hescaped]
    refine .put hsize hread hfits fun m' hshape hread' => ?_
    have hlength : (read ++ [c]).length = read.length + 1 := by simp
    rw [← hlength]
    exact ih (h.tail.2.tail.2.congr hshape) (by simp at hfuel; omega)
      ((hshape.length buffer).trans hsize) hread' (by omega)
  | case7 read c cursor hquote hlast hbackslash hfull =>
    -- a byte for which it has none
    obtain ⟨hlt, fuel, rfl⟩ := hcons h (List.cons_ne_nil _ _) hfuel
    rw [apiJsonStringLoopAt, if_pos hlt]
    refine .load h ?_
    rw [if_neg hquote, if_neg (ne_backslash hlast hbackslash), if_pos hfull]
    exact readsString_none ..
  | case8 read c cursor hquote hlast hbackslash hfits ih =>
    obtain ⟨hlt, fuel, rfl⟩ := hcons h (List.cons_ne_nil _ _) hfuel
    rw [apiJsonStringLoopAt, if_pos hlt]
    refine .load h ?_
    rw [if_neg hquote, if_neg (ne_backslash hlast hbackslash)]
    refine .put hsize hread hfits fun m' hshape hread' => ?_
    have hlength : (read ++ [c]).length = read.length + 1 := by simp
    rw [← hlength]
    exact ih (h.tail.2.congr hshape) (by simpa using hfuel)
      ((hshape.length buffer).trans hsize) hread' (by omega)

/-- `api_parse_json_string` reads the bytes of the window and no others. -/
theorem Points.readsString (h : Points m endPtr cursor i)
    (hsize : (m.buffer buffer).length = size) (hpos : 0 < size) :
    ReadsString (apiParseJsonStringAt i endPtr buffer size) m endPtr buffer
      (apiParseJsonString size cursor) := by
  have hquote := h.run_isByte 34
  by_cases hopen : cursor.head? = some 34
  · obtain ⟨rest, rfl⟩ := List.head?_eq_some_iff.mp hopen
    have hfuel : rest.length ≤ endPtr - (i + 1) := by
      have := h.tail.2.window
      omega
    obtain ⟨j, m', hrun, hshape, hresult⟩ :=
      h.tail.2.readsString_loop hfuel hsize (List.nil_prefix (l := m.buffer buffer)) hpos
    refine ⟨j, m', ?_, hshape, hresult⟩
    rw [decide_eq_true hopen] at hquote
    exact (Program.run_bind_of_eq hquote _).trans hrun
  · have hnone : apiParseJsonString size cursor = none := by
      unfold apiParseJsonString
      split
      · exact absurd rfl hopen
      · rfl
    rw [decide_eq_false hopen] at hquote
    rw [hnone]
    exact ⟨none, m, Program.run_bind_of_eq hquote _, .refl m, rfl⟩

end Strings

/-! ## Values -/

section Values

variable {m : ScanMemory} {endPtr i size : Nat} {cursor : Cursor}

/-- The buffers have the sizes that the functions are told. -/
structure ScanMemory.Sized (m : ScanMemory) (querySize : Nat) : Prop where
  key : (m.buffer .key).length = 64
  ignored : (m.buffer .ignored).length = 16
  query : (m.buffer .query).length = querySize

theorem ScanMemory.Sized.congr {m' : ScanMemory} (hm : m.Sized size) (h : m.SameShape m') :
    m'.Sized size :=
  ⟨(h.length _).trans hm.key, (h.length _).trans hm.ignored, (h.length _).trans hm.query⟩

/-- A value within the window is passed over. -/
theorem Points.run_skipValue (h : Points m endPtr cursor i) (hm : m.Sized size)
    (hne : cursor ≠ []) : ∃ j m', (apiSkipValueAt i endPtr).run m = some (j, m') ∧
      m.SameShape m' ∧
      match apiSkipValue cursor with
      | none => j = none
      | some rest => ∃ i', j = some i' ∧ Points m' endPtr rest i' := by
  obtain ⟨c, rest, rfl⟩ := List.exists_cons_of_ne_nil hne
  have hload (f : UInt8 → ScanProg (Option Nat)) : (load i >>= f).run m = (f c).run m :=
    Program.run_bind_of_eq h.run_load _
  -- a string goes through the reader of strings, everything else is passed over byte by byte
  by_cases hquote : c = 34
  · subst hquote
    obtain ⟨j, m', hrun, hshape, hresult⟩ := h.readsString hm.ignored (by decide)
    refine ⟨j, m', (hload _).trans hrun, hshape, ?_⟩
    rw [apiSkipValue, if_pos (by rfl)]
    cases hread : apiParseJsonString 16 (34 :: rest) with
    | none =>
      rw [hread] at hresult
      exact hresult
    | some r =>
      rw [hread] at hresult
      obtain ⟨i', hj, hpoints, -⟩ := hresult
      exact ⟨i', hj, hpoints⟩
  · have hfuel : (c :: rest).length ≤ endPtr - i := by
      have := h.window
      omega
    obtain ⟨j, hrun, hpoints⟩ :=
      h.run_advanceWhile (fun c => c != byte ',' && c != byte '}') hfuel
    have hstep : (apiSkipValueAt i endPtr).run m = some (some j, m) := by
      refine (hload _).trans ?_
      rw [if_neg hquote]
      exact Program.run_bind_of_eq hrun _
    refine ⟨some j, m, hstep, .refl m, ?_⟩
    rw [apiSkipValue, if_neg (by simpa using hquote)]
    exact ⟨j, rfl, hpoints⟩

/-- At the end of the window the load is outside of it; whatever byte is there, nothing is
passed over. -/
theorem Points.run_skipValue_end (h : Points m endPtr [] i) :
    match m.body[endPtr]? with
    | none => (apiSkipValueAt i endPtr).run m = none
    | some _ => ∃ j, (apiSkipValueAt i endPtr).run m = some (j, m) ∧ (j = none ∨ j = some i) := by
  have hload := h.run_load_end
  -- behind the window the answer depends on the byte that happens to stand there
  cases hbyte : m.body[endPtr]? with
  | none =>
    have hnone : Program.run ScanMemory.access (load i) m = none := by
      rw [hbyte] at hload
      exact hload
    change (apiSkipValueAt i endPtr).run m = none
    rw [apiSkipValueAt, ScanProg.run, Program.run_bind, hnone]
    rfl
  | some c =>
    rw [hbyte] at hload
    have hstep (f : UInt8 → ScanProg (Option Nat)) : (load i >>= f).run m = (f c).run m :=
      Program.run_bind_of_eq hload _
    by_cases hquote : c = 34
    · refine ⟨none, (hstep _).trans ?_, .inl rfl⟩
      rw [if_pos hquote]
      exact Program.run_bind_of_eq (h.run_isByte 34) _
    · obtain ⟨j, hrun, hpoints⟩ :=
        h.run_advanceWhile (fun c => c != byte ',' && c != byte '}') (Nat.zero_le (endPtr - i))
      obtain rfl : j = i := by
        have hj := hpoints.window
        have hi := h.window
        simp only [List.dropWhile_nil, List.length_nil] at hj hi
        omega
      refine ⟨some j, (hstep _).trans ?_, .inr rfl⟩
      rw [if_neg hquote]
      exact Program.run_bind_of_eq hrun _

end Values

end SqlApi.Server

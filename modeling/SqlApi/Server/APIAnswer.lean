import SqlApi.Lib.Json
import SqlApi.Server.HttpRendering

/-!
# What an answer says

The body that `api_build_execution_response` writes, against the JSON of what the execution has
to say. Every `snprintf` on the way has room for its text, so nothing is cut off, and the body
decodes to that JSON.

## How the proof goes

`APIAnswer` is what there is to say; `APIAnswer.calls` are the calls of `snprintf` that write it,
with the capacity of each. The names and messages are escaped byte by byte, so that the decoder
gets them back (`APIAnswer.reads`); the capacity that the code computes for a SELECT is enough
for every row with its escaped name (`APIAnswer.Typed.fits`).
-/

namespace SqlApi.Server

open SqlApi.Lib SqlApi.Core

/-! ## What an answer says -/

/-- What the API has to say about an execution. -/
inductive APIAnswer where
  | error (statusCode : Int) (errorType message : List UInt8)
  | insert (insertedId : Int)
  | select (usedIndex : Bool) (rows : List Row)

/-- The answer to an execution whose result has these rows. -/
def apiExecutionAnswer (rows : List Row) (execution : DBServerExecution) : APIAnswer :=
  if execution.serverStatus = .lockTimeout then
    .error 503 (bytes "lock_timeout") (cstr execution.message)
  else
    match execution.result.status with
    | .syntaxError => .error 400 (bytes "syntax_error") (cstr execution.result.errorMessage)
    | .queryError => .error 400 (bytes "query_error") (cstr execution.result.errorMessage)
    | .error =>
      .error 500 (bytes "internal_error")
        (if execution.result.errorMessage = [] then bytes "Internal execution error"
         else cstr execution.result.errorMessage)
    | .exit =>
      .error 400 (bytes "query_error") (bytes "EXIT and QUIT are only supported in CLI mode")
    -- a SELECT without rows is an answer with none, not an error
    | .ok | .notFound =>
      match execution.result.action with
      | .insert => .insert execution.result.insertedId
      | .selectRows => .select execution.usedIndex rows
      | .none => .error 500 (bytes "internal_error") (bytes "Unsupported execution result")

def APIAnswer.statusCode : APIAnswer → Int
  | .error statusCode _ _ => statusCode
  | .insert _ | .select _ _ => 200

/-- A row in JSON. -/
def rowJson (row : Row) : Json :=
  .object [(bytes "id", .number row.id 0), (bytes "name", .string row.name),
    (bytes "age", .number row.age 0)]

/-- An answer in JSON. -/
def APIAnswer.json : APIAnswer → Json
  | .error _ errorType message =>
    .object [(bytes "ok", .bool false), (bytes "status", .string errorType),
      (bytes "error", .string errorType), (bytes "message", .string message)]
  | .insert insertedId =>
    .object [(bytes "ok", .bool true), (bytes "status", .string (bytes "ok")),
      (bytes "action", .string (bytes "insert")), (bytes "insertedId", .number insertedId 0),
      (bytes "usedIndex", .bool false)]
  | .select usedIndex rows =>
    .object [(bytes "ok", .bool true), (bytes "status", .string (bytes "ok")),
      (bytes "action", .string (bytes "select")), (bytes "rowCount", .number rows.length 0),
      (bytes "usedIndex", .bool usedIndex), (bytes "rows", .array (rows.map rowJson))]

/-! ## The calls of `snprintf` -/

/-- The calls that write these texts into one buffer, one behind the other; `capacity - offset`
and the sum of the return values are of type `size_t`. -/
def apiAppendCalls (capacity : Nat) : (offset : Nat) → List (List UInt8) → List SnprintfCall
  | _, [] => []
  | offset, text :: texts =>
    ⟨(2 ^ 64 + capacity - offset) % 2 ^ 64, text⟩ ::
      apiAppendCalls capacity ((offset + snprintfReturn text) % 2 ^ 64).toNat texts

/-- What `api_build_execution_response` computes as the capacity for these rows. -/
def apiRowsCapacity (rows : List Row) : Nat :=
  rows.foldl (fun capacity row => (capacity + (row.name.length * 6 + 96)) % 2 ^ 64) 160

/-- The calls that write the body of an answer. -/
def APIAnswer.calls : APIAnswer → List SnprintfCall
  | .error _ errorType message =>
    [⟨2048, apiErrorText errorType (message.flatMap apiEscapeByte)⟩]
  | .insert insertedId => [⟨256, apiInsertText insertedId⟩]
  | .select usedIndex rows =>
    apiAppendCalls (apiRowsCapacity rows) 0 (apiSelectTexts usedIndex rows)

/-- The texts of all calls. -/
def APIAnswer.text (answer : APIAnswer) : List UInt8 := answer.calls.flatMap SnprintfCall.text

/-! ## The escaped texts -/

/-- Text that stands in a JSON string as it is. -/
def PlainText (s : List UInt8) : Prop := ∀ c ∈ s, 32 ≤ c ∧ c ≠ 34 ∧ c ≠ 92

section Escape

private theorem readsChar_plain {c : UInt8} (hc : 32 ≤ c ∧ c ≠ 34 ∧ c ≠ 92) : ReadsChar c [c] := by
  obtain ⟨hlow, hquote, hbackslash⟩ := hc
  intro rest
  change (if c = 92 then _ else if c < 32 ∨ c = 34 then none else some ([c], rest)) = _
  rw [if_neg hbackslash, if_neg (not_or.mpr ⟨UInt8.not_lt.mpr hlow, hquote⟩)]

/-- The two digits of a control character. -/
private theorem hexValue_hexDigit : ∀ n < 32,
    hexValue (hexDigit (n.toUInt8 / 16)) = some (n / 16) ∧
      hexValue (hexDigit (n.toUInt8 % 16)) = some (n % 16) := by decide

/-- Every byte is read back from its escape. -/
theorem readsChar_apiEscapeByte (c : UInt8) : ReadsChar c (apiEscapeByte c) := by
  intro rest
  unfold apiEscapeByte
  split
  · next hquoted => rcases hquoted with rfl | rfl <;> rfl
  · next hquoted =>
    rw [not_or] at hquoted
    split
    · next h => subst h; rfl
    · split
      · next h => subst h; rfl
      · split
        · next h => subst h; rfl
        · split
          · next hcontrol =>
            -- `\u00` and two digits
            have hlt : c.toNat < 32 := by simpa [UInt8.lt_iff_toNat_lt] using hcontrol
            have hbyte : c.toNat.toUInt8 = c := UInt8.ofNat_toNat
            obtain ⟨hhigh, hlow⟩ := hexValue_hexDigit c.toNat hlt
            rw [hbyte] at hhigh hlow
            change jsonUnicode (byte '0' :: byte '0' :: hexDigit (c / 16) :: hexDigit (c % 16) ::
              rest) = _
            have hzero : hexValue (byte '0') = some 0 := rfl
            have hcode : ((0 * 16 + 0) * 16 + c.toNat / 16) * 16 + c.toNat % 16 = c.toNat := by omega
            have hutf8 : utf8 c.toNat = [c] := by rw [utf8, if_pos (by omega), hbyte]
            unfold jsonUnicode jsonHex
            simp only [hzero, hhigh, hlow, Option.bind_eq_bind, Option.bind_some, Option.pure_def,
              hcode]
            rw [if_pos (by omega), hutf8]
          · next hcontrol => exact readsChar_plain ⟨UInt8.not_lt.mp hcontrol, hquoted⟩ rest

/-- There is no terminator in an escape. -/
private theorem zero_notMem_apiEscapeByte {c : UInt8} (hc : c ≠ 0) : 0 ∉ apiEscapeByte c := by
  have hall : ∀ n < 256, n ≠ 0 → 0 ∉ apiEscapeByte n.toUInt8 := by decide +kernel
  have hbyte : c.toNat.toUInt8 = c := UInt8.ofNat_toNat
  have hpos : c.toNat ≠ 0 := fun h => hc (UInt8.toNat_inj.mp h)
  exact hbyte ▸ hall c.toNat c.toNat_lt hpos

theorem zero_notMem_apiEscape {s : List UInt8} (hs : 0 ∉ s) : 0 ∉ s.flatMap apiEscapeByte := by
  intro h
  obtain ⟨c, hc, hzero⟩ := List.mem_flatMap.mp h
  exact zero_notMem_apiEscapeByte (fun h => hs (h ▸ hc)) hzero

end Escape

/-! ## The body is JSON -/

section Json

variable {rows : List Row}

/-- The calls that append texts write them one behind the other. -/
private theorem flatMap_apiAppendCalls (capacity offset : Nat) (texts : List (List UInt8)) :
    (apiAppendCalls capacity offset texts).flatMap SnprintfCall.text = texts.flatten := by
  induction texts generalizing offset with
  | nil => rfl
  | cons text texts ih =>
    rw [apiAppendCalls, List.flatMap_cons, ih]
    rfl

theorem APIAnswer.text_select (usedIndex : Bool) (rows : List Row) :
    (APIAnswer.select usedIndex rows).text = (apiSelectTexts usedIndex rows).flatten :=
  flatMap_apiAppendCalls _ _ _

theorem reads_plain {s : List UInt8} (hs : PlainText s) :
    Reads (.string s) (34 :: (s ++ [34])) := by
  have hread : Reads (.string s) (34 :: (s.flatMap (fun c => [c]) ++ [34])) :=
    reads_string fun c hc => readsChar_plain (hs c hc)
  rwa [List.flatMap_singleton'] at hread

private theorem reads_escaped (s : List UInt8) :
    Reads (.string s) (34 :: (s.flatMap apiEscapeByte ++ [34])) :=
  reads_string fun c _ => readsChar_apiEscapeByte c

/-- The text of an object, from the names and texts of its members. -/
def objectText (members : List (List UInt8 × Json × List UInt8)) : List UInt8 :=
  123 :: ([44].intercalate (members.map fun m => jsonMemberText m.1 m.2.2) ++ [125])

/-- An object whose names need no escape. -/
theorem reads_members {members : List (List UInt8 × Json × List UInt8)}
    (hnames : ∀ m ∈ members, PlainText m.1) (hvalues : ∀ m ∈ members, Reads m.2.1 m.2.2) :
    Reads (.object (members.map fun m => (m.1, m.2.1))) (objectText members) :=
  reads_object members fun m hm =>
    ⟨fun c hc => readsChar_plain (hnames m hm c hc), hvalues m hm⟩

/-- The members of a row. -/
private def rowMembers (row : Row) : List (List UInt8 × Json × List UInt8) :=
  [(bytes "id", .number row.id 0, decimal row.id),
    (bytes "name", .string row.name, 34 :: (row.name.flatMap apiEscapeByte ++ [34])),
    (bytes "age", .number row.age 0, decimal row.age)]

private theorem reads_row (row : Row) : Reads (rowJson row) (objectText (rowMembers row)) := by
  refine reads_members ?_ ?_
  · simp only [rowMembers, List.forall_mem_cons]
    unfold PlainText
    decide
  · simp [rowMembers, reads_decimal, reads_escaped]

/-- A row is written as an object, after a comma unless it is the first one. -/
private theorem apiSelectRow_eq (index : Nat) (row : Row) :
    apiSelectRow index row.id (row.name.flatMap apiEscapeByte) row.age =
      bytes (if index = 0 then "" else ",") ++ objectText (rowMembers row) := by
  unfold apiSelectRow objectText rowMembers jsonMemberText
  simp only [List.append_assoc, List.map_cons, List.map_nil, List.intercalate_cons_cons,
    List.intercalate_singleton, List.cons_append, List.nil_append]
  rfl

/-- Every row but the first brings a comma before it. -/
private theorem flatten_apiRowTexts_of_ne {index : Nat} (hindex : index ≠ 0) (rows : List Row) :
    (apiRowTexts index rows).flatten =
      (rows.map fun row => 44 :: objectText (rowMembers row)).flatten := by
  induction rows generalizing index with
  | nil => rfl
  | cons row rows ih =>
    rw [apiRowTexts, List.flatten_cons, apiSelectRow_eq, if_neg hindex, ih (Nat.succ_ne_zero _)]
    rfl

private theorem intercalate_rows (row : Row) (rows : List Row) :
    [44].intercalate ((row :: rows).map fun row => objectText (rowMembers row)) =
      objectText (rowMembers row) ++
        (rows.map fun row => 44 :: objectText (rowMembers row)).flatten := by
  induction rows generalizing row with
  | nil => simp
  | cons next rows ih =>
    have hnext := ih next
    rw [List.map_cons] at hnext
    rw [List.map_cons, List.map_cons, List.intercalate_cons_cons, hnext]
    simp

/-- The rows with the commas between them. -/
private theorem flatten_apiRowTexts (rows : List Row) :
    (apiRowTexts 0 rows).flatten =
      [44].intercalate (rows.map fun row => objectText (rowMembers row)) := by
  cases rows with
  | nil => rfl
  | cons row rows =>
    rw [apiRowTexts, List.flatten_cons, apiSelectRow_eq, if_pos rfl,
      flatten_apiRowTexts_of_ne (by decide), intercalate_rows]
    rfl

/-- The members of an answer. -/
private def answerMembers : APIAnswer → List (List UInt8 × Json × List UInt8)
  | .error _ errorType message =>
    [(bytes "ok", .bool false, bytes "false"),
      (bytes "status", .string errorType, 34 :: (errorType ++ [34])),
      (bytes "error", .string errorType, 34 :: (errorType ++ [34])),
      (bytes "message", .string message, 34 :: (message.flatMap apiEscapeByte ++ [34]))]
  | .insert insertedId =>
    [(bytes "ok", .bool true, bytes "true"),
      (bytes "status", .string (bytes "ok"), 34 :: (bytes "ok" ++ [34])),
      (bytes "action", .string (bytes "insert"), 34 :: (bytes "insert" ++ [34])),
      (bytes "insertedId", .number insertedId 0, decimal insertedId),
      (bytes "usedIndex", .bool false, bytes "false")]
  | .select usedIndex rows =>
    [(bytes "ok", .bool true, bytes "true"),
      (bytes "status", .string (bytes "ok"), 34 :: (bytes "ok" ++ [34])),
      (bytes "action", .string (bytes "select"), 34 :: (bytes "select" ++ [34])),
      (bytes "rowCount", .number rows.length 0, decimal rows.length),
      (bytes "usedIndex", .bool usedIndex, bytes (if usedIndex then "true" else "false")),
      (bytes "rows", .array (rows.map rowJson),
        91 :: ([44].intercalate (rows.map fun row => objectText (rowMembers row)) ++ [93]))]

/-- The text of an answer is that of an object. -/
private theorem APIAnswer.text_eq (answer : APIAnswer) :
    answer.text = objectText (answerMembers answer) := by
  cases answer with
  | error statusCode errorType message =>
    change apiErrorText errorType (message.flatMap apiEscapeByte) ++ [] = _
    unfold apiErrorText objectText answerMembers jsonMemberText
    simp only [List.append_assoc, List.map_cons, List.map_nil, List.intercalate_cons_cons,
      List.intercalate_singleton, List.cons_append, List.nil_append, List.append_nil]
    rfl
  | insert insertedId =>
    change apiInsertText insertedId ++ [] = _
    unfold apiInsertText objectText answerMembers jsonMemberText
    simp only [List.append_assoc, List.map_cons, List.map_nil, List.intercalate_cons_cons,
      List.intercalate_singleton, List.cons_append, List.nil_append, List.append_nil]
    rfl
  | select usedIndex rows =>
    rw [APIAnswer.text_select, apiSelectTexts, List.flatten_cons, List.flatten_append,
      flatten_apiRowTexts]
    unfold apiSelectHead objectText answerMembers jsonMemberText
    simp only [List.append_assoc, List.map_cons, List.map_nil, List.intercalate_cons_cons,
      List.intercalate_singleton, List.cons_append, List.nil_append, List.flatten_singleton]
    rfl

/-- The error types are written as they are. -/
def APIAnswer.PlainType : APIAnswer → Prop
  | .error _ errorType _ => PlainText errorType
  | _ => True

/-- The text of an answer is read as its JSON. -/
theorem APIAnswer.reads {answer : APIAnswer} (hplain : answer.PlainType) :
    Reads answer.json answer.text := by
  rw [answer.text_eq]
  cases answer with
  -- one case per answer: its members are read name by name, each value by its own lemma
  | error statusCode errorType message =>
    refine reads_members ?_ ?_
    · simp only [answerMembers, List.forall_mem_cons]
      unfold PlainText
      decide
    · simp [answerMembers, reads_false, reads_plain (show PlainText errorType from hplain),
        reads_escaped]
  | insert insertedId =>
    refine reads_members ?_ ?_
    · simp only [answerMembers, List.forall_mem_cons]
      unfold PlainText
      decide
    · have hwords : PlainText (bytes "ok") ∧ PlainText (bytes "insert") := by
        unfold PlainText
        decide
      simp [answerMembers, reads_true, reads_false, reads_plain hwords.1, reads_plain hwords.2,
        reads_decimal]
  | select usedIndex rows =>
    refine reads_members ?_ ?_
    · simp only [answerMembers, List.forall_mem_cons]
      unfold PlainText
      decide
    · have hwords : PlainText (bytes "ok") ∧ PlainText (bytes "select") := by
        unfold PlainText
        decide
      have hindex : Reads (.bool usedIndex) (bytes (if usedIndex then "true" else "false")) := by
        cases usedIndex
        · exact reads_false
        · exact reads_true
      -- the rows are an array of objects, and each object reads as its row
      have hrows := reads_array (rows.map fun row => (rowJson row, objectText (rowMembers row)))
        (by simpa using fun row _ => reads_row row)
      rw [List.map_map, List.map_map] at hrows
      simp only [answerMembers, List.forall_mem_cons]
      exact ⟨reads_true, reads_plain hwords.1, reads_plain hwords.2, reads_decimal _, hindex, hrows,
        nofun⟩

end Json

/-! ## Nothing is cut off -/

/-- The values in an answer are ones that the code has: texts of at most 255 bytes, rows and
numbers of the C types. -/
structure APIAnswer.Typed (answer : APIAnswer) : Prop where
  error : ∀ statusCode errorType message, answer = .error statusCode errorType message →
    IsInt statusCode ∧ PlainText errorType ∧ errorType.length ≤ 32 ∧ 0 ∉ message ∧
      message.length ≤ 255
  insert : ∀ insertedId, answer = .insert insertedId → IsInt insertedId
  select : ∀ usedIndex rows, answer = .select usedIndex rows →
    rows.length ≤ 2 ^ 32 ∧ ∀ row ∈ rows, row.Typed ∧ 0 ∉ row.name

section Fits

variable {answer : APIAnswer} {rows : List Row}

theorem APIAnswer.Typed.plainType (h : answer.Typed) : answer.PlainType := by
  cases answer with
  | error statusCode errorType message => exact (h.error _ _ _ rfl).2.1
  | insert insertedId => trivial
  | select usedIndex rows => trivial

/-- Texts that fit into a buffer together: the offset never passes its end. -/
theorem fits_apiAppendCalls {capacity offset : Nat} {texts : List (List UInt8)}
    (hsize : capacity < 2 ^ 64) (hfits : offset + texts.flatten.length < capacity)
    (hint : ∀ text ∈ texts, text.length < 2 ^ 31) :
    ∀ call ∈ apiAppendCalls capacity offset texts, call.Fits := by
  induction texts generalizing offset with
  | nil => nofun
  | cons text texts ih =>
    obtain ⟨htext, hint⟩ := List.forall_mem_cons.mp hint
    rw [List.flatten_cons, List.length_append] at hfits
    have hleft : (2 ^ 64 + capacity - offset) % 2 ^ 64 = capacity - offset := by
      rw [Nat.add_sub_assoc (by omega), Nat.add_mod_left, Nat.mod_eq_of_lt (by omega)]
    have hnext : (((offset : Int) + snprintfReturn text) % 2 ^ 64).toNat = offset + text.length := by
      rw [snprintfReturn, if_pos htext, Int.emod_eq_of_lt (by omega) (by omega)]
      omega
    intro call hcall
    rw [apiAppendCalls, hleft, hnext] at hcall
    rcases List.mem_cons.mp hcall with rfl | hcall
    · show text.length < capacity - offset
      omega
    · exact ih (by omega) hint call hcall

private theorem foldl_apiRowSpace {capacity : Nat}
    (hsize : capacity + (rows.map apiRowSpace).sum < 2 ^ 64) :
    rows.foldl (fun capacity row => (capacity + (row.name.length * 6 + 96)) % 2 ^ 64) capacity =
      capacity + (rows.map apiRowSpace).sum := by
  induction rows generalizing capacity with
  | nil => rfl
  | cons row rows ih =>
    rw [List.map_cons, List.sum_cons] at hsize ⊢
    rw [List.foldl_cons]
    change rows.foldl _ ((capacity + apiRowSpace row) % 2 ^ 64) = _
    rw [Nat.mod_eq_of_lt (by omega), ih (by omega), Nat.add_assoc]

/-- The sum for the capacity does not wrap around. -/
theorem apiRowsCapacity_eq (hcount : rows.length ≤ 2 ^ 32) (htyped : ∀ row ∈ rows, row.Typed) :
    apiRowsCapacity rows = 160 + (rows.map apiRowSpace).sum := by
  have hsum := sum_apiRowSpace_le htyped
  exact foldl_apiRowSpace (by omega)

private theorem length_apiRowText (htyped : ∀ row ∈ rows, row.Typed) (index : Nat) :
    ∀ text ∈ apiRowTexts index rows, text.length < 480 := by
  induction rows generalizing index with
  | nil => nofun
  | cons row rows ih =>
    obtain ⟨hrow, hrows⟩ := List.forall_mem_cons.mp htyped
    have hlength := length_apiSelectRow hrow index
    have hspace := apiRowSpace_le hrow
    intro text htext
    rcases List.mem_cons.mp htext with rfl | htext
    · omega
    · exact ih hrows (index + 1) text htext

/-- Every call that writes a body has room for its text. -/
theorem APIAnswer.Typed.fits (h : answer.Typed) : ∀ call ∈ answer.calls, call.Fits := by
  cases answer with
  | error statusCode errorType message =>
    obtain ⟨-, -, htype, -, hmessage⟩ := h.error _ _ _ rfl
    -- the only text of a client in an error is the message, which escaping makes six times longer
    -- at most
    have hescaped := length_apiEscape message
    intro call hcall
    obtain rfl := List.mem_singleton.mp hcall
    show (apiErrorText errorType (message.flatMap apiEscapeByte)).length < 2048
    have hfixed : (bytes "\x7b\"ok\":false,\"status\":\"").length = 22 ∧
        (bytes "\",\"error\":\"").length = 11 ∧ (bytes "\",\"message\":\"").length = 13 ∧
        (bytes "\"\x7d").length = 2 := by decide
    unfold apiErrorText
    simp only [List.length_append]
    omega
  | insert insertedId =>
    -- the fixed text and eleven digits are far below the 256 bytes of the buffer
    have hid := length_decimal_int (h.insert _ rfl)
    intro call hcall
    obtain rfl := List.mem_singleton.mp hcall
    show (apiInsertText insertedId).length < 256
    have hfixed :
        (bytes "\x7b\"ok\":true,\"status\":\"ok\",\"action\":\"insert\",\"insertedId\":").length = 56 ∧
          (bytes ",\"usedIndex\":false\x7d").length = 19 := by decide
    unfold apiInsertText
    simp only [List.length_append]
    omega
  | select usedIndex rows =>
    obtain ⟨hcount, hrows⟩ := h.select _ _ rfl
    have htyped : ∀ row ∈ rows, row.Typed := fun row hrow => (hrows row hrow).1
    -- the buffer was sized for the head, the rows and the tail together, so the whole text fits
    have hhead := length_apiSelectHead (by omega : rows.length < 10 ^ 20) usedIndex
    have htexts := length_apiRowTexts htyped 0
    have hsum := sum_apiRowSpace_le htyped
    have hcapacity := apiRowsCapacity_eq hcount htyped
    have htail : (bytes "]\x7d").length = 2 := rfl
    refine fits_apiAppendCalls (by omega) ?_ ?_
    · rw [apiSelectTexts, List.flatten_cons, List.flatten_append, List.flatten_singleton,
        List.length_append, List.length_append]
      omega
    · intro text htext
      rcases List.mem_cons.mp htext with rfl | htext
      · omega
      · rcases List.mem_append.mp htext with htext | htext
        · have := length_apiRowText htyped 0 text htext
          omega
        · rw [List.mem_singleton.mp htext]
          omega

private theorem zero_notMem_decimal (n : Int) : 0 ∉ decimal n := notMem_decimal (by decide) n

private theorem zero_notMem_apiSelectHead (rowCount : Nat) (usedIndex : Bool) :
    0 ∉ apiSelectHead rowCount usedIndex := by
  have hindex : 0 ∉ bytes (if usedIndex then "true" else "false") := by
    cases usedIndex <;> decide
  have hfixed :
      0 ∉ bytes "\x7b\"ok\":true,\"status\":\"ok\",\"action\":\"select\",\"rowCount\":" ∧
      0 ∉ bytes ",\"usedIndex\":" ∧ 0 ∉ bytes ",\"rows\":[" := by decide
  unfold apiSelectHead
  simp only [List.mem_append, not_or]
  exact ⟨⟨⟨⟨hfixed.1, zero_notMem_decimal _⟩, hfixed.2.1⟩, hindex⟩, hfixed.2.2⟩

private theorem zero_notMem_apiRowTexts (hnames : ∀ row ∈ rows, 0 ∉ row.name) (index : Nat) :
    ∀ text ∈ apiRowTexts index rows, 0 ∉ text := by
  induction rows generalizing index with
  | nil => nofun
  | cons row rows ih =>
    obtain ⟨hname, hnames⟩ := List.forall_mem_cons.mp hnames
    have hcomma : 0 ∉ bytes (if index = 0 then "" else ",") := by split <;> decide
    have hfixed : 0 ∉ bytes "\x7b\"id\":" ∧ 0 ∉ bytes ",\"name\":\"" ∧
        0 ∉ bytes "\",\"age\":" ∧ 0 ∉ bytes "\x7d" := by decide
    intro text htext
    rcases List.mem_cons.mp htext with rfl | htext
    · unfold apiSelectRow
      simp only [List.mem_append, not_or]
      exact ⟨⟨⟨⟨⟨⟨⟨hcomma, hfixed.1⟩, zero_notMem_decimal _⟩, hfixed.2.1⟩,
        zero_notMem_apiEscape hname⟩, hfixed.2.2.1⟩, zero_notMem_decimal _⟩, hfixed.2.2.2⟩
    · exact ih hnames (index + 1) text htext

/-- There is no terminator in a body. -/
theorem APIAnswer.Typed.zero_notMem_text (h : answer.Typed) : 0 ∉ answer.text := by
  cases answer with
  | error statusCode errorType message =>
    obtain ⟨-, hplain, -, hmessage, -⟩ := h.error _ _ _ rfl
    -- the error type is one of the fixed words, and the escaped message holds no raw control byte
    have htype : 0 ∉ errorType := fun hzero => absurd (hplain 0 hzero).1 (by decide)
    have hescaped := zero_notMem_apiEscape hmessage
    have hfixed : 0 ∉ bytes "\x7b\"ok\":false,\"status\":\"" ∧ 0 ∉ bytes "\",\"error\":\"" ∧
        0 ∉ bytes "\",\"message\":\"" ∧ 0 ∉ bytes "\"\x7d" := by decide
    change 0 ∉ apiErrorText errorType (message.flatMap apiEscapeByte) ++ []
    unfold apiErrorText
    simp only [List.append_nil, List.mem_append, not_or]
    exact ⟨⟨⟨⟨⟨⟨hfixed.1, htype⟩, hfixed.2.1⟩, htype⟩, hfixed.2.2.1⟩, hescaped⟩, hfixed.2.2.2⟩
  | insert insertedId =>
    have hfixed : 0 ∉ bytes "\x7b\"ok\":true,\"status\":\"ok\",\"action\":\"insert\",\"insertedId\":" ∧
        0 ∉ bytes ",\"usedIndex\":false\x7d" := by decide
    change 0 ∉ apiInsertText insertedId ++ []
    unfold apiInsertText
    simp only [List.append_nil, List.mem_append, not_or]
    exact ⟨⟨hfixed.1, zero_notMem_decimal _⟩, hfixed.2⟩
  | select usedIndex rows =>
    obtain ⟨-, hrows⟩ := h.select _ _ rfl
    have hhead := zero_notMem_apiSelectHead rows.length usedIndex
    have hrow := zero_notMem_apiRowTexts (fun row hrow => (hrows row hrow).2) 0
    rw [APIAnswer.text_select]
    -- a zero byte would stand in the head, in the text of a row or in the tail
    intro hzero
    obtain ⟨text, htext, hmem⟩ := List.mem_flatten.mp hzero
    rcases List.mem_cons.mp htext with rfl | htext
    · exact hhead hmem
    · rcases List.mem_append.mp htext with htext | htext
      · exact hrow text htext hmem
      · rw [List.mem_singleton.mp htext] at hmem
        revert hmem
        decide

end Fits

/-! ## The response -/

/-- The response that tells an answer. -/
def APIAnswer.response (answer : APIAnswer) : APIResponse :=
  ⟨answer.statusCode, apiContentType, answer.text⟩

section Response

variable {m : Memory}

theorem run_error (hok : m.NoFailure) {statusCode : Int} {errorType message : List UInt8}
    (h : (APIAnswer.error statusCode errorType (cstr message)).Typed) :
    (apiBuildErrorResponse statusCode errorType message).run m =
      some (some (APIAnswer.error statusCode errorType (cstr message)).response, m) := by
  have hfits := h.fits _ (List.mem_singleton_self _)
  rw [run_apiBuildErrorResponse hok, apiErrorResponse, apiErrorBody, snprintf_of_fits hfits]
  change _ = some (some (⟨statusCode, apiContentType, _ ++ []⟩ : APIResponse), m)
  rw [List.append_nil]

/-- The answer to an execution is what it has to say. -/
theorem run_apiBuildExecutionResponse (hok : m.NoFailure) {execution : DBServerExecution}
    {rows : List Row} (htyped : (apiExecutionAnswer rows execution).Typed)
    (hselect : ∀ usedIndex rows', apiExecutionAnswer rows execution = .select usedIndex rows' →
      (apiBuildSelectResponse execution).run m = some (some (apiSelectResponse usedIndex rows'), m)) :
    (apiBuildExecutionResponse execution).run m =
      some (some (apiExecutionAnswer rows execution).response, m) := by
  have hfixed (s : String) (hs : 0 ∉ bytes s) : cstr (bytes s) = bytes s := cstr_eq_self hs
  unfold apiBuildExecutionResponse
  unfold apiExecutionAnswer at htyped hselect ⊢
  by_cases hserver : execution.serverStatus = .lockTimeout
  · rw [if_pos hserver] at htyped hselect ⊢
    rw [if_pos hserver]
    exact run_error hok htyped
  · rw [if_neg hserver] at htyped hselect ⊢
    rw [if_neg hserver]
    cases hstatus : execution.result.status with
    | syntaxError =>
      rw [hstatus] at htyped
      exact run_error hok htyped
    | queryError =>
      rw [hstatus] at htyped
      exact run_error hok htyped
    | error =>
      rw [hstatus] at htyped
      dsimp only at htyped ⊢
      -- the default text takes the place of an empty message
      have hmessage : (if execution.result.errorMessage = [] then bytes "Internal execution error"
          else cstr execution.result.errorMessage) =
          cstr (if execution.result.errorMessage = [] then bytes "Internal execution error"
            else execution.result.errorMessage) := by
        split
        · exact (hfixed _ (by decide)).symm
        · rfl
      rw [hmessage] at htyped ⊢
      exact run_error hok htyped
    | exit =>
      rw [hstatus] at htyped
      dsimp only at htyped ⊢
      rw [← hfixed "EXIT and QUIT are only supported in CLI mode" (by decide)] at htyped
      rw [run_error hok htyped, hfixed _ (by decide)]
    | ok | notFound =>
      rw [hstatus] at htyped hselect
      dsimp only at htyped hselect ⊢
      cases haction : execution.result.action with
      | insert =>
        rw [haction] at htyped
        have hfits := htyped.fits _ (List.mem_singleton_self _)
        dsimp only
        rw [run_apiSetResponseBody hok, apiInsertBody, snprintf_of_fits hfits]
        change _ = some (some (⟨200, apiContentType, _ ++ []⟩ : APIResponse), m)
        rw [List.append_nil]
      | selectRows =>
        rw [haction] at hselect
        dsimp only at hselect ⊢
        rw [hselect _ _ rfl, apiSelectResponse, ← APIAnswer.text_select]
        rfl
      | none =>
        rw [haction] at htyped
        dsimp only at htyped ⊢
        rw [← hfixed "Unsupported execution result" (by decide)] at htyped
        rw [run_error hok htyped, hfixed _ (by decide)]

end Response

end SqlApi.Server

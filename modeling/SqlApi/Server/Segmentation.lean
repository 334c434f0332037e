import SqlApi.Server.FirstLength

/-!
# A request in segments

TCP may cut a stream anywhere. What `http_server_read_request` answers depends on the bytes
that fit into its buffer, and on where they were cut only through the content length: it is
read once, when the end of the header section arrives, and the number may be behind that.

## How the proof goes

`httpServerReadSteps` is the loop of the reader with all that it ends with (`ReadEnd`). Whatever the
cutting, the loop has stored a prefix of the stream, and has computed the length from what had
arrived at that moment (`Ends`). Two cuttings can only differ in that length.
-/

namespace SqlApi.Server

open SqlApi.Lib SqlApi.Core

/-- What `recv` may answer while a stream arrives: non-empty pieces, each as long as there is
room for at most, then the end of the stream. When the buffer is full, `recv` is not called. -/
inductive Arrives (size : Nat) : (stored : Nat) → (stream : List UInt8) → List RecvResult → Prop
  | closed (stored : Nat) : Arrives size stored [] [.closed]
  | data {stored : Nat} {chunk stream : List UInt8} {recvs : List RecvResult}
      (hne : chunk ≠ []) (hroom : chunk.length ≤ size - stored - 1)
      (h : Arrives size (stored + chunk.length) stream recvs) :
      Arrives size stored (chunk ++ stream) (.data chunk :: recvs)
  | full {stored : Nat} (stream : List UInt8) (hfull : size ≤ stored + 1) :
      Arrives size stored stream []

/-- Where `http_server_read_request` ends: what is in the buffer before the terminator,
`expected_total` once it is set, and the message, unless it returns 1. -/
structure ReadEnd where
  buffer : List UInt8
  expectedTotal : Option Nat
  message : Option (List UInt8)

/-- What is left of that for the caller. -/
def ReadEnd.result (e : ReadEnd) : Except (List UInt8) (List UInt8) :=
  match e.message with
  | none => .ok e.buffer
  | some message => .error message

/-- The loop of `http_server_read_request` with all that it leaves behind. -/
def httpServerReadSteps (bufferSize : Nat) : List RecvResult → (buffer : List UInt8) →
    (expectedTotal : Option Nat) → Option ReadEnd
  | recvs, buffer, expectedTotal =>
    if buffer.length + 1 < bufferSize then
      match recvs with
      | [] => none
      | .error :: _ =>
        some ⟨buffer, expectedTotal, some (snprintf 256 (bytes "Failed to read from socket"))⟩
      -- the peer has closed
      | .closed :: _ =>
        some ⟨buffer, expectedTotal, some (httpServerIncomplete expectedTotal.isSome)⟩
      | .data chunk :: recvs =>
        if chunk = [] ∨ bufferSize - buffer.length - 1 < chunk.length then none
        else
          let buffer := buffer ++ chunk
          match expectedTotal with
          | some expected =>
            if expected ≤ buffer.length then some ⟨buffer, some expected, none⟩
            else httpServerReadSteps bufferSize recvs buffer (some expected)
          | none =>
            match strstr buffer crlfCrlf with
            | none => httpServerReadSteps bufferSize recvs buffer none
            -- the head has ended, and the length is computed once
            | some headerEnd =>
              let expected := httpServerExpectedTotal headerEnd buffer
              if bufferSize < (expected + 1) % 2 ^ 64 then
                some ⟨buffer, some expected,
                  some (snprintf 256 (bytes "HTTP request exceeds buffer limit"))⟩
              else if expected ≤ buffer.length then some ⟨buffer, some expected, none⟩
              else httpServerReadSteps bufferSize recvs buffer (some expected)
    else some ⟨buffer, expectedTotal, some (httpServerIncomplete expectedTotal.isSome)⟩

/-- The same answer: return value, message, `expected_total`, and that many bytes. -/
def SameRequest (a b : ReadEnd) : Prop :=
  a.message = b.message ∧ (a.message = none → ∃ expected,
    a.expectedTotal = some expected ∧ b.expectedTotal = some expected ∧
      expected ≤ a.buffer.length ∧ expected ≤ b.buffer.length ∧
      a.buffer.take expected = b.buffer.take expected)

/-- The message of a request of which `available` bytes fit into the buffer, when
`expected_total` is `expected`. -/
def readMessage (size available expected : Nat) : Option (List UInt8) :=
  if size < (expected + 1) % 2 ^ 64 then
    some (snprintf 256 (bytes "HTTP request exceeds buffer limit"))
  else if expected ≤ available then none
  else some (httpServerIncomplete true)

section Segmentation

variable {size stored : Nat} {stream buffer total : List UInt8} {recvs : List RecvResult}

/-- The loop is the one of the model. -/
theorem httpServerReadLoop_eq (expectedTotal : Option Nat) :
    httpServerReadLoop size recvs buffer expectedTotal =
      (httpServerReadSteps size recvs buffer expectedTotal).map ReadEnd.result := by
  -- the two loops take the same branches; only what they return differs
  induction recvs generalizing buffer expectedTotal with
  | nil =>
    unfold httpServerReadLoop httpServerReadSteps
    split <;> rfl
  | cons answer recvs ih =>
    unfold httpServerReadLoop httpServerReadSteps
    split
    case isFalse => rfl
    case isTrue =>
      cases answer with
      | error => rfl
      | closed => rfl
      | data chunk =>
        dsimp only
        split
        · rfl
        · cases expectedTotal with
          | some expected =>
            dsimp only
            split
            · rfl
            · exact ih _
          | none =>
            cases strstr (buffer ++ chunk) crlfCrlf with
            | none => exact ih _
            | some headerEnd =>
              dsimp only
              split
              · rfl
              · split
                · rfl
                · exact ih _

/-- Every stream can arrive. -/
theorem Arrives.exists (size stored : Nat) (stream : List UInt8) :
    ∃ recvs, Arrives size stored stream recvs := by
  by_cases hfull : size ≤ stored + 1
  · exact ⟨[], .full stream hfull⟩
  cases stream with
  | nil => exact ⟨[.closed], .closed stored⟩
  | cons c stream =>
    -- as much at once as there is room for
    have hone : ((c :: stream).take (size - stored - 1)).length ≤ size - stored - 1 :=
      List.length_take_le ..
    have hne : (c :: stream).take (size - stored - 1) ≠ [] := by
      refine List.ne_nil_of_length_pos ?_
      rw [List.length_take, List.length_cons]
      omega
    have hrest : ∃ recvs, Arrives size
        (stored + ((c :: stream).take (size - stored - 1)).length)
        ((c :: stream).drop (size - stored - 1)) recvs := by
      by_cases hlong : size - stored - 1 ≤ (c :: stream).length
      · refine ⟨[], .full _ ?_⟩
        rw [List.length_take, min_eq_left hlong]
        omega
      · rw [List.drop_eq_nil_of_le (by omega)]
        exact ⟨[.closed], .closed _⟩
    obtain ⟨recvs, hrecvs⟩ := hrest
    have h := Arrives.data hne hone hrecvs
    rw [List.take_append_drop] at h
    exact ⟨_, h⟩

/-- One answer, the headers being there. -/
private theorem readSteps_expected {chunk : List UInt8} (hne : chunk ≠ [])
    (hroom : chunk.length ≤ size - buffer.length - 1) (expected : Nat) :
    httpServerReadSteps size (.data chunk :: recvs) buffer (some expected) =
      if expected ≤ (buffer ++ chunk).length then some ⟨buffer ++ chunk, some expected, none⟩
      else httpServerReadSteps size recvs (buffer ++ chunk) (some expected) := by
  have hpos := List.length_pos_of_ne_nil hne
  rw [httpServerReadSteps, if_pos (by omega)]
  dsimp only
  rw [if_neg (by rw [not_or]; exact ⟨hne, not_lt.mpr hroom⟩)]

/-- One answer before that. -/
private theorem readSteps_none {chunk : List UInt8} (hne : chunk ≠ [])
    (hroom : chunk.length ≤ size - buffer.length - 1) :
    httpServerReadSteps size (.data chunk :: recvs) buffer none =
      match strstr (buffer ++ chunk) crlfCrlf with
      | none => httpServerReadSteps size recvs (buffer ++ chunk) none
      | some headerEnd =>
        if size < (httpServerExpectedTotal headerEnd (buffer ++ chunk) + 1) % 2 ^ 64 then
          some ⟨buffer ++ chunk, some (httpServerExpectedTotal headerEnd (buffer ++ chunk)),
            some (snprintf 256 (bytes "HTTP request exceeds buffer limit"))⟩
        else if httpServerExpectedTotal headerEnd (buffer ++ chunk) ≤ (buffer ++ chunk).length then
          some ⟨buffer ++ chunk, some (httpServerExpectedTotal headerEnd (buffer ++ chunk)), none⟩
        else httpServerReadSteps size recvs (buffer ++ chunk)
          (some (httpServerExpectedTotal headerEnd (buffer ++ chunk))) := by
  have hpos := List.length_pos_of_ne_nil hne
  rw [httpServerReadSteps, if_pos (by omega)]
  dsimp only
  rw [if_neg (by rw [not_or]; exact ⟨hne, not_lt.mpr hroom⟩)]

/-- `expected_total` is set once. -/
private theorem readSteps_latched {expected : Nat} {e : ReadEnd}
    (h : httpServerReadSteps size recvs buffer (some expected) = some e) :
    e.expectedTotal = some expected := by
  -- the induction is on the answers: once set, the expected length is never computed again
  induction recvs generalizing buffer with
  | nil =>
    unfold httpServerReadSteps at h
    split at h
    · cases h
    · obtain rfl := Option.some.inj h
      rfl
  | cons answer recvs ih =>
    unfold httpServerReadSteps at h
    split at h
    case isFalse =>
      obtain rfl := Option.some.inj h
      rfl
    case isTrue =>
      cases answer with
      | error => obtain rfl := Option.some.inj h; rfl
      | closed => obtain rfl := Option.some.inj h; rfl
      | data chunk =>
        dsimp only at h
        split at h
        · cases h
        · split at h
          · obtain rfl := Option.some.inj h
            rfl
          · exact ih h

/-- A stream of which a part is in the buffer while the rest still arrives. -/
private structure Buffered (size stored : Nat) (stream buffer total : List UInt8) : Prop where
  length : buffer.length = stored
  room : buffer.length < size
  total : buffer ++ stream = total

section Buffered

/-- What is in the buffer stays at the front. -/
private theorem Buffered.prefix (h : Buffered size stored stream buffer total) :
    buffer <+: total.take (size - 1) := by
  have hroom := h.room
  rw [← h.total, List.prefix_take_iff]
  exact ⟨List.prefix_append .., by omega⟩

private theorem Buffered.data {chunk : List UInt8}
    (h : Buffered size stored (chunk ++ stream) buffer total) (hne : chunk ≠ [])
    (hchunk : chunk.length ≤ size - stored - 1) :
    Buffered size (stored + chunk.length) stream (buffer ++ chunk) total := by
  obtain ⟨hlength, hroom, htotal⟩ := h
  have hpos := List.length_pos_of_ne_nil hne
  refine ⟨?_, ?_, by simpa using htotal⟩
  · rw [List.length_append, hlength]
  · rw [List.length_append]
    omega

/-- The stream has ended. -/
private theorem Buffered.closed (h : Buffered size stored [] buffer total) :
    total.take (size - 1) = buffer := by
  obtain ⟨-, hroom, htotal⟩ := h
  rw [← htotal, List.append_nil]
  exact List.take_of_length_le (by omega)

/-- The buffer is full. -/
private theorem Buffered.full (h : Buffered size stored stream buffer total)
    (hfull : size ≤ stored + 1) : total.take (size - 1) = buffer := by
  obtain ⟨hlength, hroom, htotal⟩ := h
  rw [← htotal]
  exact List.take_left' (by omega)

end Buffered

/-- The end of a run whose headers are there: what fits into the buffer decides. -/
private theorem Arrives.run_expected (h : Arrives size stored stream recvs)
    (hbuffer : Buffered size stored stream buffer total) {expected : Nat}
    (hwait : buffer.length < expected) :
    ∃ e, httpServerReadSteps size recvs buffer (some expected) = some e ∧
      e.buffer <+: total.take (size - 1) ∧ e.expectedTotal = some expected ∧
      e.message = (if expected ≤ (total.take (size - 1)).length then none
        else some (httpServerIncomplete true)) ∧
      (e.message = none → expected ≤ e.buffer.length) := by
  induction h generalizing buffer with
  | closed stored =>
    -- the end of the stream comes too early
    rw [hbuffer.closed, if_neg (by omega)]
    refine ⟨⟨buffer, some expected, some (httpServerIncomplete true)⟩, ?_, List.prefix_refl _,
      rfl, rfl, fun hnone => by cases hnone⟩
    unfold httpServerReadSteps
    split <;> rfl
  | full stream hfull =>
    -- the buffer is full too early
    have hlength := hbuffer.length
    rw [hbuffer.full hfull, if_neg (by omega)]
    refine ⟨⟨buffer, some expected, some (httpServerIncomplete true)⟩, ?_, List.prefix_refl _,
      rfl, rfl, fun hnone => by cases hnone⟩
    rw [httpServerReadSteps, if_neg (by omega)]
    rfl
  | @data stored chunk stream recvs hne hchunk _ ih =>
    have hnext := hbuffer.data hne hchunk
    rw [readSteps_expected hne (hbuffer.length ▸ hchunk)]
    by_cases hdone : expected ≤ (buffer ++ chunk).length
    · have hle := hnext.prefix.length_le
      rw [if_pos hdone]
      refine ⟨_, rfl, hnext.prefix, rfl, ?_, fun _ => hdone⟩
      rw [if_pos (hdone.trans hle)]
    · rw [if_neg hdone]
      exact ih hnext (not_le.mp hdone)

/-- How a run ends on the bytes that fit into the buffer. -/
structure Ends (size : Nat) (available : List UInt8) (e : ReadEnd) : Prop where
  stored : e.buffer <+: available
  -- without an end of the head, everything was read
  headers : strstr available crlfCrlf = none →
    e.expectedTotal = none ∧ e.message = some (httpServerIncomplete false)
  -- with one, the length was computed from the bytes that had arrived by then
  body : ∀ headerEnd, strstr available crlfCrlf = some headerEnd → ∃ arrived,
    available.take (headerEnd + 4) <+: arrived ∧ arrived <+: available ∧
      e.expectedTotal = some (httpServerExpectedTotal headerEnd arrived) ∧
      e.message = readMessage size available.length (httpServerExpectedTotal headerEnd arrived) ∧
      (e.message = none → httpServerExpectedTotal headerEnd arrived ≤ e.buffer.length)

/-- A run that stops before the header section has ended. -/
private theorem ends_incomplete (hnone : strstr buffer crlfCrlf = none) :
    Ends size buffer ⟨buffer, none, some (httpServerIncomplete false)⟩ := by
  refine ⟨List.prefix_refl _, fun _ => ⟨rfl, rfl⟩, fun headerEnd hsome => ?_⟩
  rw [hnone] at hsome
  cases hsome

/-- A run that goes on from a header section: nothing that comes later moves its end. -/
private theorem ends_of_headers {available arrived : List UInt8} {headerEnd : Nat} {e : ReadEnd}
    (harrived : arrived <+: available) (hend : strstr arrived crlfCrlf = some headerEnd)
    (hstored : e.buffer <+: available)
    (hexpected : e.expectedTotal = some (httpServerExpectedTotal headerEnd arrived))
    (hmessage : e.message =
      readMessage size available.length (httpServerExpectedTotal headerEnd arrived))
    (hdone : e.message = none → httpServerExpectedTotal headerEnd arrived ≤ e.buffer.length) :
    Ends size available e := by
  have hsectionLength := strstr_le hend
  have hprefix := harrived
  obtain ⟨behind, rfl⟩ := harrived
  have hsame : strstr (arrived ++ behind) crlfCrlf = some headerEnd := strstr_append hend behind
  have hsection : (arrived ++ behind).take (headerEnd + 4) <+: arrived := by
    rw [List.take_append_of_le_length (by simpa using hsectionLength)]
    exact List.take_prefix ..
  refine ⟨hstored, fun hmissing => ?_, fun headerEnd' hsame' => ?_⟩
  · rw [hsame] at hmissing
    cases hmissing
  · obtain rfl := Option.some.inj (hsame.symm.trans hsame')
    exact ⟨_, hsection, hprefix, hexpected, hmessage, hdone⟩

/-- Every run ends, with what fits into the buffer. -/
private theorem Arrives.run (h : Arrives size stored stream recvs)
    (hbuffer : Buffered size stored stream buffer total)
    (hnone : strstr buffer crlfCrlf = none) :
    ∃ e, httpServerReadSteps size recvs buffer none = some e ∧ Ends size (total.take (size - 1)) e := by
  induction h generalizing buffer with
  | closed stored =>
    rw [hbuffer.closed]
    refine ⟨_, ?_, ends_incomplete hnone⟩
    unfold httpServerReadSteps
    split <;> rfl
  | full stream hfull =>
    have hlength := hbuffer.length
    rw [hbuffer.full hfull]
    refine ⟨_, ?_, ends_incomplete hnone⟩
    rw [httpServerReadSteps, if_neg (by omega)]
    rfl
  | @data stored chunk stream recvs hne hchunk hrest ih =>
    have hnext := hbuffer.data hne hchunk
    rw [readSteps_none hne (hbuffer.length ▸ hchunk)]
    cases hend : strstr (buffer ++ chunk) crlfCrlf with
    -- no terminator yet: nothing has been decided
    | none => exact ih hnext hend
    | some headerEnd =>
      dsimp only
      have hle := hnext.prefix.length_le
      split
      · next htoo =>
        refine ⟨_, rfl, ends_of_headers hnext.prefix hend hnext.prefix rfl ?_ nofun⟩
        rw [readMessage, if_pos htoo]
      · next hsize =>
        split
        · next hdone =>
          refine ⟨_, rfl, ends_of_headers hnext.prefix hend hnext.prefix rfl ?_ fun _ => hdone⟩
          rw [readMessage, if_neg hsize, if_pos (hdone.trans hle)]
        · next hwait =>
          -- the headers are there: from here the total is known
          obtain ⟨e, he, hstart, hexpected, hmessage, hdone⟩ :=
            hrest.run_expected hnext (not_le.mp hwait)
          refine ⟨e, he, ends_of_headers hnext.prefix hend hstart hexpected ?_ hdone⟩
          rw [readMessage, if_neg hsize]
          exact hmessage

/-- Runs that end on the same bytes with the same `expected_total` are alike. -/
private theorem sameRequest_of_ends {available : List UInt8} {a b : ReadEnd}
    (ha : Ends size available a) (hb : Ends size available b)
    (hsame : ∀ headerEnd arrived, strstr available crlfCrlf = some headerEnd →
      available.take (headerEnd + 4) <+: arrived → arrived <+: available →
        httpServerExpectedTotal headerEnd arrived =
          httpServerExpectedTotal headerEnd (available.take (headerEnd + 4))) :
    SameRequest a b := by
  cases hend : strstr available crlfCrlf with
  | none =>
    obtain ⟨-, hmessage⟩ := ha.headers hend
    refine ⟨hmessage.trans (hb.headers hend).2.symm, fun hnone => ?_⟩
    rw [hmessage] at hnone
    cases hnone
  | some headerEnd =>
    obtain ⟨arrived, hsection, harrived, hexpected, hmessage, hdone⟩ := ha.body headerEnd hend
    obtain ⟨arrived', hsection', harrived', hexpected', hmessage', hdone'⟩ :=
      hb.body headerEnd hend
    rw [hsame headerEnd arrived hend hsection harrived] at hexpected hmessage hdone
    rw [hsame headerEnd arrived' hend hsection' harrived'] at hexpected' hmessage' hdone'
    refine ⟨hmessage.trans hmessage'.symm, fun hnone => ⟨_, hexpected, hexpected', hdone hnone,
      hdone' (hmessage'.trans (hmessage.symm.trans hnone)), ?_⟩⟩
    -- both buffers start with the first bytes of what fits
    have htake {e : ReadEnd} {expected : Nat} (hstart : e.buffer <+: available)
        (hle : expected ≤ e.buffer.length) :
        e.buffer.take expected = available.take expected := by
      obtain ⟨behind, hbehind⟩ := hstart
      rw [← hbehind, List.take_append_of_le_length hle]
    rw [htake ha.stored (hdone hnone),
      htake hb.stored (hdone' (hmessage'.trans (hmessage.symm.trans hnone)))]

/-- The first answer brings the header section: `expected_total` is that of what it brings. -/
private theorem readSteps_first {chunk : List UInt8} {headerEnd : Nat} {e : ReadEnd}
    (hne : chunk ≠ []) (hroom : chunk.length ≤ size - 1)
    (hend : strstr chunk crlfCrlf = some headerEnd)
    (h : httpServerReadSteps size (.data chunk :: recvs) [] none = some e) :
    e.expectedTotal = some (httpServerExpectedTotal headerEnd chunk) := by
  rw [readSteps_none hne hroom, List.nil_append, hend] at h
  dsimp only at h
  split at h
  · obtain rfl := Option.some.inj h
    rfl
  · split at h
    · obtain rfl := Option.some.inj h
      rfl
    · exact readSteps_latched h

/-- When the content length runs on into the body, it matters whether the body is there. -/
private theorem exists_notSame_of_runsOn {head body : List UInt8} (hmax : size ≤ 2 ^ 31)
    (havailable : stream.take (size - 1) = head ++ crlfCrlf ++ body)
    (hend : strstr (head ++ crlfCrlf) crlfCrlf = some head.length) (h : LengthRunsOn head body) :
    ∃ recvs recvs' e e', Arrives size 0 stream recvs ∧ Arrives size 0 stream recvs' ∧
      httpServerReadSteps size recvs [] none = some e ∧
      httpServerReadSteps size recvs' [] none = some e' ∧ ¬ SameRequest e e' := by
  obtain ⟨hzero, hnumber⟩ := httpServerParseContentLength_of_runsOn hend h
  have hnonzero : (strtoul body).1 ≠ 0 := by
    obtain ⟨value, -, -, hne⟩ := h
    exact hne
  have hlt := strtoul_lt body
  have hlength := congrArg List.length havailable
  simp only [List.length_append, List.length_take, List.length_cons, List.length_nil] at hlength
  -- the header section first, or all that there is room for
  have hsplit : stream = (head ++ crlfCrlf) ++ (body ++ stream.drop (size - 1)) := by
    rw [← List.append_assoc, ← havailable, List.take_append_drop]
  have hsplit' : stream = stream.take (size - 1) ++ stream.drop (size - 1) :=
    (List.take_append_drop ..).symm
  have hsection : (head ++ crlfCrlf).length = head.length + 4 := by simp
  obtain ⟨recvs, hrecvs⟩ := Arrives.exists size (0 + (head ++ crlfCrlf).length)
    (body ++ stream.drop (size - 1))
  obtain ⟨recvs', hrecvs'⟩ := Arrives.exists size (0 + (stream.take (size - 1)).length)
    (stream.drop (size - 1))
  have hne : head ++ crlfCrlf ≠ [] := by simp
  have hne' : stream.take (size - 1) ≠ [] := by
    rw [havailable]
    simp
  have hroom : (head ++ crlfCrlf).length ≤ size - 0 - 1 := by omega
  have hroom' : (stream.take (size - 1)).length ≤ size - 0 - 1 := List.length_take_le ..
  have hcut := Arrives.data hne hroom hrecvs
  have hcut' := Arrives.data hne' hroom' hrecvs'
  rw [← hsplit] at hcut
  rw [← hsplit'] at hcut'
  obtain ⟨e', he', -⟩ := hcut'.run ⟨rfl, by rw [List.length_nil]; omega, rfl⟩ rfl
  have hend' : strstr (stream.take (size - 1)) crlfCrlf = some head.length := by
    rw [havailable]
    exact strstr_append hend body
  have hlatched := readSteps_first hne' hroom' hend' he'
  have hfirst : httpServerReadSteps size (.data (head ++ crlfCrlf) :: recvs) [] none =
      some ⟨head ++ crlfCrlf, some (head.length + 4), none⟩ := by
    have hexpected : httpServerExpectedTotal head.length (head ++ crlfCrlf) = head.length + 4 := by
      rw [httpServerExpectedTotal, hzero, Nat.add_zero, Nat.mod_eq_of_lt (by omega)]
    have hsmall : ¬ size < (head.length + 4 + 1) % 2 ^ 64 := by
      rw [Nat.mod_eq_of_lt (by omega)]
      omega
    rw [readSteps_none hne hroom, List.nil_append, hend]
    dsimp only
    rw [hexpected, if_neg hsmall, if_pos hsection.ge]
  refine ⟨_, _, _, e', hcut, hcut', hfirst, he', ?_⟩
  rintro ⟨-, hagree⟩
  obtain ⟨expected, hmine, hother, -⟩ := hagree rfl
  obtain rfl := Option.some.inj hmine
  have hboth := Option.some.inj (hlatched.symm.trans hother)
  rw [httpServerExpectedTotal, havailable, hnumber] at hboth
  omega

/-- The terminator that ends the header section of a text ends it there. -/
private theorem strstr_section {available head body : List UInt8}
    (havailable : available = head ++ crlfCrlf ++ body)
    (hend : strstr available crlfCrlf = some head.length) :
    strstr (head ++ crlfCrlf) crlfCrlf = some head.length := by
  have hclear : 0 ∉ head ++ crlfCrlf := by
    have hstart := (strstr_split hend).1
    rw [havailable, List.append_assoc, List.take_left] at hstart
    simp [hstart]
  rw [havailable] at hend
  exact strstr_of_append hclear hend (by simp)

/-- When no content length runs on into the body, what has arrived of the body when the header
section ends does not matter. -/
private theorem expectedTotal_of_not_runsOn {available arrived : List UInt8} {headerEnd : Nat}
    (hnot : ∀ head body, available = head ++ crlfCrlf ++ body →
      strstr available crlfCrlf = some head.length → ¬ LengthRunsOn head body)
    (hend : strstr available crlfCrlf = some headerEnd)
    (hstart : available.take (headerEnd + 4) <+: arrived) (harrived : arrived <+: available) :
    httpServerExpectedTotal headerEnd arrived =
      httpServerExpectedTotal headerEnd (available.take (headerEnd + 4)) := by
  obtain ⟨-, body, hsplit⟩ := strstr_split hend
  have hlong := strstr_le hend
  generalize hhead : available.take headerEnd = head at hsplit
  have hlength : head.length = headerEnd := by
    rw [← hhead, List.length_take, min_eq_left (by omega)]
  subst hlength
  rw [← List.append_assoc] at hsplit
  have htake : available.take (head.length + 4) = head ++ crlfCrlf := by
    rw [hsplit]
    exact List.take_left' (by simp)
  rw [htake] at hstart ⊢
  obtain ⟨more, rfl⟩ := hstart
  obtain ⟨rest, hrest⟩ := harrived
  have hbody : more ++ rest = body := by
    rw [hsplit, List.append_assoc (head ++ crlfCrlf)] at hrest
    exact List.append_cancel_left hrest
  -- the number is the same with all of the body and with none of it
  have hruns := hnot head body hsplit hend
  rw [← hbody] at hruns
  rw [httpServerExpectedTotal, httpServerExpectedTotal,
    httpServerParseContentLength_of_not_runsOn (strstr_section hsplit hend) hruns]

/-- Every run ends, with what fits into the buffer and a terminator; and the request that is
read does not depend on how the stream is cut if and only if the first content length, should
it be blank, does not run on into a number other than zero at the start of the body. -/
theorem httpServerReadSteps_cut_iff (hsize : 0 < size) (hmax : size ≤ 2 ^ 31)
    (stream : List UInt8) :
    (∀ recvs, Arrives size 0 stream recvs → ∃ e,
      httpServerReadSteps size recvs [] none = some e ∧
        httpServerReadLoop size recvs [] none = some e.result ∧ e.buffer.length + 1 ≤ size) ∧
    ((∀ recvs recvs' e e', Arrives size 0 stream recvs → Arrives size 0 stream recvs' →
      httpServerReadSteps size recvs [] none = some e →
      httpServerReadSteps size recvs' [] none = some e' → SameRequest e e') ↔
    ∀ head body, stream.take (size - 1) = head ++ crlfCrlf ++ body →
      strstr (stream.take (size - 1)) crlfCrlf = some head.length → ¬ LengthRunsOn head body) := by
  have hrun (recvs : List RecvResult) (h : Arrives size 0 stream recvs) :
      ∃ e, httpServerReadSteps size recvs [] none = some e ∧
        Ends size (stream.take (size - 1)) e := h.run ⟨rfl, hsize, rfl⟩ rfl
  refine ⟨fun recvs h => ?_, ⟨fun hall head body havailable hend hruns => ?_, fun hnot => ?_⟩⟩
  · obtain ⟨e, he, hends⟩ := hrun recvs h
    refine ⟨e, he, ?_, ?_⟩
    · rw [httpServerReadLoop_eq, he]
      rfl
    · have hle := hends.stored.length_le
      have hfits := List.length_take_le (size - 1) stream
      omega
  · -- a length that runs on is cut within its digits, and read before and behind the cut
    obtain ⟨recvs, recvs', e, e', hcut, hcut', he, he', hdiffer⟩ :=
      exists_notSame_of_runsOn hmax havailable (strstr_section havailable hend) hruns
    exact hdiffer (hall recvs recvs' e e' hcut hcut' he he')
  · intro recvs recvs' e e' hcut hcut' he he'
    obtain ⟨a, ha, hends⟩ := hrun recvs hcut
    obtain ⟨b, hb, hends'⟩ := hrun recvs' hcut'
    obtain rfl := Option.some.inj (he.symm.trans ha)
    obtain rfl := Option.some.inj (he'.symm.trans hb)
    -- both cuts end with a prefix of the same bytes, and compute the same expected length
    refine sameRequest_of_ends hends hends' fun headerEnd arrived hend hstart harrived => ?_
    exact expectedTotal_of_not_runsOn hnot hend hstart harrived

/-- A request with a body, at once and in three pieces. -/
theorem httpServerReadSteps_cut_iff_query :
    let head := bytes "POST /query HTTP/1.1\r\nContent-Length: 2"
    let stream := head ++ crlfCrlf ++ bytes "\x7b\x7d"
    let whole := [RecvResult.data stream, .closed]
    let cut := [RecvResult.data (head ++ bytes "\r\n"), .data (bytes "\r\n\x7b"),
      .data (bytes "\x7d"), .closed]
    ∃ e e', httpServerReadSteps httpServerRequestBufferSize whole [] none = some e ∧
      httpServerReadSteps httpServerRequestBufferSize cut [] none = some e' ∧
      httpServerReadLoop httpServerRequestBufferSize cut [] none = some e'.result ∧
      e'.buffer.length + 1 ≤ httpServerRequestBufferSize ∧ SameRequest e e' := by
  intro head stream whole cut
  have hwhole : Arrives httpServerRequestBufferSize 0 stream whole := by
    have hall : Arrives httpServerRequestBufferSize 0 (stream ++ []) whole :=
      .data (by decide) (by decide) (.closed _)
    rwa [List.append_nil] at hall
  have hcut : Arrives httpServerRequestBufferSize 0 stream cut := by
    have hpieces : Arrives httpServerRequestBufferSize 0
        ((head ++ bytes "\r\n") ++ (bytes "\r\n\x7b" ++ (bytes "\x7d" ++ []))) cut :=
      .data (by decide) (by decide) (.data (by decide) (by decide)
        (.data (by decide) (by decide) (.closed _)))
    exact hpieces
  obtain ⟨hends, hsame⟩ := httpServerReadSteps_cut_iff
    (by decide : 0 < httpServerRequestBufferSize) (by decide) stream
  obtain ⟨e, he, -⟩ := hends whole hwhole
  obtain ⟨e', he', hloop, hfits⟩ := hends cut hcut
  refine ⟨e, e', he, he', hloop, hfits, hsame.mpr ?_ _ _ _ _ hwhole hcut he he'⟩
  -- the body starts with a brace, which no number does
  intro head' body hsplit hend
  have htake : stream.take (httpServerRequestBufferSize - 1) = stream := by decide
  have hfound : strstr stream crlfCrlf = some head.length := by decide
  rw [htake] at hsplit hend
  have hlength : head.length = head'.length := Option.some.inj (hfound.symm.trans hend)
  obtain ⟨-, rfl⟩ := List.append_inj hsplit (by simp [hlength])
  rintro ⟨value, -, -, hnumber⟩
  exact hnumber (by decide)

/-- A content length without a number, and a body of one digit: the request is complete when
the header section arrives alone, and incomplete when all arrives at once. -/
theorem httpServerReadSteps_blankLength :
    let headers := bytes "POST /query HTTP/1.1\r\nContent-Length:\r\n\r\n"
    let cut := [RecvResult.data headers, .data (bytes "9"), .closed]
    let whole := [RecvResult.data (headers ++ bytes "9"), .closed]
    Arrives httpServerRequestBufferSize 0 (headers ++ bytes "9") cut ∧
      Arrives httpServerRequestBufferSize 0 (headers ++ bytes "9") whole ∧
      httpServerReadRequest cut = some (.ok headers) ∧
      httpServerReadRequest whole = some (.error (httpServerIncomplete true)) := by
  intro headers cut whole
  have hdigit : Arrives httpServerRequestBufferSize (0 + headers.length) (bytes "9" ++ [])
      [.data (bytes "9"), .closed] := .data (by decide) (by decide) (.closed _)
  have hwhole : Arrives httpServerRequestBufferSize 0 ((headers ++ bytes "9") ++ []) whole :=
    .data (by decide) (by decide) (.closed _)
  exact ⟨.data (by decide) (by decide) hdigit, hwhole, by rfl, by rfl⟩

end Segmentation

end SqlApi.Server

import SqlApi.Server.HttpRequest

/-!
# The window of the JSON body

The reader decides with one content length that a request is complete, the parser takes
the body with another: the value of the first such header, when the header section had
just arrived, and the value of the last one, when everything has. When they are the same
number, and one that the buffer has room for, the body lies within the bytes received.

Reader and parser go through the same lines (`headerLines`); they differ in the value they take and
in the moment they take it. So the condition is about the values in the header section, and about
what had arrived when its end did.
-/

namespace SqlApi.Server

open SqlApi.Lib SqlApi.Core

/-! ## The content lengths of a header section -/

/-- The header lines: how long each is, and the text from its start on. -/
def headerLines : (fuel : Nat) → (line : Cursor) → (left : Nat) → List (Nat × Cursor)
  | 0, _, _ => []
  | fuel + 1, line, left =>
    if 0 < left then
      match strstr line crlf with
      | none => []
      | some nextLine =>
        -- the next line end lies behind the head
        if left < nextLine then []
        else
          (nextLine, line) :: headerLines fuel (line.drop (nextLine + 2)) (left - (nextLine + 2))
    else []

/-- The value of a header line that is a content length. -/
def contentLengthOf (line : Nat × Cursor) : Option Nat :=
  ((memchr (line.2.take line.1) (byte ':')).filter
    fun colon => apiHeaderNameEquals (line.2.take colon) contentLengthName).map
      fun colon => (strtoul (line.2.drop (colon + 1))).1

/-- The values of all content lengths, in order. -/
def contentLengths (buffer : List UInt8) : List Nat :=
  match strstr buffer crlf, strstr buffer crlfCrlf with
  | some line, some headerEnd =>
    (headerLines (headerEnd - (line + 2)) (buffer.drop (line + 2))
      (headerEnd - (line + 2))).filterMap contentLengthOf
  | _, _ => []

private theorem httpServerContentLengthLoop_eq (fuel : Nat) (line : Cursor) (left : Nat) :
    httpServerContentLengthLoop fuel line left =
      ((headerLines fuel line left).filterMap contentLengthOf).headD 0 := by
  induction fuel generalizing line left with
  | zero => rfl
  | succ fuel ih =>
    unfold httpServerContentLengthLoop headerLines
    split
    · cases strstr line crlf with
      | none => rfl
      | some nextLine =>
        dsimp only
        split
        · rfl
        · rw [List.filterMap_cons, contentLengthOf, httpServerHeaderNameEquals_eq]
          dsimp only
          cases (memchr (line.take nextLine) (byte ':')).filter
            fun colon => apiHeaderNameEquals (line.take colon) contentLengthName with
          | none => exact ih ..
          | some colon => rfl
    · rfl

/-- The reader takes the first content length. -/
theorem httpServerParseContentLength_eq (buffer : List UInt8) :
    httpServerParseContentLength buffer = (contentLengths buffer).headD 0 := by
  unfold httpServerParseContentLength contentLengths
  cases strstr buffer crlf with
  | none => rfl
  | some line =>
    cases strstr buffer crlfCrlf with
    | none => rfl
    | some headerEnd => exact httpServerContentLengthLoop_eq ..

private theorem getLastD_cons {α : Type} (a b : α) (l : List α) :
    (a :: l).getLastD b = l.getLastD a := by
  cases l <;> rfl

/-- The header loop keeps the last value it finds. -/
theorem apiHeaderLoop_eq {fuel : Nat} {line : Cursor} {left init contentLength : Nat}
    (h : apiHeaderLoop fuel line left init = .ok contentLength) :
    contentLength = ((headerLines fuel line left).filterMap contentLengthOf).getLastD init := by
  -- the induction is on the fuel: each round reads one line and keeps the last length that a line
  -- gave
  induction fuel generalizing line left init with
  | zero => exact (Except.ok.inj h).symm
  | succ fuel ih =>
    unfold apiHeaderLoop at h
    unfold headerLines
    split at h
    · next hleft =>
      rw [if_pos hleft]
      cases hline : strstr line crlf with
      | none => simp [hline] at h
      | some nextLine =>
        rw [hline] at h
        dsimp only at h ⊢
        split at h
        · cases h
        · next hnext =>
          rw [if_neg hnext, List.filterMap_cons, contentLengthOf]
          dsimp only
          cases hcolon : (memchr (line.take nextLine) (byte ':')).filter
            fun colon => apiHeaderNameEquals (line.take colon) contentLengthName with
          -- a line without a colon or under another name keeps the length read so far
          | none =>
            rw [hcolon] at h
            exact ih h
          -- a Content-Length line replaces the length read so far
          | some colon =>
            rw [hcolon] at h
            rw [Option.map_some]
            dsimp only
            rw [getLastD_cons]
            exact ih h
    · next hleft =>
      rw [if_neg hleft]
      exact (Except.ok.inj h).symm

/-- The parser takes the last content length. -/
theorem apiParseHead_contentLength {memory : List UInt8} {request : APIRequest} {body : Nat}
    (h : apiParseHead memory = .ok (request, body)) :
    request.contentLength = (contentLengths memory).getLastD 0 ∧
      ∃ headerEnd, strstr memory crlfCrlf = some headerEnd ∧ body = headerEnd + 4 := by
  unfold apiParseHead at h
  -- every failing step of the head contradicts the acceptance; the last one is the header loop
  cases hline : strstr memory crlf with
  | none => simp [hline] at h
  | some lineEnd =>
    rw [hline] at h
    dsimp only at h
    cases hscan : apiScanRequestLine memory with
    | none => simp [hscan] at h
    | some words =>
      rw [hscan] at h
      dsimp only at h
      split at h
      · cases h
      · cases hend : strstr memory crlfCrlf with
        | none => simp [hend] at h
        | some headerEnd =>
          rw [hend] at h
          dsimp only at h
          cases hloop : apiHeaderLoop (headerEnd - (lineEnd + 2)) (memory.drop (lineEnd + 2))
            (headerEnd - (lineEnd + 2)) 0 with
          | error message => simp [hloop] at h
          | ok contentLength =>
            rw [hloop] at h
            obtain ⟨rfl, rfl⟩ := Prod.mk.inj (Except.ok.inj h)
            refine ⟨?_, headerEnd, rfl, rfl⟩
            rw [contentLengths, hline, hend]
            exact apiHeaderLoop_eq hloop

/-! ## The parser sees the same header lines -/

private theorem contentLengthOf_append_zero {line rest : List UInt8} {nextLine : Nat}
    (hnext : nextLine ≤ line.length) :
    contentLengthOf (nextLine, line ++ 0 :: rest) = contentLengthOf (nextLine, line) := by
  unfold contentLengthOf
  dsimp only
  rw [List.take_append_of_le_length hnext]
  cases hcolon : memchr (line.take nextLine) (byte ':') with
  | none => rfl
  | some colon =>
    have hlt := memchr_lt hcolon
    rw [List.length_take] at hlt
    have htake : (line ++ 0 :: rest).take colon = line.take colon :=
      List.take_append_of_le_length (by omega)
    have hdrop : (line ++ 0 :: rest).drop (colon + 1) = line.drop (colon + 1) ++ 0 :: rest :=
      List.drop_append_of_le_length (by omega)
    rw [Option.filter_some, Option.filter_some, htake]
    split
    · rw [Option.map_some, Option.map_some, hdrop, strtoul_append_zero]
    · rfl

private theorem headerLines_append_zero (fuel : Nat) (line rest : List UInt8) (left : Nat) :
    (headerLines fuel (line ++ 0 :: rest) left).filterMap contentLengthOf =
      (headerLines fuel line left).filterMap contentLengthOf := by
  induction fuel generalizing line left with
  | zero => rfl
  | succ fuel ih =>
    unfold headerLines
    rw [strstr_append_zero]
    split
    · cases hline : strstr line crlf with
      | none => rfl
      | some nextLine =>
        have hle : nextLine + 2 ≤ line.length := strstr_le hline
        dsimp only
        split
        · rfl
        · rw [List.filterMap_cons, List.filterMap_cons, contentLengthOf_append_zero (by omega),
            List.drop_append_of_le_length hle, ih]
    · rfl

/-- The content lengths are those of the bytes up to the terminator. -/
theorem contentLengths_append_zero (received rest : List UInt8) :
    contentLengths (received ++ 0 :: rest) = contentLengths received := by
  unfold contentLengths
  rw [strstr_append_zero, strstr_append_zero]
  cases hline : strstr received crlf with
  | none => rfl
  | some line =>
    have hle : line + 2 ≤ received.length := strstr_le hline
    cases strstr received crlfCrlf with
    | none => rfl
    | some headerEnd =>
      dsimp only
      rw [List.drop_append_of_le_length hle, headerLines_append_zero]

/-- A round of the header loop, with the value of its line. -/
private theorem apiHeaderLoop_succ (fuel : Nat) (line : Cursor) (left contentLength : Nat) :
    apiHeaderLoop (fuel + 1) line left contentLength =
      if 0 < left then
        match strstr line crlf with
        | none => .error (apiSetError "Malformed HTTP header line")
        | some nextLine =>
          if left < nextLine then .error (apiSetError "Malformed HTTP header line")
          else apiHeaderLoop fuel (line.drop (nextLine + 2)) (left - (nextLine + 2))
            ((contentLengthOf (nextLine, line)).getD contentLength)
      else .ok contentLength := by
  rw [apiHeaderLoop]
  cases strstr line crlf with
  | none => rfl
  | some nextLine =>
    unfold contentLengthOf
    dsimp only
    cases (memchr (line.take nextLine) (byte ':')).filter
      fun colon => apiHeaderNameEquals (line.take colon) contentLengthName <;> rfl

private theorem apiHeaderLoop_append_zero (fuel : Nat) (line rest : List UInt8)
    (left contentLength : Nat) :
    apiHeaderLoop fuel (line ++ 0 :: rest) left contentLength =
      apiHeaderLoop fuel line left contentLength := by
  induction fuel generalizing line left contentLength with
  | zero => rfl
  | succ fuel ih =>
    rw [apiHeaderLoop_succ, apiHeaderLoop_succ, strstr_append_zero]
    cases hline : strstr line crlf with
    | none => rfl
    | some nextLine =>
      have hle : nextLine + 2 ≤ line.length := strstr_le hline
      dsimp only
      rw [contentLengthOf_append_zero (by omega), List.drop_append_of_le_length hle, ih]

/-- Up to the body a request is parsed without what is behind the terminator. -/
theorem apiParseHead_append_zero (received rest : List UInt8) :
    apiParseHead (received ++ 0 :: rest) = apiParseHead received := by
  have hscan : apiScanRequestLine (received ++ 0 :: rest) = apiScanRequestLine received := by
    unfold apiScanRequestLine
    rw [← scanWord_cstr, cstr_append_zero_any, scanWord_cstr]
  unfold apiParseHead
  rw [strstr_append_zero, strstr_append_zero, hscan]
  cases hline : strstr received crlf with
  | none => rfl
  | some lineEnd =>
    have hle : lineEnd + 2 ≤ received.length := strstr_le hline
    dsimp only
    rw [List.drop_append_of_le_length hle]
    cases strstr received crlfCrlf with
    | none => rfl
    | some headerEnd =>
      dsimp only
      rw [apiHeaderLoop_append_zero]

/-! ## Reading -/

/-- What has been received when the end of the header section arrives. -/
def headersReceived : (received : List UInt8) → List RecvResult → List UInt8
  | received, .data bytes' :: recvs =>
    if (strstr (received ++ bytes') crlfCrlf).isSome then received ++ bytes'
    else headersReceived (received ++ bytes') recvs
  | received, _ => received

/-- Once the headers are there, reading stops when what is expected is there too. -/
theorem httpServerReadLoop_expected {size expectedTotal : Nat} {recvs : List RecvResult}
    {received total : List UInt8}
    (h : httpServerReadLoop size recvs received (some expectedTotal) = some (.ok total)) :
    expectedTotal ≤ total.length ∧ received <+: total ∧ total.length < size := by
  -- the induction is on the answers of recv: only the round that reaches the total leaves the loop
  -- with ok
  induction recvs generalizing received with
  | nil =>
    unfold httpServerReadLoop at h
    split at h <;> cases h
  | cons answer recvs ih =>
    unfold httpServerReadLoop at h
    split at h
    · next hroom =>
      cases answer with
      | error => cases h
      | closed => cases h
      | data bytes' =>
        dsimp only at h
        split at h
        · cases h
        · next hanswer =>
          rw [not_or, not_lt] at hanswer
          split at h
          · -- the total is reached here, and the room test of the round bounds it
            next hdone =>
            obtain rfl := Except.ok.inj (Option.some.inj h)
            refine ⟨hdone, List.prefix_append .., ?_⟩
            rw [List.length_append]
            omega
          · obtain ⟨hexpected, hstart, hlt⟩ := ih h
            exact ⟨hexpected, (List.prefix_append ..).trans hstart, hlt⟩
    · cases h

/-- A request that is read: its header section, and as much as that announces. -/
theorem httpServerReadLoop_ok {size : Nat} {recvs : List RecvResult} {received total : List UInt8}
    (h : httpServerReadLoop size recvs received none = some (.ok total)) :
    ∃ headerEnd, strstr (headersReceived received recvs) crlfCrlf = some headerEnd ∧
      (httpServerExpectedTotal headerEnd (headersReceived received recvs) + 1) % 2 ^ 64 ≤ size ∧
      httpServerExpectedTotal headerEnd (headersReceived received recvs) ≤ total.length ∧
      headersReceived received recvs <+: total ∧ total.length < size := by
  induction recvs generalizing received with
  | nil =>
    unfold httpServerReadLoop at h
    split at h <;> cases h
  | cons answer recvs ih =>
    unfold httpServerReadLoop at h
    split at h
    · next hroom =>
      cases answer with
      | error => cases h
      | closed => cases h
      | data bytes' =>
        dsimp only at h
        unfold headersReceived
        split at h
        · cases h
        · next hanswer =>
          rw [not_or, not_lt] at hanswer
          cases hend : strstr (received ++ bytes') crlfCrlf with
          | none =>
            rw [hend] at h
            exact ih h
          | some headerEnd =>
            rw [hend] at h
            dsimp only at h
            -- `headersReceived` stops where the loop first knows the total
            rw [if_pos (by simp)]
            refine ⟨headerEnd, hend, ?_⟩
            split at h
            · cases h
            · next hfits =>
              split at h
              · next hdone =>
                obtain rfl := Except.ok.inj (Option.some.inj h)
                refine ⟨not_lt.mp hfits, hdone, List.prefix_refl _, ?_⟩
                rw [List.length_append]
                omega
              · obtain ⟨hexpected, hstart, hlt⟩ := httpServerReadLoop_expected h
                exact ⟨not_lt.mp hfits, hexpected, hstart, hlt⟩
    · cases h

/-! ## The window -/

/-- The window with which `api_parse_http_request` calls `api_extract_query_string`, when
it does: where the body starts and its length. -/
def apiBodyWindow (memory : List UInt8) : Option (Nat × Nat) :=
  match apiParseHead memory with
  | .ok (request, body) =>
    if request.isQuery && request.contentLength != 0 then some (body, request.contentLength)
    else none
  | .error _ => none

/-- The parser goes on with the bytes of the window. -/
theorem apiParseHttpRequest_of_window {memory : List UInt8} {offset contentLength : Nat}
    (h : apiBodyWindow memory = some (offset, contentLength)) :
    ∃ request : APIRequest, apiParseHttpRequest memory =
      if memory.length < offset + contentLength then none
      else
        match apiExtractQueryString 1024 ((memory.drop offset).take contentLength) with
        | none => some (.error (apiSetError "JSON body must contain a string field named query"))
        | some query => some (.ok { request with query }) := by
  unfold apiBodyWindow at h
  cases hhead : apiParseHead memory with
  | error message => simp [hhead] at h
  | ok parsed =>
    obtain ⟨request, body⟩ := parsed
    rw [hhead] at h
    dsimp only at h
    split at h
    · next hquery =>
      obtain ⟨rfl, rfl⟩ := Prod.mk.inj (Option.some.inj h)
      simp only [Bool.and_eq_true, bne_iff_ne] at hquery
      refine ⟨request, ?_⟩
      rw [apiParseHttpRequest, hhead]
      exact (if_pos hquery.1).trans (if_neg hquery.2)
    · cases h

/-- When the window lies within the bytes received, nothing behind their terminator matters. -/
theorem apiParseHttpRequest_append_zero {received : List UInt8}
    (hinside : ∀ offset contentLength, apiBodyWindow received = some (offset, contentLength) →
      offset + contentLength ≤ received.length) (rest rest' : List UInt8) :
    apiParseHttpRequest (received ++ 0 :: rest) = apiParseHttpRequest (received ++ 0 :: rest') := by
  unfold apiBodyWindow at hinside
  unfold apiParseHttpRequest
  rw [apiParseHead_append_zero, apiParseHead_append_zero]
  cases hhead : apiParseHead received with
  | error message => rfl
  | ok parsed =>
    obtain ⟨request, body⟩ := parsed
    rw [hhead] at hinside
    dsimp only at hinside ⊢
    split
    case isFalse => rfl
    case isTrue hquery =>
      split
      case isTrue => rfl
      case isFalse hlength =>
        -- both windows are the one in the bytes received
        have hfits := hinside body request.contentLength (if_pos (by simp [hquery, hlength]))
        have hroom (rest : List UInt8) :
            ¬ (received ++ 0 :: rest).length < body + request.contentLength := by
          rw [List.length_append]
          omega
        have hwindow (rest : List UInt8) :
            ((received ++ 0 :: rest).drop body).take request.contentLength =
              (received.drop body).take request.contentLength := by
          rw [List.drop_append_of_le_length (by omega),
            List.take_append_of_le_length (by rw [List.length_drop]; omega)]
        rw [if_neg (hroom rest), if_neg (hroom rest'), hwindow, hwindow]

/-- The window lies within the bytes received: its length is the number that decided that
they are enough, and no sum with it wraps. -/
structure WindowReceived (early received : List UInt8) (offset contentLength : Nat) : Prop where
  inside : offset + contentLength ≤ received.length
  same : contentLength = httpServerParseContentLength early
  noWrap : offset + contentLength + 1 < 2 ^ 64

/-- The first content length that came with the header section and the last one of the
request are the same number, and the buffer has room for it. -/
def ContentLengthsAgree (early received : List UInt8) : Prop :=
  (contentLengths early).headD 0 = (contentLengths received).getLastD 0 ∧
    (contentLengths early).headD 0 < httpServerRequestBufferSize

/-- When the body window lies inside the bytes received: for every way the bytes arrive, if
they are read and the parser goes on to the body, exactly when the content lengths
agree. -/
theorem apiBodyWindow_received_iff {recvs : List RecvResult} {received : List UInt8}
    (hread : httpServerReadRequest recvs = some (.ok received)) {rest : List UInt8}
    {offset contentLength : Nat}
    (hwindow : apiBodyWindow (received ++ 0 :: rest) = some (offset, contentLength)) :
    WindowReceived (headersReceived [] recvs) received offset contentLength ↔
      ContentLengthsAgree (headersReceived [] recvs) received := by
  obtain ⟨headerEnd, hend, hfits, hexpected, ⟨more, hmore⟩, htotal⟩ := httpServerReadLoop_ok hread
  have hbody : contentLength = (contentLengths received).getLastD 0 ∧ offset = headerEnd + 4 := by
    unfold apiBodyWindow at hwindow
    cases hhead : apiParseHead (received ++ 0 :: rest) with
    | error message => simp [hhead] at hwindow
    | ok parsed =>
      obtain ⟨request, body⟩ := parsed
      rw [hhead] at hwindow
      dsimp only at hwindow
      split at hwindow
      · obtain ⟨rfl, rfl⟩ := Prod.mk.inj (Option.some.inj hwindow)
        obtain ⟨hlength, headerEnd', hend', hbody⟩ := apiParseHead_contentLength hhead
        rw [contentLengths_append_zero] at hlength
        rw [strstr_append_zero, ← hmore, strstr_append hend] at hend'
        exact ⟨hlength, hbody.trans (by rw [Option.some.inj hend'])⟩
      · cases hwindow
  obtain ⟨hlength, hoffset⟩ := hbody
  -- the two parsers: the loop takes the first length, the request the last
  have hparse := httpServerParseContentLength_eq (headersReceived [] recvs)
  have hroom : headerEnd + 4 ≤ (headersReceived [] recvs).length := strstr_le hend
  have hshort : (headersReceived [] recvs).length ≤ received.length := by
    rw [← hmore, List.length_append]
    omega
  unfold httpServerExpectedTotal at hfits hexpected
  rw [hparse] at hfits hexpected
  unfold ContentLengthsAgree
  generalize hsize : httpServerRequestBufferSize = size at hfits htotal ⊢
  obtain rfl : 8192 = size := hsize
  constructor
  · intro h
    have hsame := h.same
    have hwrap := h.noWrap
    rw [hparse] at hsame
    refine ⟨hsame.symm.trans hlength, ?_⟩
    omega
  · rintro ⟨hsame, hsmall⟩
    rw [hsame] at hfits hexpected hsmall
    rw [← hlength] at hfits hexpected hsmall
    refine ⟨?_, ?_, ?_⟩
    · omega
    · rw [hparse, hsame, hlength]
    · omega

/-- A request in two pieces whose window lies inside. -/
theorem apiBodyWindow_received_iff_pieces :
    let recvs := [RecvResult.data (bytes "POST /query HTTP/1.1\r\nContent-Length: 12\r\n\r"),
      RecvResult.data (bytes "\n\x7b\"query\":\"\"\x7d")]
    let received := bytes
      "POST /query HTTP/1.1\r\nContent-Length: 12\r\n\r\n\x7b\"query\":\"\"\x7d"
    WindowReceived (headersReceived [] recvs) received 44 12 ↔
      ContentLengthsAgree (headersReceived [] recvs) received := by
  intro recvs received
  have hread : httpServerReadRequest recvs = some (.ok received) := by rfl
  have hwindow : apiBodyWindow (received ++ 0 :: []) = some (44, 12) := by rfl
  exact apiBodyWindow_received_iff hread hwindow

/-- With two content lengths the window can reach past the bytes received: two bytes of
body are enough for the reader, the parser takes 8000. -/
theorem apiBodyWindow_duplicate :
    let received := bytes
      "POST /query HTTP/1.1\r\nContent-Length: 2\r\nContent-Length: 8000\r\n\r\n\x7b\x7d"
    ∃ offset contentLength,
      httpServerReadRequest [.data received] = some (.ok received) ∧
      apiBodyWindow (received ++ [0]) = some (offset, contentLength) ∧
      ¬ offset + contentLength ≤ received.length := by
  intro received
  exact ⟨65, 8000, by rfl, by rfl, by decide⟩

end SqlApi.Server

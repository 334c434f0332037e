import SqlApi.Core.Sql
import SqlApi.Lib.StringSearch

/-!
# `http_server.c`, `api.c`: from bytes to a request

Bytes arrive in pieces; `http_server_read_request` collects them until the header section
and the announced body are there, `api_parse_http_request` takes them apart. Each of the
two looks for the content length on its own.

The reader is a loop over the answers of `recv`; the scanner of the body is a loop with the
length of the body as its fuel. What is passed to the parser is the whole buffer: the bytes
received, the terminator, and what the stack held behind it.
-/

namespace SqlApi.Server

open SqlApi.Lib SqlApi.Core

/-- `HTTP_SERVER_REQUEST_BUFFER_SIZE` -/
abbrev httpServerRequestBufferSize : Nat := 8192

/-- The end of a line. -/
abbrev crlf : List UInt8 := [13, 10]

/-- The end of the header section. -/
abbrev crlfCrlf : List UInt8 := [13, 10, 13, 10]

/-! ## Header names -/

/-- Both comparisons of header names: byte by byte, after changing case. -/
def headerNameEquals (lower : UInt8 → UInt8) (left right : List UInt8) : Bool :=
  left.length == right.length && left.map lower == right.map lower

/-- The case change in `http_server_header_name_equals`. -/
def httpServerLower (c : UInt8) : UInt8 :=
  if byte 'A' ≤ c && c ≤ byte 'Z' then c - byte 'A' + byte 'a' else c

/-- `http_server_header_name_equals` -/
def httpServerHeaderNameEquals (left right : List UInt8) : Bool :=
  headerNameEquals httpServerLower left right

/-- `api_header_name_equals` -/
def apiHeaderNameEquals (left right : List UInt8) : Bool := headerNameEquals toLower left right

theorem httpServerLower_eq : httpServerLower = toLower := by
  funext c
  have hshift : c - 65 + 97 = c + 32 := by grind
  change (if 65 ≤ c && c ≤ 90 then c - 65 + 97 else c) = if 65 ≤ c && c ≤ 90 then c + 32 else c
  rw [hshift]

/-- The two comparisons agree. -/
theorem httpServerHeaderNameEquals_eq : httpServerHeaderNameEquals = apiHeaderNameEquals := by
  funext left right
  rw [httpServerHeaderNameEquals, httpServerLower_eq]
  rfl

/-- `"Content-Length"` -/
def contentLengthName : List UInt8 := bytes "Content-Length"

/-! ## Reading -/

/-- The loop of `http_server_parse_content_length`: `line` is the text from the start of a
line on, `left` how far the end of the header section is. -/
def httpServerContentLengthLoop : (fuel : Nat) → (line : Cursor) → (left : Nat) → Nat
  | 0, _, _ => 0
  | fuel + 1, line, left =>
    if 0 < left then
      match strstr line crlf with
      | none => 0
      | some nextLine =>
        -- the line runs past the head
        if left < nextLine then 0
        else
          match (memchr (line.take nextLine) (byte ':')).filter
            fun colon => httpServerHeaderNameEquals (line.take colon) contentLengthName with
          -- the first Content-Length counts here
          | some colon => (strtoul (line.drop (colon + 1))).1
          | none =>
            httpServerContentLengthLoop fuel (line.drop (nextLine + 2)) (left - (nextLine + 2))
    else 0

/-- `http_server_parse_content_length`; every line is shorter than what is left, so that is
fuel enough. -/
def httpServerParseContentLength (requestBuffer : List UInt8) : Nat :=
  match strstr requestBuffer crlf, strstr requestBuffer crlfCrlf with
  | some line, some headerEnd =>
    httpServerContentLengthLoop (headerEnd - (line + 2)) (requestBuffer.drop (line + 2))
      (headerEnd - (line + 2))
  | _, _ => 0

/-- What `recv` answers. -/
inductive RecvResult where
  | error | closed
  | data (bytes : List UInt8)

/-- The message for a request that ends too soon. -/
def httpServerIncomplete (headersReady : Bool) : List UInt8 :=
  snprintf 256 (bytes (if headersReady then "Incomplete HTTP request body"
    else "Incomplete HTTP request headers"))

/-- `expected_total`, a `size_t`. -/
def httpServerExpectedTotal (headerEnd : Nat) (buffer : List UInt8) : Nat :=
  (headerEnd + 4 + httpServerParseContentLength buffer) % 2 ^ 64

/-- The loop of `http_server_read_request`: `received` is what is in the buffer, `expected`
is `expected_total` once the headers are there. `none` means that `recv` does not answer, or
answers what it cannot: nothing at all, or more than there is room for. -/
def httpServerReadLoop (bufferSize : Nat) : List RecvResult → (received : List UInt8) →
    (expected : Option Nat) → Option (Except (List UInt8) (List UInt8))
  | recvs, received, expected =>
    if received.length + 1 < bufferSize then
      match recvs with
      | [] => none
      | .error :: _ => some (.error (snprintf 256 (bytes "Failed to read from socket")))
      -- the peer has closed: what is missing says whether the head was complete
      | .closed :: _ => some (.error (httpServerIncomplete expected.isSome))
      | .data bytes' :: recvs =>
        -- no such answer of recv: at least one byte, and no more than there is room for
        if bytes' = [] ∨ bufferSize - received.length - 1 < bytes'.length then none
        else
          let received := received ++ bytes'
          match expected with
          -- the length is not computed again once the head has ended
          | some expectedTotal =>
            if expectedTotal ≤ received.length then some (.ok received)
            else httpServerReadLoop bufferSize recvs received (some expectedTotal)
          | none =>
            match strstr received crlfCrlf with
            | none => httpServerReadLoop bufferSize recvs received none
            | some headerEnd =>
              let expectedTotal := httpServerExpectedTotal headerEnd received
              -- the sum wraps round for a huge length
              if bufferSize < (expectedTotal + 1) % 2 ^ 64 then
                some (.error (snprintf 256 (bytes "HTTP request exceeds buffer limit")))
              else if expectedTotal ≤ received.length then some (.ok received)
              else httpServerReadLoop bufferSize recvs received (some expectedTotal)
    else some (.error (httpServerIncomplete expected.isSome))

/-- `http_server_read_request` on the buffer of a worker: the bytes received, or the error
message. -/
def httpServerReadRequest (recvs : List RecvResult) : Option (Except (List UInt8) (List UInt8)) :=
  httpServerReadLoop httpServerRequestBufferSize recvs [] none

/-! ## The JSON body -/

/-- `api_skip_spaces`; the list ends where the window does. -/
def apiSkipSpaces (cursor : Cursor) : Cursor := cursor.dropWhile isSpace

/-- What stands for an escaped character. -/
def apiUnescape (escaped : UInt8) : Option UInt8 :=
  if escaped = 34 ∨ escaped = 92 ∨ escaped = byte '/' then some escaped
  else if escaped = byte 'n' then some (byte '\n')
  else if escaped = byte 'r' then some (byte '\r')
  else if escaped = byte 't' then some (byte '\t')
  else none

/-- The loop of `api_parse_json_string`; `buffer` is what was read so far. -/
def apiJsonStringLoop (bufferSize : Nat) :
    (buffer : List UInt8) → Cursor → Option (List UInt8 × Cursor)
  | _, [] => none
  -- the closing quote
  | buffer, 34 :: cursor => some (buffer, cursor)
  -- a backslash at the end of the window
  | _, [92] => none
  | buffer, 92 :: escaped :: cursor =>
    match apiUnescape escaped with
    -- an escape other than the six
    | none => none
    | some current =>
      if bufferSize ≤ buffer.length + 1 then none
      else apiJsonStringLoop bufferSize (buffer ++ [current]) cursor
  | buffer, current :: cursor =>
    if bufferSize ≤ buffer.length + 1 then none
    else apiJsonStringLoop bufferSize (buffer ++ [current]) cursor

/-- `api_parse_json_string` -/
def apiParseJsonString (bufferSize : Nat) : Cursor → Option (List UInt8 × Cursor)
  | 34 :: cursor => apiJsonStringLoop bufferSize [] cursor
  | _ => none

/-- Past the value of a field that is not the query. -/
def apiSkipValue (cursor : Cursor) : Option Cursor :=
  if cursor.head? = some 34 then (apiParseJsonString 16 cursor).map Prod.snd
  else some (cursor.dropWhile fun c => c != byte ',' && c != byte '}')

/-- The loop of `api_extract_query_string`. A field makes it advance, so the length of the
window is fuel enough. -/
def apiExtractLoop (querySize : Nat) : (fuel : Nat) → Cursor → Option (List UInt8)
  | 0, _ => none
  | fuel + 1, cursor =>
    if cursor = [] then none
    else
      let cursor := apiSkipSpaces cursor
      -- the object ends without a query
      if cursor.head? = some (byte '}') then none
      else
        match apiParseJsonString 64 cursor with
        | none => none
        | some (key, cursor) =>
          let cursor := apiSkipSpaces cursor
          if cursor.head? ≠ some (byte ':') then none
          else
            let cursor := apiSkipSpaces (cursor.drop 1)
            -- the first member of this name ends the search, and nothing behind it is read
            if cstr key = bytes "query" then (apiParseJsonString querySize cursor).map Prod.fst
            else
              match apiSkipValue cursor with
              | none => none
              | some cursor =>
                let cursor := apiSkipSpaces cursor
                apiExtractLoop querySize fuel
                  -- a comma is passed over, its absence is not noticed
                  (if cursor.head? = some (byte ',') then cursor.drop 1 else cursor)

/-- `api_extract_query_string` on the bytes of the window. -/
def apiExtractQueryString (querySize : Nat) (body : List UInt8) : Option (List UInt8) :=
  let cursor := apiSkipSpaces body
  if cursor.head? ≠ some (byte '{') then none
  else apiExtractLoop querySize body.length (cursor.drop 1)

/-! ## The request -/

/-- `enum APIRequestMethod` -/
inductive APIRequestMethod where
  | unknown | get | post
  deriving DecidableEq, Repr

/-- `struct APIRequest`; the texts are without their terminators. -/
structure APIRequest where
  method : APIRequestMethod
  path : List UInt8
  query : List UInt8
  contentLength : Nat
  deriving DecidableEq, Repr

/-- `api_set_error`; all callers have a buffer of 256 bytes. -/
def apiSetError (message : String) : List UInt8 := snprintf 256 (bytes message)

/-- The header loop of `api_parse_http_request`. -/
def apiHeaderLoop : (fuel : Nat) → (headerCursor : Cursor) → (left : Nat) →
    (contentLength : Nat) → Except (List UInt8) Nat
  | 0, _, _, contentLength => .ok contentLength
  | fuel + 1, headerCursor, left, contentLength =>
    if 0 < left then
      match strstr headerCursor crlf with
      | none => .error (apiSetError "Malformed HTTP header line")
      | some nextLine =>
        if left < nextLine then .error (apiSetError "Malformed HTTP header line")
        else
          let contentLength :=
            match (memchr (headerCursor.take nextLine) (byte ':')).filter
              fun colon => apiHeaderNameEquals (headerCursor.take colon) contentLengthName with
            -- the last Content-Length counts here
            | some colon => (strtoul (headerCursor.drop (colon + 1))).1
            -- a line without a colon or under another name
            | none => contentLength
          apiHeaderLoop fuel (headerCursor.drop (nextLine + 2)) (left - (nextLine + 2))
            contentLength
    else .ok contentLength

/-- `sscanf(raw_request, "%7s %63s %15s", method, path, version)`, when all three are there. -/
def apiScanRequestLine (rawRequest : List UInt8) : Option (List UInt8 × List UInt8) := do
  let (method, rest) ← scanWord 7 rawRequest
  let (path, rest) ← scanWord 63 rest
  let _ ← scanWord 15 rest
  return (method, path)

/-- `api_parse_http_request` up to the body: the request without its query, and where the
body starts. -/
def apiParseHead (rawRequest : List UInt8) : Except (List UInt8) (APIRequest × Nat) :=
  match strstr rawRequest crlf with
  | none => .error (apiSetError "Malformed HTTP request line")
  | some lineEnd =>
    match apiScanRequestLine rawRequest with
    | none => .error (apiSetError "Malformed HTTP request line")
    | some (method, path) =>
      if path.length = 0 then .error (apiSetError "Request path is empty")
      else
        -- any other word is a method too, an unknown one
        let method : APIRequestMethod :=
          if method = bytes "GET" then .get else if method = bytes "POST" then .post else .unknown
        match strstr rawRequest crlfCrlf with
        | none => .error (apiSetError "Malformed HTTP headers")
        | some headerEnd =>
          match apiHeaderLoop (headerEnd - (lineEnd + 2)) (rawRequest.drop (lineEnd + 2))
            (headerEnd - (lineEnd + 2)) 0 with
          | .error message => .error message
          | .ok contentLength => .ok (⟨method, path, [], contentLength⟩, headerEnd + 4)

/-- Whether the body of a request is looked at. -/
def APIRequest.isQuery (request : APIRequest) : Bool :=
  request.method == .post && request.path == bytes "/query"

/-- `api_parse_http_request` on a buffer with this contents, terminator and all that
follows included. A window that leaves the buffer is undefined behaviour (`none`). -/
def apiParseHttpRequest (memory : List UInt8) : Option (Except (List UInt8) APIRequest) :=
  match apiParseHead memory with
  | .error message => some (.error message)
  | .ok (request, body) =>
    if request.isQuery then
      if request.contentLength = 0 then
        some (.error (apiSetError "POST /query requires a JSON body"))
      -- the window of the body reaches behind the buffer: no behaviour
      else if memory.length < body + request.contentLength then none
      else
        match apiExtractQueryString 1024 ((memory.drop body).take request.contentLength) with
        | none =>
          some (.error (apiSetError "JSON body must contain a string field named query"))
        | some query => some (.ok { request with query })
    else some (.ok request)

end SqlApi.Server

import SqlApi.Server.HttpMessage
import SqlApi.Server.JsonStrings

/-!
# A request arrives as it was meant

A query that a client wraps in JSON and sends as a `POST /query`, in pieces of any size, is
the query that the server executes.

The two halves are independent of each other: whatever the pieces, the reader stops exactly with the
last byte of the request; and the parser reads the query out of it, whatever lies behind it in the
buffer.
-/

namespace SqlApi.Server

open SqlApi.Lib SqlApi.Core

/-! ## What a client sends -/

/-- How a byte of a string may be written in JSON. -/
inductive EscapedAs : UInt8 → List UInt8 → Prop
  | plain (c : UInt8) : 32 ≤ c → c ≠ 34 → c ≠ 92 → EscapedAs c [c]
  | quote : EscapedAs 34 [92, 34]
  | backslash : EscapedAs 92 [92, 92]
  | slash : EscapedAs (byte '/') [92, byte '/']
  | newline : EscapedAs (byte '\n') [92, byte 'n']
  | carriageReturn : EscapedAs (byte '\r') [92, byte 'r']
  | tab : EscapedAs (byte '\t') [92, byte 't']

/-- How a string may be written in JSON, without the quotes. -/
inductive EncodedAs : List UInt8 → List UInt8 → Prop
  | nil : EncodedAs [] []
  | cons {c : UInt8} {e q text : List UInt8} : EscapedAs c e → EncodedAs q text →
      EncodedAs (c :: q) (e ++ text)

/-- Whitespace of JSON. -/
def JsonBlank (w : List UInt8) : Prop :=
  ∀ c ∈ w, c = 32 ∨ c = byte '\t' ∨ c = byte '\n' ∨ c = byte '\r'

/-- A JSON body that holds a query. -/
def QueryBody (q body : List UInt8) : Prop :=
  ∃ w₀ w₁ w₂ w₃ w₄ w₅ text : List UInt8,
    JsonBlank w₀ ∧ JsonBlank w₁ ∧ JsonBlank w₂ ∧ JsonBlank w₃ ∧ JsonBlank w₄ ∧ JsonBlank w₅ ∧
    EncodedAs q text ∧
    body = w₀ ++ byte '{' :: (w₁ ++ 34 :: (bytes "query" ++ 34 :: (w₂ ++ byte ':' ::
      (w₃ ++ 34 :: (text ++ 34 :: (w₄ ++ byte '}' :: w₅))))))

/-- A request whose header lines are these. -/
def postRequest (lines : List (List UInt8)) (body : List UInt8) : List UInt8 :=
  bytes "POST /query HTTP/1.1" ++ crlf ++ joinLines lines ++ crlf ++ body

/-! ## The body -/

section Body

variable {size : Nat}

/-- The scanner knows all these escapes. -/
theorem EncodedAs.scannedAs {q text : List UInt8} (h : EncodedAs q text) : ScannedAs q text := by
  induction h with
  | nil => exact .nil
  | @cons c e q text hc _ ih =>
    cases hc with
    | plain _ hquote hbackslash => exact .plain ‹_› ‹_› ih
    | _ => exact .escaped rfl ih

/-- The scanner reads back every string that fits, up to the closing quote. -/
theorem apiParseJsonString_encoded {q text : List UInt8} (h : EncodedAs q text)
    (hroom : q.length < size) (rest : Cursor) :
    apiParseJsonString size (34 :: (text ++ 34 :: rest)) = some (q, rest) :=
  (apiParseJsonString_iff (by omega)).mpr ⟨text, h.scannedAs, hroom, rfl⟩

/-- Blanks before something else are skipped. -/
private theorem apiSkipSpaces_blank {w : List UInt8} (hw : JsonBlank w) {c : UInt8}
    (hc : isSpace c = false) (rest : Cursor) : apiSkipSpaces (w ++ c :: rest) = c :: rest := by
  have hall : ∀ d ∈ w, isSpace d = true := by
    intro d hd
    rcases hw d hd with rfl | rfl | rfl | rfl <;> decide
  unfold apiSkipSpaces
  rw [List.dropWhile_append_of_pos hall, List.dropWhile_cons_of_neg (by simp [hc])]

/-- Bytes that need no escape may stand for themselves. -/
theorem encodedAs_plain {q : List UInt8} (hq : ∀ c ∈ q, 32 ≤ c ∧ c ≠ 34 ∧ c ≠ 92) :
    EncodedAs q q := by
  induction q with
  | nil => exact .nil
  | cons c q ih =>
    obtain ⟨⟨hprintable, hquote, hbackslash⟩, hq⟩ := List.forall_mem_cons.mp hq
    exact .cons (.plain c hprintable hquote hbackslash) (ih hq)

/-- The query of a body. -/
theorem apiExtractQueryString_of_queryBody {q body : List UInt8} (h : QueryBody q body)
    (hq : q.length < size) : apiExtractQueryString size body = some q := by
  obtain ⟨w₀, w₁, w₂, w₃, w₄, w₅, text, h₀, h₁, h₂, h₃, -, -, htext, rfl⟩ := h
  unfold apiExtractQueryString
  rw [apiSkipSpaces_blank h₀ (by decide)]
  dsimp only
  rw [if_neg (by simp), List.drop_one, List.tail_cons]
  -- one round of the loop is enough
  obtain ⟨fuel, hfuel⟩ : ∃ fuel, (w₀ ++ byte '{' :: (w₁ ++ 34 :: (bytes "query" ++ 34 ::
      (w₂ ++ byte ':' :: (w₃ ++ 34 :: (text ++ 34 :: (w₄ ++ byte '}' :: w₅))))))).length =
      fuel + 1 :=
    Nat.exists_eq_add_one.mpr (List.length_pos_of_ne_nil (by simp))
  rw [hfuel, apiExtractLoop, if_neg (by simp), apiSkipSpaces_blank h₁ (by decide)]
  dsimp only
  rw [if_neg (by simp), apiParseJsonString_encoded (encodedAs_plain (by decide)) (by decide)]
  dsimp only
  rw [apiSkipSpaces_blank h₂ (by decide), if_neg (by simp), List.drop_one, List.tail_cons,
    apiSkipSpaces_blank h₃ (by decide), if_pos (by decide), apiParseJsonString_encoded htext hq]
  rfl

end Body

/-! ## The request -/

section Request

variable {lines : List (List UInt8)}

private theorem requestLine :
    0 ∉ bytes "POST /query HTTP/1.1" ∧ 13 ∉ bytes "POST /query HTTP/1.1" := by decide

/-- Where the header section of a request starts and ends. -/
theorem postRequest_search (hlines : ∀ l ∈ lines, IsHeaderLine l) (body : List UInt8) :
    strstr (postRequest lines body) crlf = some 20 ∧
      strstr (postRequest lines body) crlfCrlf = some (20 + (joinLines lines).length) :=
  httpMessage_search requestLine hlines body

theorem length_postRequest (lines : List (List UInt8)) (body : List UInt8) :
    (postRequest lines body).length = 20 + (joinLines lines).length + 4 + body.length :=
  length_httpMessage _ lines body

end Request

/-! ## Reading the request -/

section Reading

variable {size headerEnd : Nat} {request received : List UInt8} {chunks : List (List UInt8)}

/-- What follows the header section is read to its end. -/
private theorem httpServerReadLoop_rest (hsize : request.length < size)
    (hchunks : ∀ c ∈ chunks, c ≠ []) (hrest : received ++ chunks.flatten = request)
    (hlt : received.length < request.length) :
    httpServerReadLoop size (chunks.map .data) received (some request.length) =
      some (.ok request) := by
  -- the induction is on the chunks still to come; the loop ends with the one that completes the
  -- request
  induction chunks generalizing received with
  | nil =>
    rw [List.flatten_nil, List.append_nil] at hrest
    rw [hrest] at hlt
    exact absurd hlt (lt_irrefl _)
  | cons chunk chunks ih =>
    have hrest' : (received ++ chunk) ++ chunks.flatten = request := by
      rw [List.append_assoc, ← List.flatten_cons, hrest]
    have hlength := congrArg List.length hrest'
    rw [List.length_append, List.length_append] at hlength
    rw [List.map_cons, httpServerReadLoop, if_pos (by omega)]
    dsimp only
    rw [if_neg (not_or.mpr ⟨hchunks chunk (List.mem_cons_self ..), by omega⟩)]
    rw [List.length_append]
    split
    · -- the request is complete, and chunks are not empty, so this was the last one
      next hdone =>
      have hflat : chunks.flatten = [] := List.eq_nil_of_length_eq_zero (by omega)
      rw [hflat, List.append_nil] at hrest'
      rw [hrest']
    · exact ih (fun c hc => hchunks c (List.mem_cons_of_mem _ hc)) hrest'
        (by rw [List.length_append]; omega)

/-- A request is read to its end, however it is cut. -/
theorem httpServerReadLoop_chunks (hsize : request.length < size) (hmax : size < 2 ^ 64)
    (hend : strstr request crlfCrlf = some headerEnd)
    (hexpected : ∀ early, early <+: request → strstr early crlfCrlf = some headerEnd →
      httpServerExpectedTotal headerEnd early = request.length)
    (hchunks : ∀ c ∈ chunks, c ≠ []) (hrest : received ++ chunks.flatten = request)
    (hnone : strstr received crlfCrlf = none) :
    httpServerReadLoop size (chunks.map .data) received none = some (.ok request) := by
  -- the induction is on the chunks, as long as the end of the head has not come
  induction chunks generalizing received with
  | nil =>
    rw [List.flatten_nil, List.append_nil] at hrest
    rw [hrest, hend] at hnone
    cases hnone
  | cons chunk chunks ih =>
    have hrest' : (received ++ chunk) ++ chunks.flatten = request := by
      rw [List.append_assoc, ← List.flatten_cons, hrest]
    have hlength := congrArg List.length hrest'
    rw [List.length_append, List.length_append] at hlength
    have hpos := List.length_pos_of_ne_nil (hchunks chunk (List.mem_cons_self ..))
    have htail : ∀ c ∈ chunks, c ≠ [] := fun c hc => hchunks c (List.mem_cons_of_mem _ hc)
    rw [List.map_cons, httpServerReadLoop, if_pos (by omega)]
    dsimp only
    rw [if_neg (not_or.mpr ⟨hchunks chunk (List.mem_cons_self ..), by omega⟩)]
    cases hearly : strstr (received ++ chunk) crlfCrlf with
    | none => exact ih htail hrest' hearly
    | some found =>
      -- an end found in the bytes so far is the end found in the whole request
      obtain rfl : found = headerEnd := by
        have hsame := strstr_append hearly chunks.flatten
        rw [hrest', hend] at hsame
        exact (Option.some.inj hsame).symm
      dsimp only
      rw [hexpected _ ⟨_, hrest'⟩ hearly, Nat.mod_eq_of_lt (by omega), if_neg (by omega)]
      split
      · next hdone =>
        rw [List.length_append] at hdone
        have hflat : chunks.flatten = [] := List.eq_nil_of_length_eq_zero (by omega)
        rw [hflat, List.append_nil] at hrest'
        rw [hrest']
      · exact httpServerReadLoop_rest hsize htail hrest' (by omega)

end Reading

/-! ## The round trip -/

section RoundTrip

variable {lines : List (List UInt8)} {body : List UInt8}

/-- Once its header section is there, a request announces its own length. -/
theorem httpServerExpectedTotal_early (h : OneContentLength body.length lines)
    (hlt : (postRequest lines body).length < 2 ^ 64) {early : List UInt8}
    (hearly : early <+: postRequest lines body)
    (hend : strstr early crlfCrlf = some (20 + (joinLines lines).length)) :
    httpServerExpectedTotal (20 + (joinLines lines).length) early =
      (postRequest lines body).length := by
  have hhead : bytes "POST /query HTTP/1.1" ++ crlf ++ joinLines lines ++ crlf <+: early := by
    have hroom : 20 + (joinLines lines).length + 4 ≤ early.length := strstr_le hend
    have hlength := length_postRequest lines []
    rw [postRequest, List.append_nil, List.length_nil] at hlength
    exact List.prefix_of_prefix_length_le ⟨body, rfl⟩ hearly (by omega)
  obtain ⟨body', rfl⟩ := hhead
  -- what is there of the body does not matter
  have hlengths : contentLengths (postRequest lines body') = [body.length] :=
    h.contentLengths requestLine body'
  rw [postRequest] at hlengths
  rw [httpServerExpectedTotal, httpServerParseContentLength_eq, hlengths, List.headD_cons,
    length_postRequest, Nat.mod_eq_of_lt]
  rwa [length_postRequest] at hlt

/-- The words of the request line. -/
private theorem apiScanRequestLine_postRequest (lines : List (List UInt8)) (rest : List UInt8) :
    apiScanRequestLine (postRequest lines rest) = some (bytes "POST", bytes "/query") := by
  have heq : postRequest lines rest = bytes "POST" ++ byte ' ' :: (bytes "/query" ++ byte ' ' ::
      (bytes "HTTP/1.1" ++ 13 :: 10 :: (joinLines lines ++ crlf ++ rest))) := by
    simp only [postRequest, List.append_assoc]
    rfl
  unfold apiScanRequestLine
  rw [heq, scanWord_of_word (by decide) (by decide) (by decide) rfl]
  simp only [Option.bind_eq_bind, Option.bind_some]
  rw [scanWord_cstr, scanWord_space _ rfl, scanWord_of_word (by decide) (by decide) (by decide) rfl]
  simp only [Option.bind_some]
  rw [scanWord_cstr, scanWord_space _ rfl, scanWord_of_word (by decide) (by decide) (by decide) rfl]
  rfl

/-- The parser gets through the header section of a request. -/
theorem apiParseHead_postRequest {n : Nat} (h : OneContentLength n lines)
    (body : List UInt8) :
    apiParseHead (postRequest lines body) =
      .ok (⟨.post, bytes "/query", [], n⟩, 20 + (joinLines lines).length + 4) := by
  obtain ⟨hline, hend⟩ := postRequest_search (fun l hl => (h.header l hl).1) body
  have hleft : 20 + (joinLines lines).length - (20 + 2) = (joinLines lines).length - 2 := by omega
  obtain ⟨contentLength, hloop⟩ := apiHeaderLoop_joinLines (fun l hl => (h.header l hl).1)
    (le_refl ((joinLines lines).length - 2)) 0 (crlf ++ body)
  -- the one Content-Length line gives the length, every other line is passed over
  have hvalue : contentLength = n := by
    have hall := headerLines_joinLines h.header (le_refl ((joinLines lines).length - 2))
      (crlf ++ body)
    rw [apiHeaderLoop_eq hloop, hall, h.values]
    rfl
  unfold apiParseHead
  rw [hline]
  dsimp only
  rw [apiScanRequestLine_postRequest]
  dsimp only
  rw [if_neg (by decide), hend]
  dsimp only
  have hdrop : (postRequest lines body).drop (20 + 2) = joinLines lines ++ (crlf ++ body) :=
    drop_httpMessage (bytes "POST /query HTTP/1.1") lines body
  rw [hleft, hdrop, hloop, hvalue]
  rfl

/-- Every query comes through: for all ways to write it in JSON, all other header lines and
all cuts of the bytes, the reader gives the request and the parser gives the query. -/
theorem apiParseHttpRequest_of_postRequest {q body : List UInt8} (hbody : QueryBody q body)
    (hq : q.length ≤ 1023) {before after : List (List UInt8)} {line : List UInt8}
    (hbefore : ∀ l ∈ before, OtherHeader l) (hline : IsHeaderLine line)
    (hlength : ContentLengthHeader body.length line) (hafter : ∀ l ∈ after, OtherHeader l)
    (hfits : (postRequest (before ++ line :: after) body).length ≤ 8191)
    {chunks : List (List UInt8)} (hchunks : ∀ c ∈ chunks, c ≠ [])
    (hsent : chunks.flatten = postRequest (before ++ line :: after) body) :
    httpServerReadRequest (chunks.map .data) =
        some (.ok (postRequest (before ++ line :: after) body)) ∧
      ∀ rest, apiParseHttpRequest (postRequest (before ++ line :: after) body ++ 0 :: rest) =
        some (.ok ⟨.post, bytes "/query", q, body.length⟩) := by
  have htotal := length_postRequest (before ++ line :: after) body
  have hone := oneContentLength hbefore hline hlength hafter (by omega)
  generalize before ++ line :: after = lines at *
  obtain ⟨-, hend⟩ := postRequest_search (fun l hl => (hone.header l hl).1) body
  constructor
  · have hsize : (postRequest lines body).length < httpServerRequestBufferSize :=
      Nat.lt_succ_of_le hfits
    exact httpServerReadLoop_chunks hsize (by decide) hend
      (fun early => httpServerExpectedTotal_early hone (by omega)) hchunks hsent rfl
  · intro rest
    have happend : postRequest lines body ++ 0 :: rest = postRequest lines (body ++ 0 :: rest) := by
      simp only [postRequest, List.append_assoc]
    -- a body with a query is not empty, so the parser looks into it
    have hpos : body.length ≠ 0 := by
      obtain ⟨w₀, w₁, w₂, w₃, w₄, w₅, text, -, -, -, -, -, -, -, rfl⟩ := hbody
      simp
    have hdrop : (postRequest lines (body ++ 0 :: rest)).drop (20 + (joinLines lines).length + 4) =
        body ++ 0 :: rest := drop_httpMessage_body (bytes "POST /query HTTP/1.1") lines _
    rw [happend, apiParseHttpRequest, apiParseHead_postRequest hone]
    dsimp only
    rw [if_pos (by rfl), if_neg hpos, length_postRequest, List.length_append, if_neg (by omega),
      hdrop, List.take_left, apiExtractQueryString_of_queryBody hbody (by omega)]

/-- A query of three bytes in three pieces, cut in the end of the header section and in an
escape. -/
theorem apiParseHttpRequest_of_postRequest_pieces :
    let request := bytes
      "POST /query HTTP/1.1\r\nHost: a\r\ncontent-LENGTH: 18\r\n\r\n\x7b \"query\":\"a\\nb\"\x7d\n"
    let chunks := [bytes "POST /query HTTP/1.1\r\nHost: a\r\ncontent-LENGTH: 18\r\n\r",
      bytes "\n\x7b \"query\":\"a\\", bytes "nb\"\x7d\n"]
    httpServerReadRequest (chunks.map .data) = some (.ok request) ∧
      ∀ rest, apiParseHttpRequest (request ++ 0 :: rest) =
        some (.ok ⟨.post, bytes "/query", bytes "a\nb", 18⟩) := by
  intro request chunks
  have hbody : QueryBody (bytes "a\nb") (bytes "\x7b \"query\":\"a\\nb\"\x7d\n") :=
    ⟨[], [32], [], [], [], [10], bytes "a\\nb", by simp [JsonBlank], by simp [JsonBlank],
      by simp [JsonBlank], by simp [JsonBlank], by simp [JsonBlank],
      by unfold JsonBlank; decide,
      .cons (.plain _ (by decide) (by decide) (by decide)) (.cons .newline
        (.cons (.plain _ (by decide) (by decide) (by decide)) .nil)), rfl⟩
  have hline : IsHeaderLine (bytes "content-LENGTH: 18") := by
    unfold IsHeaderLine
    decide
  have hlength : ContentLengthHeader 18 (bytes "content-LENGTH: 18") :=
    ⟨bytes "content-LENGTH", [32], bytes "18", [], by decide, by unfold SameWord; decide,
      by decide, by decide, by decide, by decide⟩
  have hhost : OtherHeader (bytes "Host: a") := by
    refine ⟨by unfold IsHeaderLine; decide, ?_⟩
    intro name value hsplit _ hname
    -- the line is shorter than the name it should have
    have hlong : 14 = name.length := by
      have hmap := congrArg List.length hname
      rw [List.length_map, List.length_map] at hmap
      exact hmap.symm
    have hshort := congrArg List.length hsplit
    rw [List.length_append, ← hlong] at hshort
    have hseven : (bytes "Host: a").length = 7 := rfl
    omega
  have hrequest : request = postRequest ([bytes "Host: a"] ++ bytes "content-LENGTH: 18" :: [])
      (bytes "\x7b \"query\":\"a\\nb\"\x7d\n") := by decide +kernel
  have hsent : chunks.flatten = request := by decide +kernel
  have hfits : request.length ≤ 8191 := by decide +kernel
  have hchunks : ∀ c ∈ chunks, c ≠ [] := by decide +kernel
  rw [hrequest] at hsent hfits ⊢
  exact apiParseHttpRequest_of_postRequest hbody (by decide)
    (fun l hl => List.mem_singleton.mp hl ▸ hhost) hline hlength
    (fun l hl => absurd hl List.not_mem_nil) hfits hchunks hsent

end RoundTrip

end SqlApi.Server

import SqlApi.Server.HttpMessage
import SqlApi.Server.Response

/-!
# Responses as messages

`api_render_http_response` makes a message of a response. There is room for all of it, and a
client that reads the message as HTTP finds the body, and its length in the header section.

`SnprintfCall.Fits` is the condition under which a call writes the whole of its text.
-/

namespace SqlApi.Server

open SqlApi.Lib SqlApi.Core

/-! ## Calls of `snprintf` -/

/-- A call of `snprintf`: the size it is given, and the text it is to write. -/
structure SnprintfCall where
  size : Nat
  text : List UInt8

/-- The text and its terminator have room. -/
def SnprintfCall.Fits (call : SnprintfCall) : Prop := call.text.length < call.size

/-- There is room, so the text is written. -/
theorem snprintf_of_fits {size : Nat} {text : List UInt8} (h : text.length < size) :
    snprintf size text = text := List.take_of_length_le (by omega)

/-! ## Rendering -/

/-- `api_reason_phrase` -/
def apiReasonPhrase (statusCode : Int) : List UInt8 :=
  if statusCode = 200 then bytes "OK"
  else if statusCode = 400 then bytes "Bad Request"
  else if statusCode = 404 then bytes "Not Found"
  else if statusCode = 405 then bytes "Method Not Allowed"
  else if statusCode = 413 then bytes "Payload Too Large"
  else if statusCode = 500 then bytes "Internal Server Error"
  else if statusCode = 503 then bytes "Service Unavailable"
  else bytes "Error"

/-- The text of a response. -/
def apiHttpText (response : APIResponse) : List UInt8 :=
  bytes "HTTP/1.1 " ++ decimal response.statusCode ++ bytes " " ++
    apiReasonPhrase response.statusCode ++ bytes "\r\nContent-Type: " ++ response.contentType ++
    bytes "\r\nContent-Length: " ++ decimal (cstr response.body).length ++
    bytes "\r\nConnection: close\r\n\r\n" ++ cstr response.body

/-- `capacity` in `api_render_http_response`. -/
def apiHttpCapacity (response : APIResponse) : Nat := ((cstr response.body).length + 256) % 2 ^ 64

/-- `api_render_http_response`; `none` is the return value 0. -/
def apiRenderHttpResponse (response : APIResponse) : Prog (Option (List UInt8)) := do
  let capacity := apiHttpCapacity response
  if ← malloc then
    let written := snprintfReturn (apiHttpText response)
    if written < 0 ∨ capacity ≤ written.toNat then pure none
    else pure (some (snprintf capacity (apiHttpText response)))
  else pure none

/-! ## The message -/

/-- The call that renders a response. -/
def apiHttpCall (response : APIResponse) : SnprintfCall :=
  ⟨apiHttpCapacity response, apiHttpText response⟩

/-- A rendered response: nothing is cut off, the body is what follows the first empty line, and
the one content length is its length. -/
structure Rendered (response : APIResponse) (raw : List UInt8) : Prop where
  fits : (apiHttpCall response).Fits
  text : raw = apiHttpText response
  body : ∃ headerEnd, strstr raw crlfCrlf = some headerEnd ∧
    raw.drop (headerEnd + 4) = response.body
  contentLength : contentLengths raw = [response.body.length]

section Message

/-- The start line of a message. -/
def responseStart (statusCode : Int) : List UInt8 :=
  bytes "HTTP/1.1 " ++ decimal statusCode ++ bytes " " ++ apiReasonPhrase statusCode

/-- Its header lines. -/
def responseLines (contentType : List UInt8) (contentLength : Nat) : List (List UInt8) :=
  [bytes "Content-Type: " ++ contentType, bytes "Content-Length: " ++ decimal contentLength,
    bytes "Connection: close"]

theorem apiHttpText_eq (response : APIResponse) :
    apiHttpText response = httpMessage (responseStart response.statusCode)
      (responseLines response.contentType (cstr response.body).length) (cstr response.body) := by
  -- the fixed texts of the format, cut at their line ends
  have hlines : bytes "\r\nContent-Type: " = crlf ++ bytes "Content-Type: " ∧
      bytes "\r\nContent-Length: " = crlf ++ bytes "Content-Length: " ∧
      bytes "\r\nConnection: close\r\n\r\n" = crlf ++ bytes "Connection: close" ++ crlf ++ crlf := by
    decide
  unfold apiHttpText httpMessage responseStart responseLines joinLines
  rw [hlines.1, hlines.2.1, hlines.2.2]
  simp only [List.flatMap_cons, List.flatMap_nil, List.append_nil, List.append_assoc]

/-- A reason phrase is short, and in one line. -/
private theorem apiReasonPhrase_line (statusCode : Int) :
    (apiReasonPhrase statusCode).length ≤ 21 ∧ 0 ∉ apiReasonPhrase statusCode ∧
      13 ∉ apiReasonPhrase statusCode := by
  unfold apiReasonPhrase
  split_ifs <;> decide

theorem responseStart_line (statusCode : Int) :
    0 ∉ responseStart statusCode ∧ 13 ∉ responseStart statusCode := by
  obtain ⟨-, hzero, hcr⟩ := apiReasonPhrase_line statusCode
  have hfixed : (0 ∉ bytes "HTTP/1.1 " ∧ 13 ∉ bytes "HTTP/1.1 ") ∧
      0 ∉ bytes " " ∧ 13 ∉ bytes " " := by decide
  have hcode : 0 ∉ decimal statusCode ∧ 13 ∉ decimal statusCode :=
    ⟨notMem_decimal (by decide) _, notMem_decimal (by decide) _⟩
  unfold responseStart
  simp only [List.mem_append, not_or]
  exact ⟨⟨⟨⟨hfixed.1.1, hcode.1⟩, hfixed.2.1⟩, hzero⟩, ⟨⟨⟨hfixed.1.2, hcode.2⟩, hfixed.2.2⟩, hcr⟩⟩

/-- One of the header lines tells the length of the body. -/
theorem responseLines_oneContentLength {n : Nat} (hn : n < 2 ^ 64) :
    OneContentLength n (responseLines apiContentType n) := by
  have hother {line : List UInt8} (hline : IsHeaderLine line)
      (hname : ¬ SameWord contentLengthName (line.takeWhile (· != byte ':'))) :
      ∀ l ∈ [line], OtherHeader l := by
    intro l hl
    rw [List.mem_singleton.mp hl]
    exact otherHeader_of_name hline hname
  have hline {c : UInt8} (hc : isDigit c = false ∧ c ≠ 45) (hname : c ∉ bytes "Content-Length: ") :
      c ∉ bytes "Content-Length: " ++ decimal n := by
    rw [List.mem_append, not_or]
    exact ⟨hname, notMem_decimal hc _⟩
  -- the length is written in digits, behind the name the reader looks for
  have hlength : ContentLengthHeader n (bytes "Content-Length: " ++ decimal n) := by
    obtain ⟨digits, hne, hdigits, -, hvalue, hdecimal⟩ := decimal_spec n
    rw [if_neg (by omega), List.nil_append] at hdecimal
    rw [hdecimal]
    refine ⟨bytes "Content-Length", [32], digits, [], ?_, ?_, ?_, hne, hdigits, hvalue⟩
    · rw [List.append_nil]
      rfl
    · unfold SameWord
      decide
    · exact fun c hc => .inl (List.mem_singleton.mp hc)
  change OneContentLength n ([bytes "Content-Type: " ++ apiContentType] ++
    (bytes "Content-Length: " ++ decimal n) :: [bytes "Connection: close"])
  unfold SameWord IsHeaderLine at hother
  refine oneContentLength (hother (by decide) (by decide)) ⟨?_, ?_⟩ hlength
    (hother (by decide) (by decide)) hn
  · simp [bytes]
  · exact ⟨hline (by decide) (by decide), hline (by decide) (by decide),
      hline (by decide) (by decide)⟩

/-- What stands before the body has less than 256 bytes. -/
private theorem length_apiHttpText {response : APIResponse} (hstatus : IsInt response.statusCode)
    (htype : response.contentType = apiContentType)
    (hbody : (cstr response.body).length < 10 ^ 20) :
    (apiHttpText response).length < (cstr response.body).length + 256 := by
  have hcode := length_decimal_int hstatus
  obtain ⟨hreason, -⟩ := apiReasonPhrase_line response.statusCode
  -- a length below 2^64 has at most twenty digits, which the 256 extra bytes hold
  have hlength := length_decimal_le (n := (cstr response.body).length) (k := 20) (by decide)
    (by omega)
  rw [if_neg (by omega)] at hlength
  have hfixed : (bytes "HTTP/1.1 ").length = 9 ∧ (bytes " ").length = 1 ∧
      (bytes "\r\nContent-Type: ").length = 16 ∧ apiContentType.length = 31 ∧
      (bytes "\r\nContent-Length: ").length = 18 ∧
      (bytes "\r\nConnection: close\r\n\r\n").length = 23 := by decide
  unfold apiHttpText
  rw [htype]
  simp only [List.length_append]
  omega

/-- A response without a terminator in its body is rendered completely. -/
theorem run_apiRenderHttpResponse {m : Memory} (hok : m.NoFailure) {response : APIResponse}
    (hstatus : IsInt response.statusCode) (htype : response.contentType = apiContentType)
    (hbody : 0 ∉ response.body) (hsize : (apiHttpText response).length < 2 ^ 31) :
    (apiRenderHttpResponse response).run m = some (some (apiHttpText response), m) ∧
      Rendered response (apiHttpText response) := by
  have hself : cstr response.body = response.body := cstr_eq_self hbody
  have htext := apiHttpText_eq response
  rw [htype, hself] at htext
  have hlength : response.body.length < 2 ^ 31 := by
    rw [htext, length_httpMessage] at hsize
    omega
  -- the capacity is computed without overflow
  have hcapacity : apiHttpCapacity response = response.body.length + 256 := by
    rw [apiHttpCapacity, hself, Nat.mod_eq_of_lt (by omega)]
  have hfits : (apiHttpText response).length < apiHttpCapacity response := by
    rw [hcapacity, ← hself]
    exact length_apiHttpText hstatus htype (hself.symm ▸ by omega)
  have hlines := responseLines_oneContentLength (by omega : response.body.length < 2 ^ 64)
  have hstart := responseStart_line response.statusCode
  refine ⟨?_, hfits, rfl, ?_, ?_⟩
  · unfold apiRenderHttpResponse
    rw [run_bind_of (run_malloc_of hok)]
    dsimp only
    rw [if_pos rfl, snprintfReturn, if_pos hsize, if_neg (by omega), snprintf_of_fits hfits]
    rfl
  · rw [htext]
    exact ⟨_, (httpMessage_search hstart (fun l hl => (hlines.header l hl).1) _).2,
      drop_httpMessage_body _ _ _⟩
  · rw [htext]
    exact hlines.contentLengths hstart _

end Message

end SqlApi.Server

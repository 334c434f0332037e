import SqlApi.Server.HttpRequest

/-!
# The request line

`api_parse_http_request` finds the end of the first line, but `sscanf` reads its three words
from the whole buffer, and not more bytes of each than its buffer has. So the words are those of
the first line exactly when the line has three of them and each of them fits.

`words` are the words of the first line, as HTTP has them. `sscanf` reads three words from wherever
they stand, each up to the width of its buffer.
-/

namespace SqlApi.Server

open SqlApi.Lib SqlApi.Core

/-- The text before the first CRLF. -/
def apiFirstLine (rawRequest : List UInt8) : List UInt8 :=
  match strstr rawRequest crlf with
  | none => []
  | some lineEnd => rawRequest.take lineEnd

/-- The method that a word stands for. -/
def apiMethod (word : List UInt8) : APIRequestMethod :=
  if word = bytes "GET" then .get else if word = bytes "POST" then .post else .unknown

/-- The words of the request line fit `method[8]`, `path[64]` and `version[16]`. -/
def FittingLine (words : List (List UInt8)) : Prop :=
  ∃ method path version more, words = method :: path :: version :: more ∧
    method.length ≤ 7 ∧ path.length ≤ 63 ∧ version.length ≤ 15

/-- A request that was read from its first line alone: the line has three words, none is longer
than its buffer, the method is that of the whole first word, and the path is the whole second
word. -/
def FromFirstLine (words : List (List UInt8)) (request : APIRequest) : Prop :=
  ∃ method path version more, words = method :: path :: version :: more ∧
    method.length ≤ 7 ∧ path.length ≤ 63 ∧ version.length ≤ 15 ∧
    request.method = apiMethod method ∧ request.path = path

section RequestLine

variable {memory : List UInt8} {request : APIRequest}

/-- The first line, its end, and what follows. -/
theorem apiFirstLine_spec {lineEnd : Nat} (h : strstr memory crlf = some lineEnd) :
    0 ∉ apiFirstLine memory ∧ ∃ rest, memory = apiFirstLine memory ++ (crlf ++ rest) := by
  have hline : apiFirstLine memory = memory.take lineEnd := by
    unfold apiFirstLine
    rw [h]
  rw [hline]
  exact strstr_split h

/-- Three words that fit are read from the first line. -/
theorem apiScanRequestLine_of_fitting {lineEnd : Nat} (hend : strstr memory crlf = some lineEnd)
    {method path version : List UInt8} {more : List (List UInt8)}
    (hwords : words (apiFirstLine memory) = method :: path :: version :: more)
    (hmethod : method.length ≤ 7) (hpath : path.length ≤ 63) (hversion : version.length ≤ 15) :
    apiScanRequestLine memory = some (method, path) := by
  obtain ⟨hzero, rest, hmemory⟩ := apiFirstLine_spec hend
  -- the first line ends at the CRLF, and words that fit are read as a whole
  have htail : isSpace (peek (crlf ++ rest)) = true := rfl
  obtain ⟨line₁, hwords₁, hzero₁, hscan₁⟩ := scanWord_of_words hwords hmethod hzero htail
  obtain ⟨line₂, hwords₂, hzero₂, hscan₂⟩ := scanWord_of_words hwords₁ hpath hzero₁ htail
  obtain ⟨line₃, -, -, hscan₃⟩ := scanWord_of_words hwords₂ hversion hzero₂ htail
  rw [← hmemory] at hscan₁
  unfold apiScanRequestLine
  simp only [hscan₁, Option.bind_eq_bind, Option.bind_some, scanWord_cstr, hscan₂, hscan₃]
  rfl

/-- Method and path of a request that is accepted are words that `sscanf` has read. -/
theorem apiParseHttpRequest_words (h : apiParseHttpRequest memory = some (.ok request)) :
    ∃ lineEnd method path, strstr memory crlf = some lineEnd ∧
      apiScanRequestLine memory = some (method, path) ∧ request.method = apiMethod method ∧
      request.path = path := by
  obtain ⟨parsed, body, hhead, hmethod, hpath⟩ : ∃ parsed body,
      apiParseHead memory = .ok (parsed, body) ∧ request.method = parsed.method ∧
        request.path = parsed.path := by
    unfold apiParseHttpRequest at h
    split at h
    · cases h
    next parsed body hhead =>
      refine ⟨parsed, body, hhead, ?_⟩
      split at h
      · split at h
        · cases h
        split at h
        · cases h
        split at h
        · cases h
        · obtain rfl := Except.ok.inj (Option.some.inj h)
          exact ⟨rfl, rfl⟩
      · obtain rfl := Except.ok.inj (Option.some.inj h)
        exact ⟨rfl, rfl⟩
  rw [hmethod, hpath]
  -- every other branch of the head is an error
  unfold apiParseHead at hhead
  split at hhead
  · cases hhead
  next lineEnd hline =>
    split at hhead
    · cases hhead
    next method path hscan =>
      refine ⟨lineEnd, method, path, hline, hscan, ?_⟩
      split at hhead
      · cases hhead
      dsimp only at hhead
      split at hhead
      · cases hhead
      split at hhead
      · cases hhead
      · obtain ⟨rfl, -⟩ := Prod.mk.inj (Except.ok.inj hhead)
        exact ⟨rfl, rfl⟩

end RequestLine

/-- The request line comes from the first line if and only if the line has three words that fit:
for every buffer that is accepted. -/
theorem apiParseHttpRequest_fromFirstLine_iff {memory : List UInt8} {request : APIRequest}
    (h : apiParseHttpRequest memory = some (.ok request)) :
    FromFirstLine (words (apiFirstLine memory)) request ↔
      FittingLine (words (apiFirstLine memory)) := by
  obtain ⟨lineEnd, method, path, hend, hscan, hmethod, hpath⟩ := apiParseHttpRequest_words h
  constructor
  · rintro ⟨method', path', version, more, hwords, hfits₁, hfits₂, hfits₃, -, -⟩
    exact ⟨method', path', version, more, hwords, hfits₁, hfits₂, hfits₃⟩
  · rintro ⟨method', path', version, more, hwords, hfits₁, hfits₂, hfits₃⟩
    -- what was scanned is one pair, so it is that of the first line
    have hscan' := apiScanRequestLine_of_fitting hend hwords hfits₁ hfits₂ hfits₃
    rw [hscan] at hscan'
    obtain ⟨rfl, rfl⟩ := Prod.mk.inj (Option.some.inj hscan')
    exact ⟨method, path, version, more, hwords, hfits₁, hfits₂, hfits₃, hmethod, hpath⟩

/-- A request for `/health`. -/
theorem apiParseHttpRequest_fromFirstLine_iff_health :
    let memory := bytes "GET /health HTTP/1.1\r\n\r\n" ++ [0]
    let request : APIRequest := ⟨.get, bytes "/health", [], 0⟩
    FromFirstLine (words (apiFirstLine memory)) request ↔
      FittingLine (words (apiFirstLine memory)) := by
  intro memory request
  have h : apiParseHttpRequest memory = some (.ok request) := by decide
  exact apiParseHttpRequest_fromFirstLine_iff h

/-- A first line of two words is completed with the name of a header. -/
theorem apiParseHttpRequest_twoWords :
    let memory := bytes "GET /health\r\nHost: x\r\n\r\n" ++ [0]
    let request : APIRequest := ⟨.get, bytes "/health", [], 0⟩
    apiParseHttpRequest memory = some (.ok request) ∧
      ¬ FromFirstLine (words (apiFirstLine memory)) request := by
  intro memory request
  refine ⟨by decide, ?_⟩
  have hwords : words (apiFirstLine memory) = [bytes "GET", bytes "/health"] := by decide
  rw [hwords]
  rintro ⟨method, path, version, more, heq, -⟩
  cases heq

end SqlApi.Server

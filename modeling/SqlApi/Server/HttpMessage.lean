import SqlApi.Server.BodyWindow

/-!
# HTTP messages

A start line, header lines, an empty line and a body. The header section ends at the first
empty line whatever the body is, and the content lengths in it are those of the header lines.

Both readers of header lines, the one of `http_server.c` and the one of `api.c`, find the lines that
the message was made of. A header other than Content-Length gives them nothing (`OtherHeader`).
-/

namespace SqlApi.Server

open SqlApi.Lib SqlApi.Core

/-- A header line: not empty, and in one line. -/
def IsHeaderLine (line : List UInt8) : Prop := line ≠ [] ∧ 0 ∉ line ∧ 13 ∉ line ∧ 10 ∉ line

/-- A header line that is no content length. -/
def OtherHeader (line : List UInt8) : Prop :=
  IsHeaderLine line ∧ ∀ name value, line = name ++ byte ':' :: value → byte ':' ∉ name →
    ¬ SameWord contentLengthName name

/-- A header line with this content length: the name in any letter case, spaces and tabs
around the digits. -/
def ContentLengthHeader (n : Nat) (line : List UInt8) : Prop :=
  ∃ name before digits after : List UInt8,
    line = name ++ byte ':' :: (before ++ digits ++ after) ∧ SameWord contentLengthName name ∧
    (∀ c ∈ before ++ after, c = 32 ∨ c = byte '\t') ∧
    digits ≠ [] ∧ (∀ d ∈ digits, isDigit d = true) ∧ digitsValue digits = n

/-- Lines, each with its end. -/
def joinLines (lines : List (List UInt8)) : List UInt8 := lines.flatMap fun line => line ++ crlf

/-- A message with this start line, these header lines and this body. -/
def httpMessage (start : List UInt8) (lines : List (List UInt8)) (body : List UInt8) : List UInt8 :=
  start ++ crlf ++ joinLines lines ++ crlf ++ body

/-! ## The header section -/

section Headers

variable {line : List UInt8} {lines : List (List UInt8)}

/-- The end of a line without a carriage return in it. -/
private theorem findSub_crlf (hline : 13 ∉ line) (rest : List UInt8) :
    findSub crlf (line ++ crlf ++ rest) = some line.length := by
  rw [List.append_assoc, findSub_skip hline, findSub_self, Option.map_some, Nat.add_zero]

/-- The end of the header section is the end of the last line. -/
private theorem findSub_crlfCrlf (hline : 13 ∉ line) (hlines : ∀ l ∈ lines, l ≠ [] ∧ 13 ∉ l)
    (rest : List UInt8) :
    findSub crlfCrlf (line ++ crlf ++ joinLines lines ++ crlf ++ rest) =
      some (line.length + (joinLines lines).length) := by
  induction lines generalizing line with
  | nil =>
    have heq : line ++ crlf ++ joinLines [] ++ crlf ++ rest = line ++ (crlfCrlf ++ rest) := by
      simp [joinLines]
    rw [heq, findSub_skip hline, findSub_self]
    rfl
  | cons next lines ih =>
    obtain ⟨hne, hnext⟩ := hlines next (List.mem_cons_self ..)
    have hrest : ∀ l ∈ lines, l ≠ [] ∧ 13 ∉ l := fun l hl => hlines l (List.mem_cons_of_mem _ hl)
    have hten : 13 ∉ (10 :: next : List UInt8) := by
      rw [List.mem_cons, not_or]
      exact ⟨by decide, hnext⟩
    have heq : line ++ crlf ++ joinLines (next :: lines) ++ crlf ++ rest =
        line ++ 13 :: ((10 :: next) ++ crlf ++ joinLines lines ++ crlf ++ rest) := by
      simp [joinLines]
    -- the next line is not empty, so this end of line is not followed by another
    have hnot : ¬ crlfCrlf <+: 13 :: ((10 :: next) ++ crlf ++ joinLines lines ++ crlf ++ rest) := by
      obtain ⟨c, next', rfl⟩ := List.exists_cons_of_ne_nil hne
      rw [List.mem_cons, not_or] at hnext
      simp [hnext.1]
    rw [heq, findSub_skip hline, findSub_cons, if_neg hnot, ih hten hrest]
    simp only [Option.map_some, Option.some.injEq, joinLines, List.flatMap_cons,
      List.length_append, List.length_cons, List.length_nil]
    omega

/-- The values that lines contribute, whatever follows them. -/
def LineValue (line : List UInt8) (value : Option Nat) : Prop :=
  ∀ rest, contentLengthOf (line.length, line ++ 13 :: rest) = value

theorem apiHeaderNameEquals_iff (name : List UInt8) :
    apiHeaderNameEquals name contentLengthName = true ↔ SameWord contentLengthName name := by
  unfold apiHeaderNameEquals headerNameEquals SameWord
  simp only [Bool.and_eq_true, beq_iff_eq, and_iff_right_iff_imp]
  intro h
  have hlength := congrArg List.length h
  rwa [List.length_map, List.length_map] at hlength

/-- The name of a line is what stands before its first colon. -/
theorem otherHeader_of_name (hline : IsHeaderLine line)
    (hname : ¬ SameWord contentLengthName (line.takeWhile (· != byte ':'))) : OtherHeader line := by
  refine ⟨hline, ?_⟩
  rintro name value rfl hcolon hsame
  refine hname ?_
  -- the name of the line is what stands before its first colon
  have hall : ∀ c ∈ name, (c != byte ':') = true := by
    intro c hc
    have hne : c ≠ byte ':' := fun h => hcolon (h ▸ hc)
    simpa using hne
  rwa [List.takeWhile_append_of_pos hall, List.takeWhile_cons_of_neg (by simp), List.append_nil]

theorem OtherHeader.value (h : OtherHeader line) : LineValue line none := by
  intro rest
  unfold contentLengthOf
  dsimp only
  rw [List.take_left, Option.map_eq_none_iff, Option.filter_eq_none_iff]
  intro colon hcolon
  obtain ⟨hname, hsplit⟩ := memchr_eq_some_iff.mp hcolon
  rw [List.take_append_of_le_length (memchr_lt hcolon).le, apiHeaderNameEquals_iff]
  exact h.2 _ _ hsplit hname

theorem ContentLengthHeader.value {n : Nat} (h : ContentLengthHeader n line) (hn : n < 2 ^ 64) :
    LineValue line (some n) := by
  obtain ⟨name, before, digits, after, rfl, hname, hblank, hne, hdigits, rfl⟩ := h
  intro rest
  -- the name is that word in some case, so it holds no colon
  have hcolon : byte ':' ∉ name := by
    intro hmem
    have hlower : toLower (byte ':') ∈ contentLengthName.map toLower := by
      rw [← hname]
      exact List.mem_map_of_mem hmem
    revert hlower
    decide
  have hspace : ∀ c ∈ before, isSpace c = true := by
    intro c hc
    rcases hblank c (List.mem_append_left _ hc) with rfl | rfl <;> decide
  -- the digits end with a blank or at the line end
  have hafter : isDigit (peek (after ++ 13 :: rest)) = false := by
    cases after with
    | nil => rfl
    | cons c after =>
      rcases hblank c (List.mem_append_right _ (List.mem_cons_self ..)) with rfl | rfl <;> rfl
  have hdrop : (name ++ byte ':' :: (before ++ digits ++ after) ++ 13 :: rest).drop
      (name.length + 1) = before ++ (digits ++ (after ++ 13 :: rest)) := by
    rw [List.append_assoc, List.cons_append, List.append_cons, List.drop_left' (by simp)]
    simp only [List.append_assoc]
  unfold contentLengthOf
  dsimp only
  rw [List.take_left, memchr_append hcolon, Option.filter_some, List.append_assoc,
    List.take_left, if_pos ((apiHeaderNameEquals_iff name).mpr hname), ← List.append_assoc,
    Option.map_some, hdrop, strtoul_of_digits hspace hne hdigits hafter hn]

variable {value : List UInt8 → Option Nat}

private theorem strstr_crlf (hline : 0 ∉ line ∧ 13 ∉ line) (rest : List UInt8) :
    strstr (line ++ crlf ++ rest) crlf = some line.length := by
  have hzero : 0 ∉ line ++ crlf := by simp [hline.1]
  rw [strstr, cstr_eq_append hzero]
  exact findSub_crlf hline.2 _

private theorem joinLines_cons (line : List UInt8) (lines : List (List UInt8))
    (rest : List UInt8) :
    joinLines (line :: lines) ++ rest = line ++ crlf ++ (joinLines lines ++ rest) := by
  simp [joinLines]

private theorem length_joinLines_cons (line : List UInt8) (lines : List (List UInt8)) :
    (joinLines (line :: lines)).length = line.length + 2 + (joinLines lines).length := by
  simp [joinLines]
  omega

private theorem drop_line (line rest : List UInt8) :
    (line ++ crlf ++ rest).drop (line.length + 2) = rest :=
  List.drop_left' (by simp)

/-- Lines, and their values. -/
theorem headerLines_joinLines (hlines : ∀ l ∈ lines, IsHeaderLine l ∧ LineValue l (value l))
    {fuel : Nat} (hfuel : (joinLines lines).length - 2 ≤ fuel) (rest : List UInt8) :
    (headerLines fuel (joinLines lines ++ rest) ((joinLines lines).length - 2)).filterMap
      contentLengthOf = lines.filterMap value := by
  -- the induction is on the lines: one round of the reader takes one line
  induction lines generalizing fuel with
  | nil => cases fuel <;> rfl
  | cons line lines ih =>
    obtain ⟨⟨hne, hzero, hcr, -⟩, hvalue⟩ := hlines line (List.mem_cons_self ..)
    have hpos := List.length_pos_of_ne_nil hne
    rw [length_joinLines_cons] at hfuel ⊢
    obtain ⟨fuel, rfl⟩ : ∃ k, fuel = k + 1 := Nat.exists_eq_add_one.mpr (by omega)
    have hleft : line.length + 2 + (joinLines lines).length - 2 - (line.length + 2) =
        (joinLines lines).length - 2 := by omega
    have hhead : contentLengthOf (line.length, line ++ crlf ++ (joinLines lines ++ rest)) =
        value line := by
      rw [List.append_assoc]
      exact hvalue _
    rw [joinLines_cons, headerLines, if_pos (by omega), strstr_crlf ⟨hzero, hcr⟩]
    dsimp only
    rw [if_neg (by omega), List.filterMap_cons, hhead, drop_line, hleft,
      ih (fun l hl => hlines l (List.mem_cons_of_mem _ hl)) (by omega), List.filterMap_cons]

/-- The header loop gets through complete lines. -/
theorem apiHeaderLoop_joinLines (hlines : ∀ l ∈ lines, IsHeaderLine l) {fuel : Nat}
    (hfuel : (joinLines lines).length - 2 ≤ fuel) (init : Nat) (rest : List UInt8) :
    ∃ contentLength, apiHeaderLoop fuel (joinLines lines ++ rest)
      ((joinLines lines).length - 2) init = .ok contentLength := by
  -- the induction is on the lines: every line ends within the head
  induction lines generalizing fuel init with
  | nil => cases fuel <;> exact ⟨init, rfl⟩
  | cons line lines ih =>
    obtain ⟨hne, hzero, hcr, -⟩ := hlines line (List.mem_cons_self ..)
    have hpos := List.length_pos_of_ne_nil hne
    rw [length_joinLines_cons] at hfuel ⊢
    obtain ⟨fuel, rfl⟩ : ∃ k, fuel = k + 1 := Nat.exists_eq_add_one.mpr (by omega)
    have hleft : line.length + 2 + (joinLines lines).length - 2 - (line.length + 2) =
        (joinLines lines).length - 2 := by omega
    rw [joinLines_cons, apiHeaderLoop, if_pos (by omega), strstr_crlf ⟨hzero, hcr⟩]
    dsimp only
    rw [if_neg (by omega), drop_line, hleft]
    exact ih (fun l hl => hlines l (List.mem_cons_of_mem _ hl)) (by omega) _

/-! ## The message -/

section Message

variable {start : List UInt8}

/-- Where the header section of a message starts and ends. -/
theorem httpMessage_search (hstart : 0 ∉ start ∧ 13 ∉ start) (hlines : ∀ l ∈ lines, IsHeaderLine l)
    (body : List UInt8) :
    strstr (httpMessage start lines body) crlf = some start.length ∧
      strstr (httpMessage start lines body) crlfCrlf =
        some (start.length + (joinLines lines).length) := by
  -- no zero byte stands before the body, so the search sees the whole head
  have hjoin : 0 ∉ joinLines lines := by
    intro h
    obtain ⟨line, hline, hzero⟩ := List.mem_flatMap.mp h
    rcases List.mem_append.mp hzero with hzero | hzero
    · exact (hlines line hline).2.1 hzero
    · revert hzero
      decide
  constructor
  · have heq : httpMessage start lines body =
        start ++ crlf ++ (joinLines lines ++ (crlf ++ body)) := by
      simp only [httpMessage, List.append_assoc]
    rw [heq, strstr_crlf hstart]
  · have hzero : 0 ∉ start ++ crlf ++ joinLines lines ++ crlf := by
      simp only [List.mem_append, not_or]
      exact ⟨⟨⟨hstart.1, by decide⟩, hjoin⟩, by decide⟩
    rw [strstr, httpMessage, cstr_eq_append hzero, findSub_crlfCrlf hstart.2
      fun l hl => ⟨(hlines l hl).1, (hlines l hl).2.2.1⟩]

/-- What follows the start line. -/
theorem drop_httpMessage (start : List UInt8) (lines : List (List UInt8)) (body : List UInt8) :
    (httpMessage start lines body).drop (start.length + 2) =
      joinLines lines ++ (crlf ++ body) := by
  have heq : httpMessage start lines body =
      (start ++ crlf) ++ (joinLines lines ++ (crlf ++ body)) := by
    simp only [httpMessage, List.append_assoc]
  rw [heq]
  exact List.drop_left' (by simp)

theorem length_httpMessage (start : List UInt8) (lines : List (List UInt8)) (body : List UInt8) :
    (httpMessage start lines body).length =
      start.length + (joinLines lines).length + 4 + body.length := by
  simp only [httpMessage, List.length_append, List.length_cons, List.length_nil]
  omega

/-- What follows the header section. -/
theorem drop_httpMessage_body (start : List UInt8) (lines : List (List UInt8))
    (body : List UInt8) :
    (httpMessage start lines body).drop (start.length + (joinLines lines).length + 4) = body := by
  have hhead := length_httpMessage start lines []
  rw [httpMessage, List.append_nil, List.length_nil] at hhead
  rw [httpMessage, List.drop_left' hhead]

/-- The content lengths of a message are those of its lines. -/
private theorem contentLengths_httpMessage (hstart : 0 ∉ start ∧ 13 ∉ start)
    (hlines : ∀ l ∈ lines, IsHeaderLine l ∧ LineValue l (value l)) (body : List UInt8) :
    contentLengths (httpMessage start lines body) = lines.filterMap value := by
  obtain ⟨hline, hend⟩ := httpMessage_search hstart (fun l hl => (hlines l hl).1) body
  have hleft : start.length + (joinLines lines).length - (start.length + 2) =
      (joinLines lines).length - 2 := by omega
  rw [contentLengths, hline, hend]
  dsimp only
  rw [hleft, drop_httpMessage, headerLines_joinLines hlines le_rfl]

/-- The value of a line, as it stands alone. -/
def lineValue (line : List UInt8) : Option Nat := contentLengthOf (line.length, line ++ [13])

private theorem LineValue.eq {v : Option Nat} (h : LineValue line v) : lineValue line = v := h []

/-- Header lines with one content length. -/
structure OneContentLength (n : Nat) (lines : List (List UInt8)) : Prop where
  header : ∀ l ∈ lines, IsHeaderLine l ∧ LineValue l (lineValue l)
  values : lines.filterMap lineValue = [n]

theorem oneContentLength {n : Nat} {before after : List (List UInt8)} {line : List UInt8}
    (hbefore : ∀ l ∈ before, OtherHeader l) (hline : IsHeaderLine line)
    (hlength : ContentLengthHeader n line) (hafter : ∀ l ∈ after, OtherHeader l)
    (hn : n < 2 ^ 64) : OneContentLength n (before ++ line :: after) := by
  -- the other lines give no length
  have hother (l : List UInt8) (hl : OtherHeader l) :
      LineValue l (lineValue l) ∧ lineValue l = none := by
    have hvalue := hl.value
    exact ⟨hvalue.eq.symm ▸ hvalue, hvalue.eq⟩
  have hself := hlength.value hn
  constructor
  · intro l hl
    rcases List.mem_append.mp hl with hl | hl
    · exact ⟨(hbefore l hl).1, (hother l (hbefore l hl)).1⟩
    · rcases List.mem_cons.mp hl with rfl | hl
      · exact ⟨hline, hself.eq.symm ▸ hself⟩
      · exact ⟨(hafter l hl).1, (hother l (hafter l hl)).1⟩
  · have hnone {ls : List (List UInt8)} (hls : ∀ l ∈ ls, OtherHeader l) :
        ls.filterMap lineValue = [] :=
      List.filterMap_eq_nil_iff.mpr fun l hl => (hother l (hls l hl)).2
    rw [List.filterMap_append, hnone hbefore, List.filterMap_cons, hself.eq, hnone hafter]
    rfl

theorem OneContentLength.contentLengths {n : Nat} (h : OneContentLength n lines)
    (hstart : 0 ∉ start ∧ 13 ∉ start) (body : List UInt8) :
    contentLengths (httpMessage start lines body) = [n] :=
  (contentLengths_httpMessage hstart h.header body).trans h.values

end Message

end Headers

end SqlApi.Server

import SqlApi.Server.HttpMessage

/-!
# The first content length of a header section

`http_server_parse_content_length` looks for the name within a line, but reads the number
from the colon on to wherever `strtoul` stops. After a value of nothing but whitespace that
is behind the header section: in the body, as far as it has arrived.

`LengthRunsOn` says of a text that its first such header has a value of this kind and that digits
follow in the body. Only then does the number depend on how much of the body has arrived.
-/

namespace SqlApi.Server

open SqlApi.Lib SqlApi.Core

/-- A header line of this section has the name of a content length; `value` is what follows
its colon, up to the end of the section. -/
def LengthValue (head value : List UInt8) : Prop :=
  ∃ before name : List UInt8, head = before ++ crlf ++ (name ++ byte ':' :: value) ∧
    SameWord contentLengthName name

/-- The value of the first content length. -/
def FirstLengthValue (head value : List UInt8) : Prop :=
  LengthValue head value ∧ ∀ v, LengthValue head v → v.length ≤ value.length

/-- The first content length is blank up to the end of the section, and the body starts with
a number other than zero. -/
def LengthRunsOn (head body : List UInt8) : Prop :=
  ∃ value, FirstLengthValue head value ∧ Blank value ∧ (strtoul body).1 ≠ 0

section FirstLength

variable {head line name value : List UInt8}

theorem LengthValue.length_lt (h : LengthValue head value) : value.length + 17 ≤ head.length := by
  obtain ⟨before, name, rfl, hname⟩ := h
  have hlength : name.length = 14 := hname.length_eq
  simp only [List.length_append, List.length_cons, List.length_nil]
  omega

/-- Nothing in the name of a content length ends the name or the line. -/
private theorem lengthName_clear (hname : SameWord contentLengthName name) :
    byte ':' ∉ name ∧ 13 ∉ name := by
  have hlower (c : UInt8) (hc : c ∈ name) : toLower c ∈ contentLengthName.map toLower :=
    hname ▸ List.mem_map_of_mem hc
  constructor
  · intro hc
    have hmem := hlower _ hc
    revert hmem
    decide
  · intro hc
    have hmem := hlower _ hc
    revert hmem
    decide

/-- Behind the end of a line: the next line, or one of those after it. -/
private theorem lengthValue_crlf_append :
    LengthValue (crlf ++ line) value ↔
      (∃ name, line = name ++ byte ':' :: value ∧ SameWord contentLengthName name) ∨
        LengthValue line value := by
  constructor
  · rintro ⟨before, name, hsplit, hname⟩
    match before, hsplit with
    | [], hsplit => exact .inl ⟨name, by simpa using hsplit, hname⟩
    | [_], hsplit => simp at hsplit
    | _ :: _ :: before, hsplit =>
      refine .inr ⟨before, name, ?_, hname⟩
      simp only [List.cons_append, List.nil_append, List.cons.injEq] at hsplit
      simpa using hsplit.2.2
  · rintro (⟨name, rfl, hname⟩ | ⟨before, name, rfl, hname⟩)
    · exact ⟨[], name, rfl, hname⟩
    · exact ⟨crlf ++ before, name, by simp, hname⟩

/-- The lines of a section behind its first one. -/
private structure LinesBehind (line : List UInt8) (nextLine : Nat) (lines : List UInt8) : Prop where
  split : line = line.take nextLine ++ crlf ++ lines
  room : nextLine + 2 ≤ line.length
  values : ∀ value, LengthValue line value ↔ LengthValue (crlf ++ lines) value

section LinesBehind

variable {lines : List UInt8} {nextLine : Nat}

private theorem LinesBehind.clear (h : LinesBehind line nextLine lines) (hline : 0 ∉ line) :
    0 ∉ lines := by
  rw [h.split] at hline
  simp only [List.mem_append, not_or] at hline
  exact hline.2

private theorem LinesBehind.length (h : LinesBehind line nextLine lines) :
    line.length - (nextLine + 2) = lines.length := by
  have hroom := h.room
  have hlength := congrArg List.length h.split
  simp only [List.length_append, List.length_take, List.length_cons, List.length_nil] at hlength
  omega

/-- Where the next round of the loop starts. -/
private theorem LinesBehind.drop (h : LinesBehind line nextLine lines) (rest : List UInt8) :
    (line ++ crlfCrlf ++ rest).drop (nextLine + 2) = lines ++ crlfCrlf ++ rest := by
  have hroom := h.room
  rw [h.split, List.append_assoc _ lines, List.append_assoc _ _ rest,
    List.drop_left' (by simp; omega)]

end LinesBehind

/-- A content length behind a CRLF stands in the lines behind the first one. -/
private theorem lengthValue_behind {lines : List UInt8} {nextLine : Nat}
    (hsplit : line = line.take nextLine ++ crlf ++ lines)
    (hfirst : ∀ {before rest : List UInt8}, line = before ++ crlf ++ rest →
      nextLine ≤ before.length) :
    LengthValue line value ↔ LengthValue (crlf ++ lines) value := by
  constructor
  · rintro ⟨before, name, hvalue, hname⟩
    have hbefore : before <+: line := by
      rw [hvalue, List.append_assoc]
      exact List.prefix_append ..
    -- the CRLF before the name is no earlier than the first one
    have hshort : (line.take nextLine).length ≤ before.length := by
      rw [List.length_take]
      exact (Nat.min_le_left ..).trans (hfirst hvalue)
    obtain ⟨between, hbetween⟩ : line.take nextLine <+: before :=
      List.prefix_of_prefix_length_le (List.take_prefix _ line) hbefore hshort
    refine ⟨between, name, ?_, hname⟩
    have hboth := hvalue.symm.trans hsplit
    rw [← hbetween, List.append_assoc, List.append_assoc, List.append_assoc] at hboth
    have hrest := List.append_cancel_left hboth
    rw [List.append_assoc, hrest]
  · rintro ⟨before, name, hvalue, hname⟩
    refine ⟨line.take nextLine ++ before, name, ?_, hname⟩
    rw [List.append_assoc, List.append_assoc, ← List.append_assoc before, ← hvalue,
      ← List.append_assoc]
    exact hsplit

/-- The first line of a section: it is the last one, or others follow it. -/
private theorem firstLine_cases (hline : 0 ∉ line) :
    ∃ nextLine, (∀ rest, strstr (line ++ crlfCrlf ++ rest) crlf = some nextLine) ∧
      (nextLine = line.length ∧ (∀ value, ¬ LengthValue line value) ∨
        ∃ lines, LinesBehind line nextLine lines) := by
  have hend : crlf <+: (line ++ crlf).drop line.length := by simp
  obtain ⟨nextLine, hle, hfound⟩ := findSub_of_occurs hend
  have hclear : 0 ∉ line ++ crlfCrlf := by simp [hline]
  have hstr (rest : List UInt8) : strstr (line ++ crlfCrlf ++ rest) crlf = some nextLine := by
    have heq : line ++ crlfCrlf ++ cstr rest = line ++ crlf ++ (crlf ++ cstr rest) := by simp
    rw [strstr, cstr_eq_append hclear, heq]
    exact findSub_append hfound _
  -- a line ends no later than where any other starts
  have hfirst {before rest : List UInt8} (hsplit : line = before ++ crlf ++ rest) :
      nextLine ≤ before.length := by
    have hoccurs : crlf <+: (line ++ crlf).drop before.length := by
      rw [hsplit, List.append_assoc, List.append_assoc, List.drop_left]
      exact List.prefix_append ..
    obtain ⟨i, hi, hi'⟩ := findSub_of_occurs hoccurs
    obtain rfl : i = nextLine := Option.some.inj (hi'.symm.trans hfound)
    exact hi
  refine ⟨nextLine, hstr, ?_⟩
  rcases hle.eq_or_lt with rfl | hlt
  · refine .inl ⟨rfl, ?_⟩
    rintro value ⟨before, name, hsplit, -⟩
    have hlate := hfirst hsplit
    have hlength := congrArg List.length hsplit
    simp only [List.length_append, List.length_cons, List.length_nil] at hlength
    omega
  · have hspec := findSub_spec hfound
    rw [List.drop_append_of_le_length hle] at hspec
    -- it does not end the section, so its CRLF is within the text
    obtain ⟨lines, hlines⟩ : ∃ lines, line.drop nextLine = crlf ++ lines := by
      have hne : line.drop nextLine ≠ [] := by
        rw [Ne, List.drop_eq_nil_iff]
        omega
      obtain ⟨c, rest, hdrop⟩ := List.exists_cons_of_ne_nil hne
      rw [hdrop] at hspec ⊢
      cases rest with
      | nil => simp at hspec
      | cons d lines =>
        obtain ⟨rfl, rfl⟩ : 13 = c ∧ 10 = d := by simpa using hspec
        exact ⟨lines, rfl⟩
    have hsplit : line = line.take nextLine ++ crlf ++ lines := by
      rw [List.append_assoc, ← hlines, List.take_append_drop]
    have hroom : nextLine + 2 ≤ line.length := by
      have hlength := congrArg List.length hlines
      rw [List.length_drop, List.length_append] at hlength
      simp only [List.length_cons, List.length_nil] at hlength
      omega
    exact .inr ⟨lines, hsplit, hroom, fun _ => lengthValue_behind hsplit hfirst⟩

/-- A first line that is a content length has its first colon there. -/
private theorem memchr_lengthName {nextLine : Nat} (hsplit : line = name ++ byte ':' :: value)
    (hname : SameWord contentLengthName name)
    (hstop : nextLine = line.length ∨ ∃ rest, line.drop nextLine = 13 :: rest) :
    memchr (line.take nextLine) (byte ':') = some name.length := by
  obtain ⟨hcolon, hcr⟩ := lengthName_clear hname
  have hlate : name.length < nextLine := by
    have hlength := congrArg List.length hsplit
    rw [List.length_append, List.length_cons] at hlength
    rcases hstop with hstop | ⟨rest, hrest⟩
    · omega
    · by_contra hle
      -- the line would end within the name
      have hmem : 13 ∈ name ++ [byte ':'] := by
        have hhead : (name ++ [byte ':']).drop nextLine ++ value = 13 :: rest := by
          rw [← List.drop_append_of_le_length (by rw [List.length_append]; omega), ← hrest, hsplit]
          simp
        cases hdrop : (name ++ [byte ':']).drop nextLine with
        | nil =>
          have hnone := congrArg List.length hdrop
          rw [List.length_drop, List.length_append] at hnone
          simp only [List.length_cons, List.length_nil] at hnone
          omega
        | cons c more =>
          rw [hdrop] at hhead
          obtain rfl : c = 13 := by simpa using (List.cons.inj hhead).1
          exact List.mem_of_mem_drop (hdrop ▸ List.mem_cons_self ..)
      rcases List.mem_append.mp hmem with hmem | hmem
      · exact hcr hmem
      · revert hmem
        decide
  have htake : line.take nextLine = name ++ byte ':' :: value.take (nextLine - name.length - 1) := by
    obtain ⟨k, rfl⟩ := Nat.exists_eq_add_of_lt hlate
    rw [hsplit, Nat.add_assoc, List.take_length_add_append, List.take_succ_cons]
    congr 3
    omega
  rw [htake, memchr_append hcolon]

private theorem not_lengthValue_crlf : ¬ LengthValue crlf value := by
  intro h
  have hroom := h.length_lt
  simp only [List.length_cons, List.length_nil] at hroom
  omega

/-- A value in the first line comes first. -/
private theorem firstLengthValue_of_line (hsplit : line = name ++ byte ':' :: value)
    (hname : SameWord contentLengthName name) : FirstLengthValue (crlf ++ line) value := by
  refine ⟨lengthValue_crlf_append.mpr (.inl ⟨name, hsplit, hname⟩), fun v hv => ?_⟩
  have hlength := congrArg List.length hsplit
  rw [List.length_append, List.length_cons] at hlength
  rcases lengthValue_crlf_append.mp hv with ⟨name', hsplit', hname'⟩ | hlater
  · have hlength' := congrArg List.length hsplit'
    rw [List.length_append, List.length_cons, hname'.length_eq, ← hname.length_eq] at hlength'
    omega
  · have hlate := hlater.length_lt
    have hshort : name.length = 14 := hname.length_eq
    omega

section Loop

variable {nextLine : Nat}

/-- The loop stops at a content length. -/
private theorem httpServerContentLengthLoop_found (fuel : Nat) (hpos : 0 < line.length)
    (hle : nextLine ≤ line.length) {rest : List UInt8}
    (hstr : strstr (line ++ crlfCrlf ++ rest) crlf = some nextLine)
    (hsplit : line = name ++ byte ':' :: value) (hname : SameWord contentLengthName name)
    (hstop : nextLine = line.length ∨ ∃ rest, line.drop nextLine = 13 :: rest) :
    httpServerContentLengthLoop (fuel + 1) (line ++ crlfCrlf ++ rest) line.length =
      (strtoul (value ++ crlfCrlf ++ rest)).1 := by
  have htake : (line ++ crlfCrlf ++ rest).take nextLine = line.take nextLine := by
    rw [List.append_assoc, List.take_append_of_le_length hle]
  have heq : line ++ crlfCrlf ++ rest = name ++ byte ':' :: (value ++ crlfCrlf ++ rest) := by
    rw [hsplit]
    simp
  have hhead : (line ++ crlfCrlf ++ rest).take name.length = name := by
    rw [heq, List.take_left]
  have hbehind : (line ++ crlfCrlf ++ rest).drop (name.length + 1) =
      value ++ crlfCrlf ++ rest := by
    rw [heq, List.append_cons, List.drop_left' (by simp)]
  rw [httpServerContentLengthLoop, if_pos hpos, hstr]
  dsimp only
  rw [if_neg (not_lt.mpr hle), htake, memchr_lengthName hsplit hname hstop, Option.filter_some,
    hhead, httpServerHeaderNameEquals_eq, if_pos ((apiHeaderNameEquals_iff name).mpr hname)]
  dsimp only
  rw [hbehind]

/-- Past any other line the loop goes on. -/
private theorem httpServerContentLengthLoop_next (fuel : Nat) (hpos : 0 < line.length)
    (hle : nextLine ≤ line.length) {rest : List UInt8}
    (hstr : strstr (line ++ crlfCrlf ++ rest) crlf = some nextLine)
    (hother : ∀ name value, line = name ++ byte ':' :: value →
      ¬ SameWord contentLengthName name) :
    httpServerContentLengthLoop (fuel + 1) (line ++ crlfCrlf ++ rest) line.length =
      httpServerContentLengthLoop fuel ((line ++ crlfCrlf ++ rest).drop (nextLine + 2))
        (line.length - (nextLine + 2)) := by
  have htake : (line ++ crlfCrlf ++ rest).take nextLine = line.take nextLine := by
    rw [List.append_assoc, List.take_append_of_le_length hle]
  have hnone : (memchr (line.take nextLine) (byte ':')).filter (fun colon =>
      httpServerHeaderNameEquals ((line ++ crlfCrlf ++ rest).take colon) contentLengthName) =
        none := by
    rw [Option.filter_eq_none_iff]
    intro colon hcolon
    have hlt := memchr_lt hcolon
    rw [List.length_take] at hlt
    rw [httpServerHeaderNameEquals_eq, apiHeaderNameEquals_iff, List.append_assoc,
      List.take_append_of_le_length (by omega)]
    obtain ⟨-, hsplit⟩ := memchr_eq_some_iff.mp hcolon
    rw [List.take_take, min_eq_left (by omega)] at hsplit
    apply hother
    calc
      line = line.take nextLine ++ line.drop nextLine := (List.take_append_drop ..).symm
      _ = line.take colon ++ byte ':' :: (line.take nextLine).drop (colon + 1) ++
          line.drop nextLine := congrArg (· ++ line.drop nextLine) hsplit
      _ = line.take colon ++ byte ':' :: ((line.take nextLine).drop (colon + 1) ++
          line.drop nextLine) := by simp
  rw [httpServerContentLengthLoop, if_pos hpos, hstr]
  dsimp only
  rw [if_neg (not_lt.mpr hle), htake, hnone]

end Loop

/-- What the loop finds in the lines of a section: the number after the first content length,
or none. -/
private theorem httpServerContentLengthLoop_spec {fuel : Nat} (hline : 0 ∉ line)
    (hfuel : line.length ≤ fuel) :
    (∃ value, FirstLengthValue (crlf ++ line) value ∧ ∀ rest,
      httpServerContentLengthLoop fuel (line ++ crlfCrlf ++ rest) line.length =
        (strtoul (value ++ crlfCrlf ++ rest)).1) ∨
      (∀ value, ¬ LengthValue (crlf ++ line) value) ∧ ∀ rest,
        httpServerContentLengthLoop fuel (line ++ crlfCrlf ++ rest) line.length = 0 := by
  induction fuel generalizing line with
  | zero =>
    obtain rfl := List.eq_nil_of_length_eq_zero (by omega : line.length = 0)
    exact .inr ⟨fun value => not_lengthValue_crlf, fun rest => rfl⟩
  | succ fuel ih =>
    rcases eq_or_ne line [] with rfl | hne
    · exact .inr ⟨fun value => not_lengthValue_crlf, fun rest => rfl⟩
    have hpos := List.length_pos_of_ne_nil hne
    obtain ⟨nextLine, hstr, hcases⟩ := firstLine_cases hline
    have hle : nextLine ≤ line.length := by
      rcases hcases with ⟨hlast, -⟩ | ⟨lines, hlines⟩
      · exact hlast.le
      · have hroom := hlines.room
        omega
    by_cases hfirst : ∃ name value, line = name ++ byte ':' :: value ∧
        SameWord contentLengthName name
    · obtain ⟨name, value, hsplit, hname⟩ := hfirst
      have hstop : nextLine = line.length ∨ ∃ rest, line.drop nextLine = 13 :: rest := by
        rcases hcases with ⟨hlast, -⟩ | ⟨lines, hlines⟩
        · exact .inl hlast
        · refine .inr ⟨10 :: lines, ?_⟩
          rw [hlines.split, List.append_assoc, List.drop_left' (by rw [List.length_take]; omega)]
          rfl
      exact .inl ⟨value, firstLengthValue_of_line hsplit hname, fun rest =>
        httpServerContentLengthLoop_found fuel hpos hle (hstr rest) hsplit hname hstop⟩
    · have hother (name value : List UInt8) (hsplit : line = name ++ byte ':' :: value) :
          ¬ SameWord contentLengthName name := fun hname => hfirst ⟨name, value, hsplit, hname⟩
      have hstep (rest : List UInt8) :=
        httpServerContentLengthLoop_next fuel hpos hle (hstr rest) hother
      have hnot (value : List UInt8) :
          LengthValue (crlf ++ line) value ↔ LengthValue line value := by
        rw [lengthValue_crlf_append]
        exact or_iff_right fun ⟨name, hsplit⟩ => hfirst ⟨name, value, hsplit⟩
      rcases hcases with ⟨hlast, hnothing⟩ | ⟨lines, hlines⟩
      · refine .inr ⟨fun value hvalue => hnothing value ((hnot value).mp hvalue), fun rest => ?_⟩
        rw [hstep, Nat.sub_eq_zero_of_le (by omega)]
        cases fuel <;> rfl
      · -- the lines behind this one
        have hsame (value : List UInt8) :
            LengthValue (crlf ++ line) value ↔ LengthValue (crlf ++ lines) value :=
          (hnot value).trans (hlines.values value)
        have hleft := hlines.length
        simp only [hstep, hlines.drop, hleft, FirstLengthValue, hsame]
        exact ih (hlines.clear hline) (by omega)

/-- What `http_server_parse_content_length` returns for a header section, whatever has arrived
behind it. -/
theorem httpServerParseContentLength_spec
    (hend : strstr (head ++ crlfCrlf) crlfCrlf = some head.length) :
    (∃ value, FirstLengthValue head value ∧ ∀ rest,
      httpServerParseContentLength (head ++ crlfCrlf ++ rest) =
        (strtoul (value ++ crlfCrlf ++ rest)).1) ∨
      (∀ value, ¬ LengthValue head value) ∧ ∀ rest,
        httpServerParseContentLength (head ++ crlfCrlf ++ rest) = 0 := by
  have hclear : 0 ∉ head := by
    have hstart := (strstr_split hend).1
    rwa [List.take_left] at hstart
  obtain ⟨lineEnd, hstr, hcases⟩ := firstLine_cases hclear
  have hparse (rest : List UInt8) : httpServerParseContentLength (head ++ crlfCrlf ++ rest) =
      httpServerContentLengthLoop (head.length - (lineEnd + 2))
        ((head ++ crlfCrlf ++ rest).drop (lineEnd + 2)) (head.length - (lineEnd + 2)) := by
    rw [httpServerParseContentLength, hstr, strstr_append hend]
  rcases hcases with ⟨hlast, hnothing⟩ | ⟨line, hlines⟩
  · refine .inr ⟨hnothing, fun rest => ?_⟩
    rw [hparse, Nat.sub_eq_zero_of_le (by omega)]
    rfl
  -- the loop starts behind the request line
  · simp only [hparse, hlines.drop, hlines.length, FirstLengthValue, hlines.values]
    exact httpServerContentLengthLoop_spec (hlines.clear hclear) le_rfl

/-- A value that is not blank ends within the section. -/
private theorem strtoul_section (hvalue : ¬ Blank value) (rest : List UInt8) :
    (strtoul (value ++ crlfCrlf ++ rest)).1 = (strtoul (value ++ [13])).1 := by
  have hspace : value.dropWhile isSpace ≠ [] := by
    intro hnil
    exact hvalue (List.dropWhile_eq_nil_iff.mp hnil)
  have hcr := strtoul_append_of_stop hspace (by decide : isSpace 13 = true) ([10, 13, 10] ++ rest)
  rw [← hcr]
  simp

private theorem strtoul_blank_section (hvalue : Blank value) (rest : List UInt8) :
    (strtoul (value ++ crlfCrlf ++ rest)).1 = (strtoul rest).1 := by
  apply strtoul_blank_append
  intro c hc
  rcases List.mem_append.mp hc with hc | hc
  · exact hvalue c hc
  · have hall : ∀ c ∈ crlfCrlf, isSpace c = true := by decide
    exact hall c hc

/-- Two values of which neither comes later are the same. -/
private theorem FirstLengthValue.unique {v : List UInt8} (h : FirstLengthValue head value)
    (hv : FirstLengthValue head v) : v = value := by
  have hsuffix {v : List UInt8} (hv : LengthValue head v) : v <:+ head := by
    obtain ⟨before, name, rfl, -⟩ := hv
    exact ⟨before ++ crlf ++ (name ++ [byte ':']), by simp⟩
  have hlength : v.length = value.length := le_antisymm (h.2 v hv.1) (hv.2 value h.1)
  have hlater := List.suffix_of_suffix_length_le (hsuffix hv.1) (hsuffix h.1) hlength.le
  exact hlater.eq_of_length hlength

/-- The content length does not depend on how much of the body has arrived. -/
theorem httpServerParseContentLength_of_not_runsOn
    (hend : strstr (head ++ crlfCrlf) crlfCrlf = some head.length) {arrived rest : List UInt8}
    (h : ¬ LengthRunsOn head (arrived ++ rest)) :
    httpServerParseContentLength (head ++ crlfCrlf ++ arrived) =
      httpServerParseContentLength (head ++ crlfCrlf) := by
  rcases httpServerParseContentLength_spec hend with ⟨value, hfirst, hvalue⟩ | ⟨-, hnone⟩
  · have hself := hvalue []
    rw [List.append_nil] at hself
    rw [hself, hvalue]
    by_cases hblank : Blank value
    · have hzero : (strtoul (arrived ++ rest)).1 = 0 := by
        by_contra hne
        exact h ⟨value, hfirst, hblank, hne⟩
      rw [strtoul_blank_section hblank, strtoul_blank_section hblank,
        strtoul_eq_zero_of_append hzero]
      rfl
    · rw [strtoul_section hblank, strtoul_section hblank]
  · have hself := hnone []
    rw [List.append_nil] at hself
    rw [hself, hnone]

/-- Otherwise it is zero before the body arrives, and the number in the body behind that. -/
theorem httpServerParseContentLength_of_runsOn
    (hend : strstr (head ++ crlfCrlf) crlfCrlf = some head.length) {body : List UInt8}
    (h : LengthRunsOn head body) :
    httpServerParseContentLength (head ++ crlfCrlf) = 0 ∧
      httpServerParseContentLength (head ++ crlfCrlf ++ body) = (strtoul body).1 := by
  obtain ⟨value, hfirst, hblank, -⟩ := h
  rcases httpServerParseContentLength_spec hend with ⟨v, hv, hvalue⟩ | ⟨hnone, -⟩
  · obtain rfl := hfirst.unique hv
    have hself := hvalue []
    rw [List.append_nil] at hself
    refine ⟨?_, ?_⟩
    · rw [hself, strtoul_blank_section hblank]
      rfl
    · rw [hvalue, strtoul_blank_section hblank]
  · exact absurd hfirst.1 (hnone value)

end FirstLength

end SqlApi.Server

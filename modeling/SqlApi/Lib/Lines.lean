import Mathlib.Data.List.TakeWhile

/-!
# Lines of a stream, and a loop that reads them

A line goes up to and with the element that ends it, or to the end of the stream. `fgets`
with a buffer of `size` takes as much of a line as fits beside the terminator, and the rest
the next time. A loop that reads and acts until it is told to stop acts on whole lines, but
for those that are too long, if and only if no line before it stops is too long.
-/

namespace SqlApi.Lib

/-- A part of a stream: where it starts, and its elements. -/
structure Piece (α : Type) where
  start : Nat
  text : List α
  deriving DecidableEq

/-- A list up to and with the first element that stops. -/
def takeThrough {β : Type} (stops : β → Bool) : List β → List β
  | [] => []
  | b :: rest => if stops b then [b] else b :: takeThrough stops rest

theorem takeThrough_sublist {β : Type} (stops : β → Bool) (l : List β) :
    (takeThrough stops l).Sublist l := by
  induction l with
  | nil => exact .slnil
  | cons b rest ih =>
    unfold takeThrough
    split
    · exact (List.nil_sublist rest).cons_cons b
    · exact ih.cons_cons b

/-- It starts with the first element. -/
theorem takeThrough_cons {β : Type} (stops : β → Bool) (b : β) (rest : List β) :
    ∃ rest', takeThrough stops (b :: rest) = b :: rest' := by
  unfold takeThrough
  split
  · exact ⟨_, rfl⟩
  · exact ⟨_, rfl⟩

theorem takeThrough_congr {β : Type} {stops stops' : β → Bool} {l : List β}
    (h : ∀ b ∈ l, stops b = stops' b) : takeThrough stops l = takeThrough stops' l := by
  induction l with
  | nil => rfl
  | cons b rest ih =>
    obtain ⟨hb, hrest⟩ := List.forall_mem_cons.mp h
    rw [takeThrough, takeThrough, hb, ih hrest]

section Lines

variable {α : Type} (isEnd : α → Bool)

/-- The length of the first line, with its end. -/
def lineLength : List α → Nat
  | [] => 0
  | c :: stream => if isEnd c then 1 else lineLength stream + 1

/-- The lines of a stream, from this offset on. -/
def linesAt : (start : Nat) → List α → List (Piece α)
  | _, [] => []
  | start, c :: stream =>
    if isEnd c then ⟨start, [c]⟩ :: linesAt (start + 1) stream
    else
      match linesAt (start + 1) stream with
      | [] => [⟨start, [c]⟩]
      | line :: lines => ⟨start, c :: line.text⟩ :: lines

/-- `fgets` with a buffer of `size`: what is read, and what is left; `none` at the end. -/
def fgets (size : Nat) : List α → Option (List α × List α)
  | [] => none
  | c :: stream =>
    let n := min (size - 1) (lineLength isEnd (c :: stream))
    some ((c :: stream).take n, (c :: stream).drop n)

/-- The loop `while (fgets(...) != NULL)`, with what was read. The step acts on what is read
and says whether the loop goes on. Every `fgets` takes something, so the length of the stream
is fuel enough. -/
def readLoop {σ : Type} (size : Nat) (step : List α → σ → Option (Bool × σ)) :
    (fuel start : Nat) → List α → σ → Option (List (Piece α) × σ)
  | 0, _, _, s => some ([], s)
  | fuel + 1, start, stream, s =>
    match fgets isEnd size stream with
    | none => some ([], s)
    | some (text, rest) =>
      (step text s).bind fun (goesOn, s) =>
        if goesOn then
          (readLoop size step fuel (start + text.length) rest s).map fun (pieces, s) =>
            (⟨start, text⟩ :: pieces, s)
        else some ([⟨start, text⟩], s)

/-- What is read when nothing stops the loop. -/
def piecesAt (size : Nat) : (fuel start : Nat) → List α → List (Piece α)
  | 0, _, _ => []
  | fuel + 1, start, stream =>
    match fgets isEnd size stream with
    | none => []
    | some (text, rest) => ⟨start, text⟩ :: piecesAt size fuel (start + text.length) rest

variable {isEnd}

/-! ## Lines -/

theorem lineLength_le (stream : List α) : lineLength isEnd stream ≤ stream.length := by
  induction stream with
  | nil => exact le_rfl
  | cons c stream ih =>
    unfold lineLength
    split
    · exact Nat.succ_pos _
    · exact Nat.succ_le_succ ih

theorem lineLength_pos {stream : List α} (hne : stream ≠ []) : 0 < lineLength isEnd stream := by
  obtain ⟨c, stream, rfl⟩ := List.exists_cons_of_ne_nil hne
  unfold lineLength
  split
  · exact Nat.one_pos
  · exact Nat.succ_pos _

/-- What ends no line belongs to the line behind it. -/
theorem lineLength_append {s : List α} (hs : ∀ c ∈ s, isEnd c = false) (stream : List α) :
    lineLength isEnd (s ++ stream) = s.length + lineLength isEnd stream := by
  induction s with
  | nil => exact (Nat.zero_add _).symm
  | cons c s ih =>
    obtain ⟨hc, hrest⟩ := List.forall_mem_cons.mp hs
    rw [List.cons_append, lineLength, if_neg (by simp [hc]), ih hrest, List.length_cons]
    omega

/-- The first line and those behind it. -/
theorem linesAt_eq {stream : List α} (hne : stream ≠ []) (start : Nat) :
    linesAt isEnd start stream =
      ⟨start, stream.take (lineLength isEnd stream)⟩ ::
        linesAt isEnd (start + lineLength isEnd stream) (stream.drop (lineLength isEnd stream)) := by
  induction stream generalizing start with
  | nil => exact absurd rfl hne
  | cons c stream ih =>
    rw [linesAt, lineLength]
    split
    · rfl
    · -- the element joins the first line of the rest, which may be the last
      cases stream with
      | nil => rfl
      | cons d stream =>
        rw [ih (List.cons_ne_nil _ _), List.take_succ_cons, List.drop_succ_cons,
          Nat.add_right_comm start 1]
        rfl

/-- Lines start where they are. -/
theorem le_start_of_mem_linesAt {stream : List α} {start : Nat} {line : Piece α}
    (h : line ∈ linesAt isEnd start stream) : start ≤ line.start := by
  induction hlength : stream.length using Nat.strong_induction_on generalizing stream start with
  | _ n ih =>
    by_cases hne : stream = []
    · subst hne
      cases h
    · have hpos : 0 < lineLength isEnd stream := lineLength_pos hne
      rw [linesAt_eq hne] at h
      rcases List.mem_cons.mp h with rfl | h
      · exact le_rfl
      · have hlen := List.length_pos_iff.mpr hne
        have hstart := ih _ (by rw [List.length_drop]; omega) h rfl
        omega

/-! ## The loop -/

/-- A line is read, or as much of it as fits. -/
theorem fgets_eq {stream : List α} (hne : stream ≠ []) (size : Nat) :
    fgets isEnd size stream = some (stream.take (min (size - 1) (lineLength isEnd stream)),
      stream.drop (min (size - 1) (lineLength isEnd stream))) := by
  obtain ⟨c, stream, rfl⟩ := List.exists_cons_of_ne_nil hne
  rfl

/-- Nothing is left out when nothing stops the loop. -/
theorem flatMap_piecesAt {size : Nat} (hsize : 2 ≤ size) {fuel : Nat} {stream : List α}
    (hfuel : stream.length ≤ fuel) (start : Nat) :
    (piecesAt isEnd size fuel start stream).flatMap Piece.text = stream := by
  induction fuel generalizing stream start with
  | zero => exact (List.length_eq_zero_iff.mp (Nat.le_zero.mp hfuel)).symm
  | succ fuel ih =>
    by_cases hne : stream = []
    · subst hne
      rfl
    · have hpos : 0 < lineLength isEnd stream := lineLength_pos hne
      -- what is left behind a piece is shorter, since no piece is empty
      have hrest :
          (stream.drop (min (size - 1) (lineLength isEnd stream))).length ≤ fuel := by
        rw [List.length_drop]
        omega
      rw [piecesAt, fgets_eq hne]
      dsimp only
      rw [List.flatMap_cons, ih hrest]
      exact List.take_append_drop _ _

/-- What is behind the element that fills the buffer is read the next time. -/
theorem piecesAt_append {word rest : List α} {size : Nat} (hsize : size = word.length + 1)
    (hword : ∀ c ∈ word, isEnd c = false) (hrest : rest ≠ []) (fuel start : Nat) :
    piecesAt isEnd size (fuel + 1) start (word ++ rest) =
      ⟨start, word⟩ :: piecesAt isEnd size fuel (start + word.length) rest := by
  have hne : word ++ rest ≠ [] := List.append_ne_nil_of_right_ne_nil word hrest
  have hmin : min (size - 1) (lineLength isEnd (word ++ rest)) = word.length := by
    rw [lineLength_append hword]
    omega
  rw [piecesAt, fgets_eq hne, hmin, List.take_left, List.drop_left]

/-- What is read does not depend on what the step does, but for where it stops. -/
theorem readLoop_pieces {σ : Type} {size : Nat} {step : List α → σ → Option (Bool × σ)}
    {stops : List α → Bool}
    (hstep : ∀ text s r, step text s = some r → (!r.1) = stops text) {fuel start : Nat}
    {stream : List α} {s s' : σ} {pieces : List (Piece α)}
    (h : readLoop isEnd size step fuel start stream s = some (pieces, s')) :
    pieces = takeThrough (stops ·.text) (piecesAt isEnd size fuel start stream) := by
  induction fuel generalizing start stream s pieces with
  | zero =>
    cases h
    rfl
  | succ fuel ih =>
    rw [readLoop] at h
    rw [piecesAt]
    cases hread : fgets isEnd size stream with
    | none =>
      rw [hread] at h
      cases h
      rfl
    | some r =>
      obtain ⟨text, rest⟩ := r
      rw [hread] at h
      obtain ⟨⟨goesOn, s₁⟩, hacted, h⟩ := Option.bind_eq_some_iff.mp h
      have hstop := hstep _ _ _ hacted
      dsimp only at h hstop ⊢
      rw [takeThrough]
      -- the step and the predicate agree on whether this was the last one
      cases goesOn with
      | true =>
        obtain ⟨⟨pieces', s₂⟩, hloop, heq⟩ := Option.map_eq_some_iff.mp h
        cases heq
        have hgoes : stops text = false := hstop.symm
        rw [if_neg (by simp [hgoes]), ih hloop]
      | false =>
        have hstops : stops text = true := hstop.symm
        cases h
        rw [if_pos hstops]

/-- A step that is always defined where an invariant holds that it keeps. -/
theorem readLoop_total {σ : Type} {size : Nat} {step : List α → σ → Option (Bool × σ)}
    {I : σ → Prop} (hstep : ∀ text s, I s → ∃ r, step text s = some r ∧ I r.2) {s : σ} (hs : I s)
    (fuel start : Nat) (stream : List α) :
    ∃ r, readLoop isEnd size step fuel start stream s = some r ∧ I r.2 := by
  -- the induction is on the fuel: each round keeps the invariant, and the fuel only ends the loop
  induction fuel generalizing start stream s with
  | zero => exact ⟨_, rfl, hs⟩
  | succ fuel ih =>
    rw [readLoop]
    cases fgets isEnd size stream with
    | none => exact ⟨_, rfl, hs⟩
    | some r =>
      obtain ⟨text, rest⟩ := r
      obtain ⟨⟨goesOn, s₁⟩, hacted, hs₁⟩ := hstep text s hs
      dsimp only
      rw [hacted, Option.bind_some]
      cases goesOn with
      | true =>
        obtain ⟨⟨pieces, s₂⟩, hloop, hs₂⟩ := ih hs₁ (start + text.length) rest
        rw [if_pos rfl, hloop]
        exact ⟨_, rfl, hs₂⟩
      | false => exact ⟨_, rfl, hs₁⟩

/-! ## Lines that fit -/

variable (isEnd) in
/-- The loop has acted on the lines of the stream up to the one that stops it, each whole and
once, and on nothing of the lines that are too long. -/
def PassesLines (size : Nat) (stops : List α → Bool) (stream : List α)
    (pieces : List (Piece α)) : Prop :=
  pieces = takeThrough (stops ·.text)
    ((linesAt isEnd 0 stream).filter fun line => line.text.length < size)

variable (isEnd) in
/-- No line up to the one that stops the loop is too long. -/
def LinesFit (size : Nat) (stops : List α → Bool) (stream : List α) : Prop :=
  ∀ line ∈ takeThrough (stops ·.text) (linesAt isEnd 0 stream), line.text.length < size

/-- A line that fits is read at once; of a line that does not, the start is. -/
theorem takeThrough_piecesAt_iff {size : Nat} (hsize : 2 ≤ size) (stops : List α → Bool)
    {fuel : Nat} {stream : List α} (hfuel : stream.length ≤ fuel) (start : Nat) :
    takeThrough (stops ·.text) (piecesAt isEnd size fuel start stream) =
        takeThrough (stops ·.text)
          ((linesAt isEnd start stream).filter fun line => line.text.length < size) ↔
      ∀ line ∈ takeThrough (stops ·.text) (linesAt isEnd start stream),
        line.text.length < size := by
  -- the induction is on the fuel; each round takes one line from both sides
  induction fuel generalizing stream start with
  | zero =>
    obtain rfl := List.length_eq_zero_iff.mp (Nat.le_zero.mp hfuel)
    exact iff_of_true rfl nofun
  | succ fuel ih =>
    by_cases hne : stream = []
    · subst hne
      exact iff_of_true rfl nofun
    have hpos : 0 < lineLength isEnd stream := lineLength_pos hne
    have hle : lineLength isEnd stream ≤ stream.length := lineLength_le stream
    rw [piecesAt, fgets_eq hne, linesAt_eq hne]
    dsimp only
    generalize lineLength isEnd stream = n at hpos hle
    have hlength : (stream.take n).length = n := by
      rw [List.length_take]
      omega
    by_cases hfits : n < size
    · -- the line is one piece, and what is left is shorter
      have hmin : min (size - 1) n = n := by omega
      have hrest : (stream.drop n).length ≤ fuel := by
        rw [List.length_drop]
        omega
      rw [hmin, List.filter_cons_of_pos (by simpa [hlength] using hfits), hlength]
      simp only [takeThrough]
      split
      · exact iff_of_true rfl fun line hline => by
          rw [List.mem_singleton.mp hline, hlength]
          exact hfits
      · rw [List.cons.injEq, List.forall_mem_cons, hlength, ih hrest]
        exact and_congr_left' ⟨fun _ => hfits, fun _ => rfl⟩
    · -- what is read first starts where this line does, and every line behind it starts later
      rw [List.filter_cons_of_neg (by simpa [hlength] using hfits)]
      refine iff_of_false (fun heq => ?_) fun h => ?_
      · obtain ⟨rest', hhead⟩ := takeThrough_cons (stops ·.text)
          ⟨start, stream.take (min (size - 1) n)⟩
          (piecesAt isEnd size fuel (start + (stream.take (min (size - 1) n)).length)
            (stream.drop (min (size - 1) n)))
        rw [hhead] at heq
        have hmem := (takeThrough_sublist _ _).subset (heq ▸ List.mem_cons_self ..)
        have hstart := le_start_of_mem_linesAt (List.mem_filter.mp hmem).1
        dsimp only at hstart
        omega
      · obtain ⟨rest', hhead⟩ := takeThrough_cons (stops ·.text) ⟨start, stream.take n⟩
          (linesAt isEnd (start + n) (stream.drop n))
        have hline := h ⟨start, stream.take n⟩ (hhead ▸ List.mem_cons_self ..)
        dsimp only at hline
        omega

end Lines

end SqlApi.Lib

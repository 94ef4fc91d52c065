import MotionExpr.Proofs.Format.LineWidths

/-!
How the breaking of a line goes on and ends. It is told as a loop of its own, without a bound on
the number of rounds and with the ending that parts without ink would make. Each round leaves less
content behind a piece with ink, so that ending is never met and the loop is over after at most as
many rounds as the content has characters: the rest fits, or its indentation leaves no room.
-/

namespace MotionExpr
namespace Wrap

open Text

/-- What is left to break: the content, and the indentation of its next piece. -/
structure Leftover where
  indent : Text
  content : Text

namespace Leftover

/-- Where the breaking of a line begins. -/
def ofLine (line : Text) : Leftover := ⟨(splitIndent line).1, trim line⟩

section Round

variable (o : FormatOptions) (w : Leftover)

def budget : Int := o.maxLineLength - width o w.indent

/-- The content is within the limit as breaking counts. -/
def Fits : Prop := (width o w.indent + w.content.length : Int) ≤ o.maxLineLength

/-- The content is too long, and there is room for a part of it. -/
def Breaks : Prop := ¬w.Fits o ∧ 0 < w.budget o

def stop : Int := findBreak w.content (w.budget o)

def head : Text := trimEnd (w.content.upTo (w.stop o))

def tail : Text := trim (w.content.startingAt (w.stop o))

def whole : Text := w.indent ++ w.content

def piece : Text := w.indent ++ w.head o

def next : Leftover := ⟨w.indent ++ continuation, w.tail o⟩

end Round

/-- The content neither begins nor ends in a blank. -/
structure Trimmed (w : Leftover) : Prop where
  unindented : Unindented w.content
  trimmed : trimEnd w.content = w.content

theorem trimmed_ofLine (line : Text) : (ofLine line).Trimmed :=
  ⟨unindented_trim line, trimEnd_trim line⟩

theorem trimmed_next (o : FormatOptions) (w : Leftover) : (w.next o).Trimmed :=
  ⟨unindented_trim _, trimEnd_trim _⟩

/-- What a round does with its content. -/
structure Progress (o : FormatOptions) (w : Leftover) : Prop where
  one_le_stop : 1 ≤ w.stop o
  stop_le_budget : w.stop o ≤ w.budget o
  head_ne_nil : w.head o ≠ []
  tail_ne_nil : w.tail o ≠ []
  shorter : (w.tail o).length < w.content.length

theorem Progress.ink {o : FormatOptions} {w : Leftover} (h : w.Progress o) :
    ¬(w.head o = [] ∨ w.tail o = []) :=
  not_or.mpr ⟨h.head_ne_nil, h.tail_ne_nil⟩

theorem progress {o : FormatOptions} {w : Leftover} (h : w.Trimmed) (breaks : w.Breaks o) :
    w.Progress o := by
  obtain ⟨long, room⟩ := breaks
  have tight : w.budget o < w.content.length := by
    rw [Fits] at long
    rw [budget]
    omega
  have bounds := findBreak_bounds w.content room
  obtain ⟨front, back⟩ := parts_ne_nil h.unindented h.trimmed room tight
  refine ⟨bounds.1, bounds.2, front, back, ?_⟩
  have kept : (w.tail o).length ≤ (w.content.startingAt (w.stop o)).length :=
    (isPrefix_dropEndWhile isBlank _).length_le.trans (List.dropWhile_sublist _).length_le
  rw [startingAt, List.length_drop, cut, stop, if_neg (by omega)] at kept
  omega

/-! What is left in the pieces. -/

theorem piecesFrom_succ (o : FormatOptions) (fuel : Nat) (w : Leftover) :
    piecesFrom o (fuel + 1) w.indent w.content =
      if (w.content.length : Int) ≤ w.budget o || w.budget o ≤ 0 then [w.whole]
      else if (w.head o).isEmpty || (w.tail o).isEmpty then [w.whole]
      else w.piece o :: piecesFrom o fuel (w.next o).indent (w.next o).content := rfl

theorem piecesFrom_of_not_breaks {o : FormatOptions} {w : Leftover} (h : ¬w.Breaks o) (fuel : Nat) :
    piecesFrom o fuel w.indent w.content = [w.whole] := by
  cases fuel with
  | zero => rfl
  | succ fuel =>
      rw [piecesFrom_succ, if_pos]
      simp only [Bool.or_eq_true, decide_eq_true_eq]
      rw [Breaks, Fits, budget] at h
      rw [budget]
      omega

theorem piecesFrom_of_breaks {o : FormatOptions} {w : Leftover} (h : w.Breaks o)
    (ink : ¬(w.head o = [] ∨ w.tail o = [])) (fuel : Nat) :
    piecesFrom o (fuel + 1) w.indent w.content =
      w.piece o :: piecesFrom o fuel (w.next o).indent (w.next o).content := by
  rw [piecesFrom_succ, if_neg, if_neg]
  · simpa only [Bool.or_eq_true, List.isEmpty_iff] using ink
  · simp only [Bool.or_eq_true, decide_eq_true_eq]
    rw [Breaks, Fits, budget] at h
    rw [budget]
    omega

end Leftover

/-- The loop, from what is left in the beginning: what is left each time a break is looked for, and
what is left in the end. -/
inductive Loop (o : FormatOptions) : Leftover → List Leftover → Leftover → Prop
  | fits {w : Leftover} (short : w.Fits o) : Loop o w [] w
  | noRoom {w : Leftover} (long : ¬w.Fits o) (full : w.budget o ≤ 0) : Loop o w [] w
  | idle {w : Leftover} (breaks : w.Breaks o) (empty : w.head o = [] ∨ w.tail o = []) :
      Loop o w [w] w
  | cut {w last : Leftover} {ws : List Leftover} (breaks : w.Breaks o)
      (ink : ¬(w.head o = [] ∨ w.tail o = [])) (rest : Loop o (w.next o) ws last) :
      Loop o w (w :: ws) last

namespace Loop

open Leftover

variable {o : FormatOptions} {w last : Leftover} {ws : List Leftover}

theorem exists_of_trimmed (o : FormatOptions) (h : w.Trimmed) : ∃ ws last, Loop o w ws last := by
  -- the indentation grows from round to round, but the content is shorter each time
  induction hk : w.content.length using Nat.strongRecOn generalizing w with
  | ind k ih =>
      by_cases short : w.Fits o
      · exact ⟨[], w, .fits short⟩
      · by_cases room : 0 < w.budget o
        · have step := progress h ⟨short, room⟩
          obtain ⟨ws, last, rest⟩ := ih _ (hk ▸ step.shorter) (trimmed_next o w) rfl
          exact ⟨w :: ws, last, .cut ⟨short, room⟩ step.ink rest⟩
        · exact ⟨[], w, .noRoom short (Int.not_lt.mp room)⟩

theorem progress_of_mem (loop : Loop o w ws last) (h : w.Trimmed) : ∀ v ∈ ws, v.Progress o := by
  induction loop with
  | fits | noRoom => exact List.forall_mem_nil _
  | idle breaks => exact List.forall_mem_singleton.mpr (progress h breaks)
  | cut breaks _ _ ih =>
      exact List.forall_mem_cons.mpr ⟨progress h breaks, ih (trimmed_next o _)⟩

theorem ends (loop : Loop o w ws last) (h : w.Trimmed) : last.Fits o ∨ last.budget o ≤ 0 := by
  induction loop with
  | fits short => exact .inl short
  | noRoom _ full => exact .inr full
  | idle breaks empty => exact absurd empty (progress h breaks).ink
  | cut _ _ _ ih => exact ih (trimmed_next o _)

theorem length_le (loop : Loop o w ws last) (h : w.Trimmed) :
    ws.length + last.content.length ≤ w.content.length := by
  induction loop with
  | fits | noRoom => exact (Nat.zero_add _).le
  | idle breaks empty => exact absurd empty (progress h breaks).ink
  | @cut w _ _ breaks _ _ ih =>
      have less := (progress h breaks).shorter
      have rest : _ ≤ (w.tail o).length := ih (trimmed_next o w)
      rw [List.length_cons]
      omega

/-- The pieces are what the loop makes, as long as the fuel covers its rounds. -/
theorem piecesFrom_eq (loop : Loop o w ws last) (h : w.Trimmed) {fuel : Nat}
    (enough : ws.length ≤ fuel) :
    piecesFrom o fuel w.indent w.content = ws.map (·.piece o) ++ [last.whole] := by
  induction loop generalizing fuel with
  | fits short => exact piecesFrom_of_not_breaks (fun breaks => breaks.1 short) fuel
  | noRoom _ full => exact piecesFrom_of_not_breaks (fun breaks => not_lt.mpr full breaks.2) fuel
  | idle breaks empty => exact absurd empty (progress h breaks).ink
  | @cut w _ _ breaks ink _ ih =>
      obtain ⟨fuel, rfl⟩ : ∃ n, fuel = n + 1 :=
        Nat.exists_eq_add_one.mpr (Nat.lt_of_lt_of_le (Nat.succ_pos _) enough)
      have behind := ih (trimmed_next o w) (Nat.le_of_succ_le_succ enough)
      rw [piecesFrom_of_breaks breaks ink, behind]
      rfl

end Loop

/-- Breaking a line ends. Wherever a break is looked for, it is found between the first character and
the budget, there is ink in front of it and behind it, and the rest is shorter; so there are no more
cuts than characters, and in the end the rest fits or has no room. A limit that is no whole number
makes no cut, and what is let pass fits or has no room as well. -/
theorem breaking_progresses (o : FormatOptions) (line : Text) :
    (∃ ws last, Loop o (.ofLine line) ws last) ∧
    (∀ ws last, Loop o (.ofLine line) ws last →
      (∀ w ∈ ws, w.Progress o) ∧ ws.length ≤ (trim line).length ∧
      (last.Fits o ∨ last.budget o ≤ 0) ∧
      pieces o line = ws.map (·.piece o) ++ [last.whole]) ∧
    ∀ limit ps, measuredPieces o limit line = .ok ps →
      ps = [(Leftover.ofLine line).whole] ∧
      (exceeds (width o (splitIndent line).1 + (trim line).length) limit = false ∨
        limit ≤ Float.ofNat (width o (splitIndent line).1)) := by
  have trimmed := Leftover.trimmed_ofLine line
  refine ⟨Loop.exists_of_trimmed o trimmed, fun ws last loop => ?_, fun limit ps h => ?_⟩
  · have rounds : ws.length ≤ (trim line).length :=
      (Nat.le_add_right _ _).trans (loop.length_le trimmed)
    exact ⟨loop.progress_of_mem trimmed, rounds, loop.ends trimmed,
      loop.piecesFrom_eq trimmed rounds⟩
  · simp only [measuredPieces] at h
    split at h
    · cases h
    · next short =>
        cases h
        exact ⟨rfl, by simpa [imp_iff_or_not, or_comm] using short⟩

/-- Each cut takes two columns from the next piece, until there is no room. -/
example : pieces { maxLineLength := 6 } "  abcdefghi".toList =
    ["  abcd", "    ef", "      ghi"].map String.toList := by
  decide

end Wrap
end MotionExpr

/-!
Text as a list of characters. Lines are separated by newlines and by nothing
else, so a text has at least one line and joining its lines gives it back.
-/

namespace MotionExpr

abbrev Text := List Char

namespace Text

/-- Put `c` in front of the first line. -/
def consFirst (c : Char) : List Text → List Text
  | [] => [[c]]
  | l :: ls => (c :: l) :: ls

def lines : Text → List Text
  | [] => [[]]
  | c :: r => if c = '\n' then [] :: lines r else consFirst c (lines r)

def unlines : List Text → Text
  | [] => []
  | [l] => l
  | l :: ls => l ++ '\n' :: unlines ls

theorem lines_ne_nil (t : Text) : lines t ≠ [] := by
  cases t with
  | nil => simp [lines]
  | cons c r =>
      simp only [lines]
      split
      · simp
      · cases lines r <;> simp [consFirst]

theorem unlines_consFirst (c : Char) {ls : List Text} (h : ls ≠ []) :
    unlines (consFirst c ls) = c :: unlines ls := by
  match ls with
  | [] => exact absurd rfl h
  | [_] => rfl
  | _ :: _ :: _ => rfl

theorem unlines_cons (l : Text) {ls : List Text} (h : ls ≠ []) :
    unlines (l :: ls) = l ++ '\n' :: unlines ls := by
  cases ls with
  | nil => exact absurd rfl h
  | cons _ _ => rfl

theorem unlines_lines (t : Text) : unlines (lines t) = t := by
  induction t with
  | nil => rfl
  | cons c r ih =>
      by_cases h : c = '\n'
      · simp [lines, h, unlines_cons _ (lines_ne_nil r), ih]
      · simp [lines, h, unlines_consFirst _ (lines_ne_nil r), ih]

theorem length_lines_pos (t : Text) : 0 < (lines t).length :=
  List.length_pos_iff.mpr (lines_ne_nil t)

/-- Drop the longest end all of whose characters satisfy `p`. -/
def dropEndWhile (p : Char → Bool) : Text → Text
  | [] => []
  | c :: r =>
      match dropEndWhile p r with
      | [] => if p c then [] else [c]
      | kept => c :: kept

/-- The end that `dropEndWhile` drops. -/
def takeEndWhile (p : Char → Bool) (t : Text) : Text :=
  t.drop (dropEndWhile p t).length

def trimBoth (p : Char → Bool) (t : Text) : Text :=
  dropEndWhile p (t.dropWhile p)

/-- Whether `needle` stands somewhere in the text. -/
def occursIn (needle : Text) : Text → Bool
  | [] => needle.isEmpty
  | c :: r => needle.isPrefixOf (c :: r) || occursIn needle r

theorem occursIn_iff {needle t : Text} : occursIn needle t = true ↔ needle <:+: t := by
  induction t with
  | nil => rw [occursIn, List.isEmpty_iff, List.infix_nil]
  | cons c r ih =>
      rw [occursIn, Bool.or_eq_true, List.isPrefixOf_iff_prefix, ih, List.infix_cons_iff]

theorem occursIn_of_append {needle front t : Text} (h : occursIn needle (front ++ t) = false) :
    occursIn needle t = false := by
  rw [← Bool.not_eq_true, occursIn_iff] at h ⊢
  exact mt (fun found => found.trans (List.suffix_append front t).isInfix) h

/-- Where the last occurrence of `needle` starts. -/
def lastIndexOf? (needle : Text) : Text → Option Nat
  | [] => if needle.isEmpty then some 0 else none
  | c :: r =>
      match lastIndexOf? needle r with
      | some i => some (i + 1)
      | none => if needle.isPrefixOf (c :: r) then some 0 else none

/-- A cut position counted from the start, or from the end when negative, and
kept inside the text. -/
def cut (t : Text) (i : Int) : Nat :=
  if i < 0 then (t.length + i).toNat else min i.toNat t.length

def upTo (t : Text) (i : Int) : Text := t.take (t.cut i)

def startingAt (t : Text) (i : Int) : Text := t.drop (t.cut i)

theorem cut_le (t : Text) (i : Int) : t.cut i ≤ t.length := by
  unfold cut
  split
  · omega
  · exact Nat.min_le_right _ _

def concatSep (sep : Text) : List Text → Text
  | [] => []
  | [t] => t
  | t :: ts => t ++ sep ++ concatSep sep ts

/-- A code point is in one of the closed ranges. -/
def inRanges (ranges : List (Nat × Nat)) (n : Nat) : Bool :=
  ranges.any fun r => r.1 ≤ n && n ≤ r.2

end Text
end MotionExpr

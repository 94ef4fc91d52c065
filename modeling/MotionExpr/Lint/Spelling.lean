import MotionExpr.Text.Case

/-!
Names that a misspelt one may have meant: one contains the other, or few edits
lie between them, both without regard to case. The edit distance is that of the table of all
beginnings, one row at a time.
-/

namespace MotionExpr

namespace EditDistance

/-- The entries of a row behind `left`; `above` is the row before, from the
entry over `left` on. -/
def rowBehind (d : Char) : Text → (above : List Nat) → (left : Nat) → List Nat
  | c :: cs, diagonal :: up :: above, left =>
      let cost := if c = d then 0 else 1
      let here := min (min (left + 1) (up + 1)) (diagonal + cost)
      here :: rowBehind d cs (up :: above) here
  | _, _, _ => []

def nextRow (a : Text) (row : List Nat) (d : Char) : List Nat :=
  let left := row.headD 0 + 1
  left :: rowBehind d a row left

def lastRow (a b : Text) : List Nat :=
  b.foldl (nextRow a) (List.range (a.length + 1))

def distance (a b : Text) : Nat := (lastRow a b).getLastD 0

end EditDistance

namespace Spelling

def maxSuggestions : Nat := 3

def maxEdits : Nat := 2

def resembles (target candidate : Text) : Bool :=
  let t := Text.lower target
  let c := Text.lower candidate
  Text.occursIn c t || Text.occursIn t c || EditDistance.distance t c ≤ maxEdits

def similar (target : Text) (candidates : List Text) : List Text :=
  (candidates.filter (resembles target)).take maxSuggestions

end Spelling

end MotionExpr

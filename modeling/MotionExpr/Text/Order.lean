import MotionExpr.Text.Basic

/-!
A stable insertion sort, and the order of texts by code point.
-/

namespace MotionExpr

/-- Put `x` in front of the first element that may stand after it. -/
def insertSorted {α : Type} (le : α → α → Bool) (x : α) : List α → List α
  | [] => [x]
  | y :: ys => if le x y then x :: y :: ys else y :: insertSorted le x ys

/-- Elements that are equal under `le` keep their order. -/
def stableSort {α : Type} (le : α → α → Bool) : List α → List α
  | [] => []
  | x :: xs => insertSorted le x (stableSort le xs)

theorem insertSorted_perm {α : Type} (le : α → α → Bool) (x : α) (xs : List α) :
    (insertSorted le x xs).Perm (x :: xs) := by
  induction xs with
  | nil => exact .refl _
  | cons y ys ih =>
      simp only [insertSorted]
      split
      · exact .refl _
      · exact (ih.cons y).trans (.swap x y ys)

theorem stableSort_perm {α : Type} (le : α → α → Bool) (xs : List α) :
    (stableSort le xs).Perm xs := by
  induction xs with
  | nil => exact .refl _
  | cons x xs ih => exact (insertSorted_perm le x _).trans (ih.cons x)

namespace Text

def le : Text → Text → Bool
  | [], _ => true
  | _ :: _, [] => false
  | c :: r, d :: s => c.toNat < d.toNat || (c == d && le r s)

end Text
end MotionExpr

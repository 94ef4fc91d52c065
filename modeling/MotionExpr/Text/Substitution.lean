import MotionExpr.Text.Basic

/-!
Leftmost substitution. A rule looks at the text already passed (nearest
character first) and at the text still ahead; where it applies it says how many
characters it consumes and what stands in their place, and the scan goes on
behind them. The text passed is always that of the input, never the result.
-/

namespace MotionExpr
namespace Text

structure Replacement where
  consumed : Nat
  text : Text

abbrev Rule := (passed ahead : Text) → Option Replacement

/-- `skip` counts the characters of the last match that are still to be passed. -/
def substituteFrom (rule : Rule) : (passed : Text) → (skip : Nat) → Text → Text
  | _, _, [] => []
  | passed, skip + 1, c :: r => substituteFrom rule (c :: passed) skip r
  | passed, 0, c :: r =>
      match rule passed (c :: r) with
      | some m => m.text ++ substituteFrom rule (c :: passed) (m.consumed - 1) r
      | none => c :: substituteFrom rule (c :: passed) 0 r

def substitute (rule : Rule) (t : Text) : Text := substituteFrom rule [] 0 t

/-- Passing characters is the same as starting behind them. -/
theorem substituteFrom_skip (rule : Rule) (passed : Text) (n : Nat) (t : Text) :
    substituteFrom rule passed n t = substituteFrom rule ((t.take n).reverse ++ passed) 0 (t.drop n) := by
  induction t generalizing passed n with
  | nil => cases n <;> rfl
  | cons c r ih =>
      cases n with
      | zero => rfl
      | succ n => simp [substituteFrom, ih]

theorem substituteFrom_of_none {rule : Rule} {passed : Text} {c : Char} {r : Text}
    (h : rule passed (c :: r) = none) :
    substituteFrom rule passed 0 (c :: r) = c :: substituteFrom rule (c :: passed) 0 r := by
  simp [substituteFrom, h]

theorem substituteFrom_of_some {rule : Rule} {passed : Text} {c : Char} {r : Text}
    {m : Replacement} (h : rule passed (c :: r) = some m) :
    substituteFrom rule passed 0 (c :: r) =
      m.text ++ substituteFrom rule (c :: passed) (m.consumed - 1) r := by
  simp [substituteFrom, h]

end Text
end MotionExpr

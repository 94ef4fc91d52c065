import MotionExpr.Text.Decimal

/-!
The number at the head of a run of digits and points, up to its second point,
compared with one as a double: a number no further above one than half a unit in
the last place counts as one.
-/

namespace MotionExpr
namespace Numeral

/-- Whole digits and digits behind the point; `none` where no digit begins. -/
def parts? (t : Text) : Option (Text × Text) :=
  match t.takeWhile Text.isDigit with
  | [] => none
  | whole =>
      match t.dropWhile Text.isDigit with
      | '.' :: r => some (whole, r.takeWhile Text.isDigit)
      | _ => some (whole, [])

/-- One is this many units in the last place below it. -/
def unitsOfOne : Nat := Nat.pow 2 53

def exceedsOne (t : Text) : Bool :=
  match parts? t with
  | none => false
  | some (whole, fraction) =>
      let scale := Nat.pow 10 fraction.length
      let value := Text.numeralValue whole * scale + Text.numeralValue fraction
      scale * (unitsOfOne + 1) < value * unitsOfOne

end Numeral
end MotionExpr

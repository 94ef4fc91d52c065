import MotionExpr.Text.Case
import MotionExpr.Text.Substitution
import MotionExpr.Text.Alphanumeric

/-!
Camel case: a lower-case ASCII letter, then ASCII letters and digits.
-/

namespace MotionExpr
namespace Naming

def isCamelCase : Text → Bool
  | [] => false
  | c :: r =>
      let body := if r.getLast? = some '\n' then r.dropLast else r
      'a' ≤ c && c ≤ 'z' && body.all fun d => Text.isAsciiLetter d || Text.isAsciiDigit d

def isSeparator (c : Char) : Bool := c == '-' || c == '_'

/-- A separator and the character behind it become that character in upper case. -/
def joinWords : Text.Rule := fun _ ahead =>
  match ahead with
  | s :: c :: _ => if isSeparator s && c != '\n' then some ⟨2, Text.upperChar c⟩ else none
  | _ => none

def toCamelCase (name : Text) : Text := Text.substitute joinWords name

end Naming
end MotionExpr

import MotionExpr.Text.Basic
import MotionExpr.Text.Decimal

/-!
Why a document is not read: it is malformed, or what it holds is well-formed but
too long or too deep to be taken in.
-/

namespace MotionExpr
namespace Toml

inductive Fault where
  | malformed
  | numeralTooLong (digits : Nat)
  | tooDeep
  deriving DecidableEq, Repr

def Fault.message : Fault → String
  | malformed => "<toml error>"
  | numeralTooLong digits => Text.unreadableNumeral digits
  | tooDeep => "maximum recursion depth exceeded"

/-- What is read, and the text behind it. -/
abbrev Parser (α : Type) := Text → Except Fault (α × Text)

def required {α : Type} : Option α → Except Fault α
  | some x => .ok x
  | none => .error .malformed

end Toml
end MotionExpr

import MotionExpr.Format.Literal

/-!
Why a pass can fail: a placeholder that cannot be restored, or a setting that
was accepted but is of no use to the pass.
-/

namespace MotionExpr

inductive PassFault where
  | literal (fault : Literal.Fault)
  | indentNotWhole (typeName : String)
  | indentTooWide
  | indentTooLarge
  | tabNotWhole (typeName : String)
  | tabTooWide
  | limitNotNumber (typeName : String)
  | limitNotWhole
  deriving DecidableEq, Repr

namespace PassFault

/-- An indentation that memory cannot hold has no text of its own. -/
def message : PassFault → String
  | literal fault => fault.message
  | indentNotWhole typeName => "can't multiply sequence by non-int of type '" ++ typeName ++ "'"
  | indentTooWide => ""
  | indentTooLarge => "cannot fit 'int' into an index-sized integer"
  | tabNotWhole typeName => "'" ++ typeName ++ "' object cannot be interpreted as an integer"
  | tabTooWide => "Python int too large to convert to C int"
  | limitNotNumber typeName =>
      "'>' not supported between instances of '" ++ typeName ++ "' and 'int'"
  | limitNotWhole => "slice indices must be integers or None or have an __index__ method"

/-- Where literals cannot be restored the pass fails. -/
def ofRestored {α : Type} : Except Literal.Fault α → Except PassFault α
  | .ok x => .ok x
  | .error fault => .error (literal fault)

end PassFault
end MotionExpr

import MotionExpr.Lint.Options

/-!
What a check sees: the tokens, the lines they come from, the options and the
profile. A finding is made from the token it spans.
-/

namespace MotionExpr

structure LintContext where
  tokens : List Token
  lines : List Text
  options : LintOptions
  profile : Profile

namespace LintContext

/-- The text of a line; nothing for a line that does not exist. -/
def lineText (x : LintContext) (line : Int) : Text :=
  if 1 ≤ line then (x.lines[(line - 1).toNat]?).getD [] else []

def finding (x : LintContext) (rule : Rule) (t : Token) (message : String)
    (suggestions : List Text) : Diagnostic where
  line := t.line
  column := t.column
  endLine := t.line
  endColumn := t.endColumn
  message := message
  severity := rule.severity
  rule := rule.id
  source := x.lineText t.line
  suggestions := some suggestions

end LintContext
end MotionExpr

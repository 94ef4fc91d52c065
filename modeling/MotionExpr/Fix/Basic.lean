import MotionExpr.Lint.Diagnostic

/-!
A quick fix replaces part of one line. Columns may be any integers: those at or
below zero count from the end of the line, and cuts stay inside it.
-/

namespace MotionExpr

structure QuickFix where
  title : String
  line : Int
  column : Int
  endLine : Int
  endColumn : Int
  newText : Text
  deriving DecidableEq, Repr

namespace QuickFix

def replaceInLine (f : QuickFix) (line : Text) : Text :=
  line.upTo (f.column - 1) ++ f.newText ++ line.startingAt (f.endColumn - 1)

/-- A line number outside the text leaves it alone. -/
def apply (source : Text) (f : QuickFix) : Text :=
  let lines := Text.lines source
  if 1 ≤ f.line ∧ f.line ≤ lines.length then
    Text.unlines (lines.modify (f.line - 1).toNat f.replaceInLine)
  else source

end QuickFix
end MotionExpr

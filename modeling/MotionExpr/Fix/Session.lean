import MotionExpr.Fix.Unattended
import MotionExpr.Lint.Engine

/-!
Fixing one text step by step: each step lints the present text first.
-/

namespace MotionExpr

inductive FixRequest where
  | list
  | all
  | one (n : Int)

structure FixOffer where
  rule : String
  line : Int
  column : Int
  newTexts : List Text

inductive FixAnswer where
  | offers (offers : List FixOffer)
  | text (source : Text)

namespace Linter

def offers (l : Linter) (source : Text) : List FixOffer :=
  (l.lint source).map fun d => ⟨d.rule, d.line, d.column, d.quickFixes.map (·.newText)⟩

/-- Apply the fix with number `n`, counted around all fixes of the text. -/
def applyNth (l : Linter) (source : Text) (n : Int) : Text :=
  let fixes := (l.lint source).flatMap (·.quickFixes)
  match fixes[(n.emod fixes.length).toNat]? with
  | some f => f.apply source
  | none => source

/-- The text after a request. -/
def fixStep (l : Linter) (source : Text) : FixRequest → Text
  | .list => source
  | .all => fixAll source (l.lint source)
  | .one n => l.applyNth source n

def fixAnswer (l : Linter) (source : Text) : FixRequest → FixAnswer
  | .list => .offers (l.offers source)
  | r => .text (l.fixStep source r)

end Linter
end MotionExpr

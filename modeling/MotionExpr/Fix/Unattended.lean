import MotionExpr.Fix.Offer
import MotionExpr.Text.Order

/-!
Fixing unattended: the first fix of every finding that allows it, from the end
of the text to its start so that the places of the remaining ones stay right. A
fix that reaches into the last one applied is left out.
-/

namespace MotionExpr
namespace QuickFix

/-- Later places first; equal places keep their order. -/
def notBefore (f g : QuickFix) : Bool :=
  g.line < f.line || (f.line == g.line && g.column ≤ f.column)

def reachesInto (f last : QuickFix) : Bool :=
  f.line == last.line && last.column < f.endColumn

/-- Those of the sorted fixes that are applied; `last` is the one before. -/
def select : (last : Option QuickFix) → List QuickFix → List QuickFix
  | _, [] => []
  | none, f :: fs => f :: select (some f) fs
  | some last, f :: fs =>
      if f.reachesInto last then select (some last) fs else f :: select (some f) fs

def chosen (found : List Diagnostic) : List QuickFix :=
  select none (stableSort notBefore (found.filterMap (·.autoFix?)))

def applyAll (source : Text) (fixes : List QuickFix) : Text := fixes.foldl apply source

end QuickFix

def fixAll (source : Text) (found : List Diagnostic) : Text :=
  QuickFix.applyAll source (QuickFix.chosen found)

end MotionExpr

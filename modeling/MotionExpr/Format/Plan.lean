import MotionExpr.Format.Pass
import MotionExpr.Format.Settings

/-!
The plan that settings make. It is the plan of the regular options, except for
the two passes that count columns: they fail, or measure lines only, where a
count is of no use to them.
-/

namespace MotionExpr

def Plan.failing (fault : PassFault) : Transformation := fun _ => .error fault

namespace FormatSettings

def indentation (s : FormatSettings) : Transformation :=
  match s.indentUnit with
  | .ok unit => fun t => .ok (Indentation.apply unit t)
  | .error fault => Plan.failing fault

/-- Comparing a line with the limit takes the width of tabs first. -/
def withTabs (s : FormatSettings) (f : Transformation) : Transformation :=
  match s.tabCount with
  | .ok _ => f
  | .error fault => Plan.failing fault

def lineLength (s : FormatSettings) : Option Transformation :=
  match s.lineLimit with
  | .columns n => if 0 < n then some (s.withTabs fun t => .ok (Wrap.apply s.regular t)) else none
  | .measure x => if 0 < x then some (s.withTabs (Wrap.measure s.regular x)) else none
  | .notNumber typeName => some (Plan.failing (.limitNotNumber typeName))

def planOf (s : FormatSettings) : Plan
  | .indentation => some s.indentation
  | .lineLength => s.lineLength
  | p => s.regular.plan p

/-- Settings that are not accepted make no plan. -/
def plan (s : FormatSettings) : Except SettingFault Plan := s.validate.map fun _ => s.planOf

/-- Options and the settings that say the same make one plan. -/
theorem plan_ofOptions (o : FormatOptions) : (ofOptions o).plan = .ok o.plan := by
  simp only [plan, validate_ofOptions, Except.map, Except.ok.injEq]
  funext p
  cases p with
  | indentation =>
      simp [planOf, indentation, indentUnit_ofOptions, FormatOptions.plan, Pass.enabled,
        Pass.apply, PassFault.ofRestored]
  | lineLength =>
      simp [planOf, lineLength, lineLimit_ofOptions, withTabs, tabCount_ofOptions,
        regular_ofOptions, FormatOptions.plan, Pass.enabled, Pass.apply, PassFault.ofRestored]
  | _ => simp [planOf, regular_ofOptions]

/-! Single lines under settings. -/

def width (s : FormatSettings) (line : Text) : Except PassFault Nat :=
  s.tabCount.map fun _ => Wrap.width s.regular line

def pieces (s : FormatSettings) (line : Text) : Except PassFault (List Text) := do
  let _ ← s.tabCount
  match s.lineLimit with
  | .columns _ => return Wrap.pieces s.regular line
  | .measure x => Wrap.measuredPieces s.regular x line
  | .notNumber typeName => throw (.limitNotNumber typeName)

end FormatSettings
end MotionExpr

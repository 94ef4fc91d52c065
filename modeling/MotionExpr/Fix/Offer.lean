import MotionExpr.Fix.Basic
import MotionExpr.Lint.Rule
import MotionExpr.Text.Identifier

/-!
The quick fixes that a finding offers: one for each suggestion that can stand in
place of the flagged text. Advice to use an arrow function is no replacement for
a keyword, so that rule offers identifiers only.
-/

namespace MotionExpr

def Rule.accepts : Rule → Text → Bool
  | .modernWording, t => Text.isIdentifier t
  | _, _ => true

namespace Diagnostic

def replacements (d : Diagnostic) : List Text :=
  match Rule.ofId? d.rule with
  | none => []
  | some r => if r.quickFixable then (d.suggestions.getD []).filter r.accepts else []

def fixWith (d : Diagnostic) (newText : Text) : QuickFix where
  title := "Replace with '" ++ String.ofList newText ++ "'"
  line := d.line
  column := d.column
  endLine := d.endLine
  endColumn := d.endColumn
  newText := newText

def quickFixes (d : Diagnostic) : List QuickFix := d.replacements.map d.fixWith

def isAutoFixable (d : Diagnostic) : Bool :=
  match Rule.ofId? d.rule with
  | none => false
  | some r => r.autoFixable

/-- The fix that is applied unattended, if the finding has one. -/
def autoFix? (d : Diagnostic) : Option QuickFix :=
  if d.isAutoFixable then d.quickFixes.head? else none

end Diagnostic
end MotionExpr

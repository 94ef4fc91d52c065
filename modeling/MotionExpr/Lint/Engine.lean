import MotionExpr.Lint.Check
import MotionExpr.Token.Lexer

/-!
Linting a text: every rule that is on reports in catalogue order. A rule whose
check fails reports nothing and is noted as skipped.
-/

namespace MotionExpr

def Rule.check : Rule → LintContext → Except CheckFault (List Diagnostic)
  | .undefinedNames, x => .ok (Check.undefinedNames x)
  | .deprecatedNames, x => .ok (Check.deprecatedNames x)
  | .modernWording, x => .ok (Check.modernWording x)
  | .infiniteLoops, x => .ok (Check.infiniteLoops x)
  | .complexity, x => Check.complexity x
  | .unusedNames, x => .ok (Check.unusedNames x)
  | .constants, x => .ok (Check.constants x)
  | .magicNumbers, x => .ok (Check.magicNumbers x)
  | .naming, x => .ok (Check.naming x)
  | .costlyCalls, x => .ok (Check.costlyCalls x)

/-- What a rule contributes: nothing when its check fails. -/
def Rule.report (r : Rule) (x : LintContext) : List Diagnostic :=
  match r.check x with
  | .ok found => found
  | .error _ => []

def Rule.fails (r : Rule) (x : LintContext) : Bool :=
  match r.check x with
  | .ok _ => false
  | .error _ => true

/-- A catalogue entry with the state that options give it. -/
structure RuleInfo where
  rule : Rule
  enabled : Bool

structure Linter where
  options : LintOptions := {}
  profile : Profile := Profile.standard

namespace Linter

def context (p : Profile) (o : LintOptions) (source : Text) : LintContext where
  tokens := Token.tokenize p source
  lines := Text.lines source
  options := o
  profile := p

def enabledRules (o : LintOptions) : List Rule := Rule.all.filter fun r => o.isEnabled r.id

def run (o : LintOptions) (x : LintContext) : List Diagnostic :=
  let found := (enabledRules o).flatMap fun r => r.report x
  if o.strictMode.isTruthy then found.map (·.promote) else found

def lintWith (l : Linter) (o : LintOptions) (source : Text) : List Diagnostic :=
  run o (context l.profile o source)

def lint (l : Linter) (source : Text) : List Diagnostic := l.lintWith l.options source

/-- The rules that are on and whose check fails on this text. -/
def skipped (l : Linter) (o : LintOptions) (source : Text) : List Rule :=
  (enabledRules o).filter fun r => r.fails (context l.profile o source)

def catalogue (o : LintOptions) : List RuleInfo :=
  Rule.all.map fun r => ⟨r, o.isEnabled r.id⟩

end Linter
end MotionExpr

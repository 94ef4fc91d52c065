import MotionExpr.Lint.Diagnostic

/-!
The catalogue of rules, in the order in which they run and report.
-/

namespace MotionExpr

inductive Category where
  | wellFormed
  | performance
  | deprecated
  | bestPractice
  deriving DecidableEq, Repr

def Category.label : Category → String
  | wellFormed => "syntax"
  | performance => "performance"
  | deprecated => "deprecated"
  | bestPractice => "best-practice"

inductive Rule where
  | undefinedNames
  | deprecatedNames
  | modernWording
  | infiniteLoops
  | complexity
  | unusedNames
  | constants
  | magicNumbers
  | naming
  | costlyCalls
  deriving DecidableEq, Repr

namespace Rule

def all : List Rule :=
  [undefinedNames, deprecatedNames, modernWording, infiniteLoops, complexity, unusedNames,
    constants, magicNumbers, naming, costlyCalls]

theorem mem_all (r : Rule) : r ∈ all := by cases r <;> decide

def id : Rule → String
  | undefinedNames => "no-undefined-variables"
  | deprecatedNames => "no-deprecated-functions"
  | modernWording => "prefer-modern-syntax"
  | infiniteLoops => "no-infinite-loops"
  | complexity => "max-complexity"
  | unusedNames => "no-unused-variables"
  | constants => "prefer-const"
  | magicNumbers => "no-magic-numbers"
  | naming => "consistent-naming"
  | costlyCalls => "performance-warnings"

def ofId? (s : String) : Option Rule := all.find? fun r => r.id == s

theorem ofId?_id (r : Rule) : ofId? r.id = some r := by cases r <;> decide

def name : Rule → String
  | undefinedNames => "No Undefined Variables"
  | deprecatedNames => "No Deprecated Functions"
  | modernWording => "Prefer Modern Syntax"
  | infiniteLoops => "No Infinite Loops"
  | complexity => "Maximum Complexity"
  | unusedNames => "No Unused Variables"
  | constants => "Prefer Const"
  | magicNumbers => "No Magic Numbers"
  | naming => "Consistent Naming"
  | costlyCalls => "Performance Warnings"

def description : Rule → String
  | undefinedNames => "Detect usage of undefined variables"
  | deprecatedNames => "Warn about deprecated After Effects functions"
  | modernWording => "Suggest modern JavaScript syntax"
  | infiniteLoops => "Detect potential infinite loops"
  | complexity => "Limit cyclomatic complexity"
  | unusedNames => "Detect unused variable declarations"
  | constants => "Prefer const over var for constants"
  | magicNumbers => "Avoid magic numbers in expressions"
  | naming => "Use consistent variable naming conventions"
  | costlyCalls => "Warn about potential performance issues"

def severity : Rule → Severity
  | undefinedNames | infiniteLoops => .error
  | deprecatedNames | complexity | unusedNames | costlyCalls => .warning
  | modernWording | constants | magicNumbers | naming => .info

def category : Rule → Category
  | undefinedNames => .wellFormed
  | deprecatedNames => .deprecated
  | infiniteLoops | complexity | costlyCalls => .performance
  | modernWording | unusedNames | constants | magicNumbers | naming => .bestPractice

def onByDefault : Rule → Bool
  | magicNumbers => false
  | _ => true

/-- The first suggestion may be applied unattended. -/
def autoFixable : Rule → Bool
  | deprecatedNames | modernWording | constants => true
  | _ => false

/-- The suggestions are replacements for the flagged text. -/
def quickFixable : Rule → Bool
  | undefinedNames | naming => true
  | r => r.autoFixable

theorem quickFixable_of_autoFixable {r : Rule} (h : r.autoFixable = true) :
    r.quickFixable = true := by
  cases r <;> first | rfl | cases h

end Rule
end MotionExpr

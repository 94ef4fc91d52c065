import MotionExpr.Lint.Context
import MotionExpr.Lint.Declaration
import MotionExpr.Lint.Naming
import MotionExpr.Lint.Numeral
import MotionExpr.Lint.Spelling
import MotionExpr.Text.Decimal

/-!
The checks of the rules, in the order of the catalogue. A check reads the tokens and the lines of a
text and gives its findings; only the one that compares a number with a limit can fail.
-/

namespace MotionExpr

inductive CheckFault where
  | limitNotNumber
  deriving DecidableEq, Repr

namespace Check

/-! Names that nothing defines. The defined names are those declared on their line,
in the order of declaration, and then the built-in ones. -/

def definedNames (p : Profile) (tokens : List Token) : List Text :=
  Profile.distinct ((Declaration.onLine tokens).map (·.text) ++ p.builtins)

def isKnown (p : Profile) (defined : List Text) (name : Text) : Bool :=
  defined.contains name || p.globalFunctions.contains name || (p.deprecation? name).isSome

def undefinedNames (x : LintContext) : List Diagnostic :=
  let defined := definedNames x.profile x.tokens
  (x.tokens.filter fun t => t.isIdentifier && !isKnown x.profile defined t.text).map fun t =>
    x.finding .undefinedNames t ("'" ++ String.ofList t.text ++ "' is not defined")
      (Spelling.similar t.text defined)

/-! Deprecated names. The replacement is the only suggestion. -/

def deprecatedNames (x : LintContext) : List Diagnostic :=
  if x.options.allowDeprecated.isTruthy then []
  else x.tokens.filterMap fun t =>
    if t.isIdentifier then
      (x.profile.deprecation? t.text).map fun d =>
        x.finding .deprecatedNames t ("'" ++ String.ofList t.text ++ "' is deprecated. " ++ d.reason)
          [d.replacement]
    else none

/-! Older wording: `var`, and a function without a name. The last token of a text is
never flagged, as nothing follows it. -/

def olderWording (x : LintContext) (t next : Token) : List Diagnostic :=
  if t.isKeyword (Language.names ["var"]) then
    [x.finding .modernWording t "Consider using 'let' or 'const' instead of 'var'"
      ["let".toList, "const".toList]]
  else if t.isKeyword (Language.names ["function"]) && next.isPunctuation '(' then
    [x.finding .modernWording t "Consider using arrow function syntax"
      ["() => \x7b\x7d".toList]]
  else []

def wordingFrom (x : LintContext) : List Token → List Diagnostic
  | t :: next :: ts => olderWording x t next ++ wordingFrom x (next :: ts)
  | _ => []

def modernWording (x : LintContext) : List Diagnostic := wordingFrom x x.tokens

/-! Loops without an end. The test reads the text of the line, so any loop keyword
on a line with an endless `while` is flagged. -/

def hasEndlessLoop (line : Text) : Bool :=
  Text.occursIn "while(true)".toList line || Text.occursIn "while (true)".toList line

def infiniteLoops (x : LintContext) : List Diagnostic :=
  (x.tokens.filter fun t =>
      t.isKeyword Language.loopKeywords && hasEndlessLoop (x.lineText t.line)).map fun t =>
    x.finding .infiniteLoops t "Potential infinite loop detected"
      ["Add a break condition".toList, "Use a counter variable".toList]

/-! Cyclomatic complexity: one, and one more for each branching keyword and each
logical operator. The finding spans the whole text. -/

def branches (t : Token) : Bool :=
  t.isKeyword Language.branchKeywords ||
    (t.kind = .operator && Language.logicalOperators.contains t.text)

def complexityScore (tokens : List Token) : Nat := 1 + tokens.countP branches

def tooComplex (x : LintContext) (score : Nat) : Diagnostic where
  line := 1
  column := 1
  endLine := x.lines.length
  endColumn := max 1 ((x.lines.getLastD []).length : Int)
  message := "Expression complexity (" ++ String.ofList (Text.ofNat score) ++
    ") exceeds maximum allowed (" ++ String.ofList x.options.maxComplexity.text ++ ")"
  severity := Rule.complexity.severity
  rule := Rule.complexity.id
  source := "entire expression".toList
  suggestions := some ["Break down into smaller functions".toList,
    "Simplify conditional logic".toList]

def complexity (x : LintContext) : Except CheckFault (List Diagnostic) :=
  let score := complexityScore x.tokens
  match x.options.maxComplexity.admits? score with
  | none => .error .limitNotNumber
  | some true => .ok []
  | some false => .ok [tooComplex x score]

/-! Declared names that are never used. The declaring token counts as a use. -/

def isUsed (tokens : List Token) (name : Text) : Bool :=
  tokens.any fun t => t.isIdentifier && t.text == name

def unusedNames (x : LintContext) : List Diagnostic :=
  ((Declaration.immediate x.tokens).filter fun t => !isUsed x.tokens t.text).map fun t =>
    x.finding .unusedNames t ("'" ++ String.ofList t.text ++ "' is declared but never used")
      ["Remove '".toList ++ t.text ++ "' declaration".toList]

/-! Variables that could be constants: at most one plain assignment names them. An
assignment is counted where something follows its equals sign. -/

def assignmentCount (name : Text) : List Token → Nat
  | t :: u :: v :: ts =>
      (if t.isIdentifier && t.text == name && u.text == ['='] then 1 else 0) +
        assignmentCount name (u :: v :: ts)
  | _ => 0

def constantsFrom (x : LintContext) : List Token → List Diagnostic
  | t :: u :: ts =>
      if t.isKeyword (Language.names ["var"]) && u.isIdentifier &&
          assignmentCount u.text x.tokens ≤ 1 then
        x.finding .constants t
          ("'" ++ String.ofList u.text ++ "' is never reassigned. Use 'const' instead of 'var'")
          ["const".toList] :: constantsFrom x (u :: ts)
      else constantsFrom x (u :: ts)
  | _ => []

def constants (x : LintContext) : List Diagnostic := constantsFrom x x.tokens

/-! Numbers above one that deserve a name, the allowed ones apart. -/

def isMagic (p : Profile) (t : Token) : Bool :=
  t.kind = .number && !p.allowedNumbers.contains t.text && Numeral.exceedsOne t.text

def magicNumbers (x : LintContext) : List Diagnostic :=
  (x.tokens.filter (isMagic x.profile)).map fun t =>
    x.finding .magicNumbers t
      ("Magic number '" ++ String.ofList t.text ++ "' should be replaced with a named constant")
      ["const CONSTANT_NAME = ".toList ++ t.text]

/-! Identifiers that are not in camel case; names of the host are exempt. -/

def isMisnamed (p : Profile) (t : Token) : Bool :=
  t.isIdentifier && !Naming.isCamelCase t.text &&
    !p.globalFunctions.contains t.text && !p.layerProperties.contains t.text

def naming (x : LintContext) : List Diagnostic :=
  (x.tokens.filter (isMisnamed x.profile)).map fun t =>
    x.finding .naming t ("'" ++ String.ofList t.text ++ "' should use camelCase naming convention")
      [Naming.toCamelCase t.text]

/-! Expensive functions inside loops. One counter stands for the nesting: a loop
keyword raises it and a closing brace lowers it, but not below zero. -/

def loopDepth (depth : Nat) (t : Token) : Nat :=
  if t.isKeyword Language.loopKeywords then depth + 1
  else if t.isPunctuation '\x7d' then depth - 1
  else depth

def isCostly (p : Profile) (t : Token) : Bool :=
  t.kind = .hostFunction && p.expensive.contains t.text

def costlyTokens (p : Profile) : (depth : Nat) → List Token → List Token
  | _, [] => []
  | depth, t :: ts =>
      let inside := loopDepth depth t
      if inside ≠ 0 && isCostly p t then t :: costlyTokens p inside ts
      else costlyTokens p inside ts

def costlyCalls (x : LintContext) : List Diagnostic :=
  (costlyTokens x.profile 0 x.tokens).map fun t =>
    x.finding .costlyCalls t
      ("'" ++ String.ofList t.text ++ "' inside a loop may cause performance issues")
      ["Move expensive operations outside the loop".toList, "Cache the result".toList]

end Check
end MotionExpr

import MotionExpr.Text.Basic

/-!
Formatting options that every pass can use. A tab is at least one column wide,
and sizes are bounded so that a line can be built from them.
-/

namespace MotionExpr

inductive IndentStyle where
  | spaces
  | tabs
  deriving DecidableEq, Repr

inductive QuoteStyle where
  | single
  | double
  deriving DecidableEq, Repr

def IndentStyle.label : IndentStyle → String
  | spaces => "spaces"
  | tabs => "tabs"

def QuoteStyle.label : QuoteStyle → String
  | single => "single"
  | double => "double"

def QuoteStyle.mark : QuoteStyle → Char
  | single => '\''
  | double => '"'

def QuoteStyle.other : QuoteStyle → QuoteStyle
  | single => double
  | double => single

/-- The widest tab. -/
def maxTabSize : Nat := 2147483647

/-- The widest indentation that there is memory for. -/
def maxIndentSize : Nat := 68719476736

/-- One level of indentation: a character and how often it stands. -/
structure IndentUnit where
  char : Char
  count : Nat
  deriving DecidableEq, Repr

namespace IndentUnit

def tab : IndentUnit := ⟨'\t', 1⟩

def spaces (count : Nat) : IndentUnit := ⟨' ', count⟩

/-- The indentation of a level. -/
def atLevel (u : IndentUnit) (level : Nat) : Text := List.replicate (level * u.count) u.char

theorem length_atLevel (u : IndentUnit) (level : Nat) :
    (u.atLevel level).length = level * u.count := by
  simp [atLevel]

end IndentUnit

structure FormatOptions where
  tabSize : Nat := 2
  insertSpaces : Bool := true
  indentSize : Nat := 2
  maxLineLength : Int := 80
  insertFinalNewline : Bool := true
  trimTrailingBlanks : Bool := true
  indentStyle : IndentStyle := .spaces
  bracketSpacing : Bool := true
  semicolons : Bool := true
  quoteStyle : QuoteStyle := .double
  tabSize_pos : 0 < tabSize := by decide
  tabSize_le : tabSize ≤ maxTabSize := by decide
  indentSize_le : indentSize ≤ maxIndentSize := by decide

namespace FormatOptions

def indentUnit (o : FormatOptions) : IndentUnit :=
  if o.indentStyle = .tabs || !o.insertSpaces then .tab else .spaces o.indentSize

end FormatOptions
end MotionExpr

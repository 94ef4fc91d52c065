import MotionExpr.Format.Fault
import MotionExpr.Format.Line
import MotionExpr.Format.Indentation
import MotionExpr.Format.Spacing
import MotionExpr.Format.Semicolon
import MotionExpr.Format.Literal
import MotionExpr.Format.Wrap

/-!
The passes over a text, in the order in which they run, and plans: what each
pass does to a text under given options.
-/

namespace MotionExpr

inductive Pass where
  | lineEndings
  | trailingBlanks
  | indentation
  | brackets
  | calls
  | operators
  | commas
  | semicolons
  | quotes
  | lineLength
  | finalNewline
  deriving DecidableEq, Repr

namespace Pass

def all : List Pass :=
  [lineEndings, trailingBlanks, indentation, brackets, calls, operators, commas, semicolons,
    quotes, lineLength, finalNewline]

theorem mem_all (p : Pass) : p ∈ all := by cases p <;> decide

def name : Pass → String
  | lineEndings => "line-endings"
  | trailingBlanks => "trailing-whitespace"
  | indentation => "indentation"
  | brackets => "bracket-spacing"
  | calls => "call-parenthesis"
  | operators => "operator-spacing"
  | commas => "comma-spacing"
  | semicolons => "semicolons"
  | quotes => "quote-style"
  | lineLength => "line-length"
  | finalNewline => "final-newline"

def ofName? (s : String) : Option Pass := all.find? fun p => p.name == s

def enabled (o : FormatOptions) : Pass → Bool
  | trailingBlanks => o.trimTrailingBlanks
  | brackets => o.bracketSpacing
  | semicolons => o.semicolons
  | lineLength => 0 < o.maxLineLength
  | finalNewline => o.insertFinalNewline
  | _ => true

def apply (o : FormatOptions) : Pass → Text → Except Literal.Fault Text
  | lineEndings, t => .ok (LineEnd.unify t)
  | trailingBlanks, t => .ok (LineEnd.trim t)
  | indentation, t => .ok (Indentation.apply o.indentUnit t)
  | brackets, t => Line.mapLines (Line.mapCode Bracket.space) t
  | calls, t => Line.mapLines (Line.mapCode Call.tighten) t
  | operators, t => Line.mapLines (Line.mapCode Operator.space) t
  | commas, t => Line.mapLines (Line.mapCode Comma.space) t
  | semicolons, t => Line.mapLines Semicolon.terminateLine t
  | quotes, t => .ok (Quote.restyle o.quoteStyle t)
  | lineLength, t => .ok (Wrap.apply o t)
  | finalNewline, t => .ok (LineEnd.close t)

end Pass

/-- What a pass does to a text. -/
abbrev Transformation := Text → Except PassFault Text

/-- The transformation of every pass; `none` where the pass is off. -/
abbrev Plan := Pass → Option Transformation

namespace Plan

def without (plan : Plan) (p : Pass) : Plan := fun q => if q = p then none else plan q

end Plan

def FormatOptions.plan (o : FormatOptions) : Plan := fun p =>
  if p.enabled o then some fun t => PassFault.ofRestored (p.apply o t) else none

end MotionExpr

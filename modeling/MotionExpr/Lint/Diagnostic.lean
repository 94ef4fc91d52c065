import MotionExpr.Token.Basic

/-!
Findings. A finding spans part of the text, names its rule and may carry
suggested replacements or advice.
-/

namespace MotionExpr

inductive Severity where
  | error
  | warning
  | info
  deriving DecidableEq, Repr

namespace Severity

def all : List Severity := [error, warning, info]

def label : Severity → String
  | error => "error"
  | warning => "warning"
  | info => "info"

/-- The spelling in reports. -/
def heading : Severity → String
  | error => "ERROR"
  | warning => "WARNING"
  | info => "INFO"

def rank : Severity → Nat
  | error => 3
  | warning => 2
  | info => 1

def ofLabel? (s : String) : Option Severity := all.find? fun v => v.label == s

/-- Strict mode has no mere hints. -/
def promote : Severity → Severity
  | info => warning
  | s => s

end Severity

/-- `endColumn` is exclusive; `source` is the text of the line. Rules are named
by their ids, since findings may also come from elsewhere. -/
structure Diagnostic where
  line : Int
  column : Int
  endLine : Int
  endColumn : Int
  message : String
  severity : Severity
  rule : String
  source : Text
  suggestions : Option (List Text)
  deriving DecidableEq, Repr

namespace Diagnostic

def promote (d : Diagnostic) : Diagnostic := { d with severity := d.severity.promote }

end Diagnostic
end MotionExpr

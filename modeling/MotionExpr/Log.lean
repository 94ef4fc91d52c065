/-!
Notes for the log. They are part of what a run returns, beside its result.
-/

namespace MotionExpr

inductive LogLevel where
  | warning
  | error
  deriving DecidableEq, Repr

def LogLevel.label : LogLevel → String
  | warning => "WARNING"
  | error => "ERROR"

/-- The part of the program that writes a note. -/
inductive Component where
  | configuration
  | linter
  | formatter
  deriving DecidableEq, Repr

def Component.label : Component → String
  | configuration => "configuration"
  | linter => "linter"
  | formatter => "formatter"

structure LogRecord where
  level : LogLevel
  component : Component
  message : String
  deriving DecidableEq, Repr

abbrev Log := List LogRecord

end MotionExpr

import MotionExpr.Format.Pass

/-!
Running the passes of a plan. If one fails, the text comes back as it was and
the failure names the pass.
-/

namespace MotionExpr

structure PassFailure where
  pass : Pass
  fault : PassFault
  deriving DecidableEq, Repr

def PassFailure.message (f : PassFailure) : String := f.pass.name ++ ": " ++ f.fault.message

structure FormatResult where
  text : Text
  modified : Bool
  failure : Option PassFailure
  deriving DecidableEq, Repr

namespace FormatResult

def errors (r : FormatResult) : List String := r.failure.toList.map (·.message)

end FormatResult

structure Formatter where
  plan : Plan := FormatOptions.plan {}
  passes : List Pass := Pass.all

namespace Formatter

def runPasses (plan : Plan) : List Pass → Text → Except PassFailure Text
  | [], t => .ok t
  | p :: ps, t =>
      match plan p with
      | none => runPasses plan ps t
      | some f => match f t with
        | .ok u => runPasses plan ps u
        | .error fault => .error ⟨p, fault⟩

def formatWith (f : Formatter) (plan : Plan) (source : Text) : FormatResult :=
  match runPasses plan f.passes source with
  | .ok t => ⟨t, t ≠ source, none⟩
  | .error failure => ⟨source, false, some failure⟩

def format (f : Formatter) (source : Text) : FormatResult := f.formatWith f.plan source

/-- What one pass did to a text. -/
inductive PassOutcome where
  | disabled
  | unchanged
  | changed (text : Text)
  | failed (fault : PassFault)
  deriving DecidableEq, Repr

def outcome (plan : Plan) (p : Pass) (t : Text) : PassOutcome :=
  match plan p with
  | none => .disabled
  | some f => match f t with
    | .ok u => if u = t then .unchanged else .changed u
    | .error fault => .failed fault

/-- The passes one by one, up to the first that fails. -/
def trace (plan : Plan) : List Pass → Text → List (Pass × PassOutcome)
  | [], _ => []
  | p :: ps, t =>
      match outcome plan p t with
      | .changed u => (p, .changed u) :: trace plan ps u
      | .failed fault => [(p, .failed fault)]
      | same => (p, same) :: trace plan ps t

end Formatter
end MotionExpr

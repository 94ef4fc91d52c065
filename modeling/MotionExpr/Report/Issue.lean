import MotionExpr.Lint.Diagnostic
import MotionExpr.Report.Json
import MotionExpr.Text.Order

/-!
Reports on several files. An issue is a finding with the file it is in; the
report counts its issues by severity.
-/

namespace MotionExpr

structure Issue where
  path : Text
  finding : Diagnostic
  autoFixable : Bool
  deriving DecidableEq, Repr

namespace Issue

/-- By file, line and column; issues at one place keep their order. -/
def le (a b : Issue) : Bool :=
  if a.path = b.path then
    a.finding.line < b.finding.line ||
      (a.finding.line == b.finding.line && a.finding.column ≤ b.finding.column)
  else Text.le a.path b.path

def isError (i : Issue) : Bool := i.finding.severity = .error

def toJson (i : Issue) : JsonValue :=
  let d := i.finding
  .object [
    ("severity", .string d.severity.heading.toList),
    ("file_path", .string i.path),
    ("line_number", .number d.line),
    ("column", .number d.column),
    ("end_line", .number d.endLine),
    ("end_column", .number d.endColumn),
    ("rule_id", .string d.rule.toList),
    ("message", .string d.message.toList),
    ("suggestions", .array ((d.suggestions.getD []).map .string)),
    ("auto_fixable", .bool i.autoFixable)]

end Issue

structure Report where
  issues : List Issue
  fixedFiles : Option (List Text) := none

namespace Report

def count (r : Report) (s : Severity) : Nat :=
  r.issues.countP fun i => i.finding.severity = s

theorem count_add (r : Report) :
    r.count .error + r.count .warning + r.count .info = r.issues.length := by
  obtain ⟨issues, _⟩ := r
  simp only [count]
  induction issues with
  | nil => rfl
  | cons i is ih =>
      simp only [List.countP_cons, List.length_cons]
      cases i.finding.severity <;> simp <;> omega

def toJson (r : Report) : JsonValue :=
  .object [
    ("issues", .array (r.issues.map (·.toJson))),
    ("total", .number r.issues.length),
    ("errors", .number (r.count .error)),
    ("warnings", .number (r.count .warning)),
    ("infos", .number (r.count .info)),
    ("fixed_files", match r.fixedFiles with
      | some paths => .array (paths.map .string)
      | none => .null)]

/-- The text of a report; compact unless an indentation is given. -/
def text (r : Report) (indent : Option Nat) : Text :=
  match indent with
  | none => r.toJson.compact
  | some n => r.toJson.pretty n

end Report
end MotionExpr

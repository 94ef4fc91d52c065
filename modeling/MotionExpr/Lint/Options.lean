import MotionExpr.Lint.Rule
import MotionExpr.Value.Basic

/-!
Lint options. Settings are kept as they were given: a rule is on where its value
counts as true, and a rule that the map leaves out falls back to the catalogue.
-/

namespace MotionExpr

inductive OptionFault where
  | unknownOption (key : String)
  | unknownRule (id : String)
  | rulesNotTable
  | noLookup
  deriving DecidableEq, Repr

def OptionFault.message : OptionFault → String
  | unknownOption key => "Unknown option '" ++ key ++ "'"
  | unknownRule id => "Unknown rule '" ++ id ++ "'"
  | rulesNotTable => "rules is not a table"
  | noLookup => "no rule can be looked up in what is not a table"

def Rule.defaults : Value.Fields :=
  Rule.all.map fun r => (r.id, .bool r.onByDefault)

structure LintOptions where
  rules : Value.Fields := Rule.defaults
  maxComplexity : Value := .int 10
  maxLineLength : Value := .int 120
  allowDeprecated : Value := .bool false
  strictMode : Value := .bool false

namespace LintOptions

/-- What a rule does where the options say nothing about it. -/
def fallback (id : String) : Bool :=
  ((Rule.ofId? id).map (·.onByDefault)).getD false

def isEnabled (o : LintOptions) (id : String) : Bool :=
  ((Value.field? o.rules id).map (·.isTruthy)).getD (fallback id)

/-- Switch one rule of the catalogue. -/
def withRule (o : LintOptions) (id : String) (enabled : Value) : Except OptionFault LintOptions :=
  match Rule.ofId? id with
  | none => .error (.unknownRule id)
  | some _ => .ok { o with rules := Value.setField o.rules id enabled }

def set (o : LintOptions) (key : String) (v : Value) : Except OptionFault LintOptions :=
  match key with
  | "rules" =>
      match v with
      | .table rules => .ok { o with rules }
      | _ => .error .rulesNotTable
  | "max_complexity" => .ok { o with maxComplexity := v }
  | "max_line_length" => .ok { o with maxLineLength := v }
  | "allow_deprecated" => .ok { o with allowDeprecated := v }
  | "strict_mode" => .ok { o with strictMode := v }
  | _ => .error (.unknownOption key)

def keys : List String :=
  ["rules", "max_complexity", "max_line_length", "allow_deprecated", "strict_mode"]

/-- Given rules replace the whole map. -/
def ofFields (fields : Value.Fields) : Except OptionFault LintOptions :=
  fields.foldlM (fun o f => o.set f.1 f.2) {}

/-- Given rules are laid over the present ones, all else is replaced. -/
def change (o : LintOptions) (key : String) (v : Value) : Except OptionFault LintOptions :=
  match key, v with
  | "rules", .table rules => .ok { o with rules := Value.overlay o.rules rules }
  | _, _ => o.set key v

def withChanges (o : LintOptions) (changes : Value.Fields) : Except OptionFault LintOptions :=
  changes.foldlM (fun o f => o.change f.1 f.2) o

def toFields (o : LintOptions) : Value.Fields :=
  [("rules", .table o.rules), ("max_complexity", o.maxComplexity),
    ("max_line_length", o.maxLineLength), ("allow_deprecated", o.allowDeprecated),
    ("strict_mode", o.strictMode)]

end LintOptions
end MotionExpr

import MotionExpr.Format.Settings
import MotionExpr.Lint.Options
import MotionExpr.Log
import MotionExpr.Text.Order
import MotionExpr.Toml.Fault

/-!
The settings of a project, read from the table `tool.aexpr` of a document. What
has the wrong type or an unknown name is left out and noted in the log. Numbers that
have too many digits and values that nest too deep are not passed over in this
way: no settings are loaded at all.
-/

namespace MotionExpr

structure ProjectConfig where
  lint : Value.Fields := []
  format : Value.Fields := []
  rules : Value.Fields := []
  builtins : List Text := []

/-- A result with the notes made on the way. -/
structure Noted (α : Type) where
  result : α
  log : Log := []

inductive ConfigFault where
  | document (fault : Toml.Fault)
  | unwritableName
  deriving DecidableEq, Repr

def ConfigFault.message : ConfigFault → String
  | document fault => fault.message
  | unwritableName => Text.unwritableNumber

namespace ProjectConfig

def warn (message : String) : LogRecord := ⟨.warning, .configuration, message⟩

/-- The table under a key; nothing where the key is missing. -/
def table (fields : Value.Fields) (key path : String) : Noted Value.Fields :=
  match Value.field? fields key with
  | none => ⟨[], []⟩
  | some (.table sub) => ⟨sub, []⟩
  | some v => ⟨[], [warn ("Ignoring '" ++ key ++ "' in " ++ path ++ ": expected a table, got " ++
      v.typeName)]⟩

/-- The texts of a list of names, whatever its items are. -/
def customNames (builtins : Value.Fields) (path : String) :
    Noted (Except ConfigFault (List Text)) :=
  match Value.field? builtins "custom" with
  | none => ⟨.ok [], []⟩
  | some (.list items) =>
      ⟨if items.all (·.isWritable) then .ok (items.map (·.text)) else .error .unwritableName, []⟩
  | some _ =>
      ⟨.ok [], [warn ("Ignoring builtins.custom in " ++ path ++ ": expected a list of names")]⟩

def isKnownRule (id : String) : Bool := (Rule.ofId? id).isSome

def joinNames (names : List String) : String := String.intercalate ", " names

def noteUnknownRules (rules : Value.Fields) (path : String) : Log :=
  match (rules.map (·.1)).filter fun id => !isKnownRule id with
  | [] => []
  | unknown => [warn ("Unknown rules in " ++ path ++ ": " ++ joinNames unknown)]

def ofDocument (document : Value.Fields) (path : String) :
    Noted (Except ConfigFault ProjectConfig) :=
  let tool := table document "tool" path
  let settings := table tool.result "aexpr" path
  let lint := table settings.result "lint" path
  let rules := table lint.result "rules" path
  let builtins := table lint.result "builtins" path
  let custom := customNames builtins.result path
  let log := tool.log ++ settings.log ++ lint.log ++ rules.log ++ builtins.log ++ custom.log
  match custom.result with
  | .error fault => ⟨.error fault, log⟩
  | .ok names =>
      let format := table settings.result "format" path
      { result := .ok {
          lint := lint.result.filter fun f => f.1 != "rules" && f.1 != "builtins"
          format := format.result
          rules := rules.result
          builtins := names }
        log := log ++ format.log ++ noteUnknownRules rules.result path }

/-- The fields with known names; the others are noted in alphabetical order. -/
def known (kind : String) (names : List String) (fields : Value.Fields) : Noted Value.Fields :=
  let ignored := (fields.map (·.1)).filter fun k => !names.contains k
  { result := fields.filter fun f => names.contains f.1
    log := match ignored with
      | [] => []
      | _ =>
        let sorted := stableSort (fun a b => Text.le a.toList b.toList) ignored
        [warn ("Ignoring unknown " ++ kind ++ " keys: " ++ joinNames sorted)] }

def lintKeys : List String := LintOptions.keys.filter (· != "rules")

/-- The defaults with the known rules of the project laid over them. -/
def ruleMap (c : ProjectConfig) : Value.Fields :=
  Value.overlay Rule.defaults (c.rules.filter fun f => isKnownRule f.1)

def lintOptions (c : ProjectConfig) : Noted LintOptions :=
  let fields := known "LintingOptions" lintKeys c.lint
  let start : LintOptions := { rules := c.ruleMap }
  { result := fields.result.foldl (fun o f => (o.set f.1 f.2).toOption.getD o) start
    log := fields.log }

def formatSettings (c : ProjectConfig) : Noted (Except SettingFault FormatSettings) :=
  let fields := known "FormattingOptions" FormatSettings.keys c.format
  { result := do
      let settings ← ({} : FormatSettings).withChanges fields.result
      settings.validate
      return settings
    log := fields.log }

def isStandardProfile (c : ProjectConfig) : Bool := c.builtins.isEmpty

def profile (c : ProjectConfig) : Profile :=
  if c.isStandardProfile then Profile.standard else Profile.standard.withBuiltins c.builtins

end ProjectConfig
end MotionExpr

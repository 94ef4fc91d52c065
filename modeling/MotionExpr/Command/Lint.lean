import MotionExpr.Command.Run

/-!
Linting files. Each file is read, fixed if that is asked for, and linted as it
then is. The first file that cannot be read ends the run: with an error where there is
no file to read, and by giving the run up where it holds no text.
-/

namespace MotionExpr

structure LintArguments where
  files : List Text
  config : Text := Command.defaultConfig
  severity : Text := "INFO".toList
  output : Text := "text".toList
  fix : Bool := false

namespace Command

structure LintState where
  store : FileStore
  issues : List Issue := []
  fixed : List Text := []
  log : Log := []

def skippedNotes (l : Linter) (source : Text) : Log :=
  (l.skipped l.options source).map fun r =>
    ⟨.warning, .linter, "Rule '" ++ r.id ++ "' failed and was skipped"⟩

def issuesOf (l : Linter) (path source : Text) : List Issue :=
  (l.lint source).map fun d => ⟨path, d, d.isAutoFixable⟩

def lintFile (l : Linter) (fix : Bool) (s : LintState) (path : Text) :
    Except ReadFault LintState := do
  let source ← readText s.store path
  let fixed := fixAll source (l.lint source)
  if fix && fixed ≠ source then
    return { store := s.store.save path fixed
             issues := s.issues ++ issuesOf l path fixed
             fixed := s.fixed ++ [path]
             log := s.log ++ skippedNotes l source ++ skippedNotes l fixed }
  else
    return { s with issues := s.issues ++ issuesOf l path source
                    log := s.log ++ skippedNotes l source }

/-- The state reached, and the file that could not be read. -/
def lintFiles (l : Linter) (fix : Bool) : LintState → List Text →
    LintState × Option (Text × ReadFault)
  | s, [] => (s, none)
  | s, path :: paths =>
      match lintFile l fix s path with
      | .ok s' => lintFiles l fix s' paths
      | .error fault => (s, some (path, fault))

/-- The least rank that is shown; unknown names show everything. -/
def leastRank (severity : Text) : Nat :=
  match Severity.all.find? fun s => s.heading.toList == Text.upper severity with
  | some s => s.rank
  | none => Severity.info.rank

def reported (severity : Text) (issues : List Issue) : List Issue :=
  (stableSort Issue.le issues).filter fun i => leastRank severity ≤ i.finding.severity.rank

def showInt (i : Int) : String := String.ofList (Value.ofInt i)

def issueLine (i : Issue) : Text :=
  let d := i.finding
  textLine (d.severity.heading ++ ": " ++ String.ofList i.path ++ ":" ++ showInt d.line ++ ":" ++
    showInt d.column ++ " [" ++ d.rule ++ "] - " ++ d.message)

def lintText (s : LintState) (shown : List Issue) : Text :=
  s.fixed.flatMap (fun path => textLine ("Fixed " ++ String.ofList path)) ++
    shown.flatMap issueLine ++
    '\n' :: textLine ("Total issues found: " ++ showInt s.issues.length ++ " (" ++
      showInt shown.length ++ " reported)")

def lintOutput (a : LintArguments) (s : LintState) : Text :=
  let shown := reported a.severity s.issues
  if a.output = "json".toList then
    (Report.text ⟨shown, if a.fix then some s.fixed else none⟩ (some 2)) ++ ['\n']
  else lintText s shown

def lintStore (a : LintArguments) (linter : Linter) (log : Log) (store : FileStore) : Outcome :=
  match lintFiles linter a.fix { store } a.files with
  | (s, some (path, fault)) =>
      match fault.expected path with
      | .ok fault =>
          { exit := 2
            err := textLine ("Error: cannot read " ++ String.ofList path ++ ": " ++
              fault.message path)
            log := log ++ s.log
            store := s.store }
      | .error b => givenUp b (log ++ s.log) s.store
  | (s, none) =>
      { exit := if s.issues.any (·.isError) then 1 else 0
        out := lintOutput a s
        log := log ++ s.log
        store := s.store }

def lint (a : LintArguments) (store : FileStore) : Outcome :=
  let linter := projectLinter store a.config
  match linter.result with
  | .error b => givenUp b linter.log store
  | .ok l => lintStore a l linter.log store

end Command
end MotionExpr

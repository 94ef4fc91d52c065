import MotionExpr.Command.Run

/-!
Formatting files in place. A file that is not there or cannot be formatted is counted
as an error and left alone, and the others are still done. A file that holds no text
gives the run up: there are no results, but what was written before it stays.
-/

namespace MotionExpr

structure FormatArguments where
  files : List Text
  config : Text := Command.defaultConfig
  check : Bool := false

namespace Command

/-- What became of one file. -/
inductive FileResult where
  | unreadable (fault : SystemFault)
  | formatted (result : FormatResult)
  deriving DecidableEq, Repr

namespace FileResult

def isError : FileResult → Bool
  | unreadable _ => true
  | formatted r => r.failure.isSome

def isModified : FileResult → Bool
  | unreadable _ => false
  | formatted r => r.failure.isNone && r.modified

def errors (path : Text) : FileResult → List String
  | unreadable fault => [fault.message path]
  | formatted r => r.errors

def notes : FileResult → Log
  | unreadable _ => []
  | formatted r => r.failure.toList.map fun f =>
      ⟨.error, .formatter, "Formatting failed in pass '" ++ f.pass.name ++ "'"⟩

end FileResult

/-- What became of the files of a run that was not given up. -/
structure FileResults where
  results : List FileResult
  deriving DecidableEq, Repr

namespace FileResults

def add (result : FileResult) (r : FileResults) : FileResults := ⟨result :: r.results⟩

def total (r : FileResults) : Nat := r.results.length

def modified (r : FileResults) : Nat := r.results.countP (·.isModified)

def failed (r : FileResults) : Nat := r.results.countP (·.isError)

end FileResults

/-- A run over files. Its store and its log are there whether or not it was given up. -/
structure FormatRun where
  results : Except Breakdown FileResults
  store : FileStore
  log : Log := []

def formatFile (f : Formatter) (write : Bool) (store : FileStore) (path : Text) :
    Except Breakdown (FileResult × FileStore) :=
  match readText store path with
  | .error fault => (fault.expected path).map fun fault => (.unreadable fault, store)
  | .ok source =>
      let result := f.format source
      let kept := FileResult.formatted result
      .ok (kept, if write && kept.isModified then store.save path result.text else store)

def formatFiles (f : Formatter) (write : Bool) : FileStore → List Text → FormatRun
  | store, [] => { results := .ok ⟨[]⟩, store }
  | store, path :: paths =>
      match formatFile f write store path with
      | .error b => { results := .error b, store }
      | .ok (result, store) =>
          let rest := formatFiles f write store paths
          { results := rest.results.map (.add result)
            store := rest.store
            log := result.notes ++ rest.log }

def fileLine (check : Bool) (path : Text) (r : FileResult) : Text :=
  if r.isModified then
    textLine ((if check then "Would reformat " else "Reformatted ") ++ String.ofList path)
  else []

def fileError (path : Text) (r : FileResult) : Text :=
  match r.errors path with
  | [] => []
  | errors => textLine ("Error: " ++ String.ofList path ++ ": " ++ String.intercalate "; " errors)

def showNat (n : Nat) : String := String.ofList (Text.ofNat n)

def summary (check : Bool) (r : FileResults) : Text :=
  '\n' :: textLine (showNat r.modified ++ " of " ++ showNat r.total ++ " files " ++
    (if check then "would be " else "") ++ "reformatted, " ++ showNat r.failed ++ " errors")

def formatStore (a : FormatArguments) (plan : Plan) (log : Log) (store : FileStore) :
    Outcome :=
  let run := formatFiles ⟨plan, Pass.all⟩ (!a.check) store a.files
  match run.results with
  | .error b => givenUp b (log ++ run.log) run.store
  | .ok r =>
      let byFile := a.files.zip r.results
      { exit := if r.failed ≠ 0 || (a.check && r.modified ≠ 0) then 1 else 0
        out := byFile.flatMap (fun e => fileLine a.check e.1 e.2) ++ summary a.check r
        err := byFile.flatMap fun e => fileError e.1 e.2
        log := log ++ run.log
        store := run.store }

def formatWith (a : FormatArguments) (settings : Except SettingFault FormatSettings) (log : Log)
    (store : FileStore) : Outcome :=
  match settings.bind (·.plan) with
  | .ok plan => formatStore a plan log store
  | .error fault =>
      if fault.isBadValue then
        { exit := 2, err := textLine ("Error: invalid format config: " ++ fault.message)
          log, store }
      else givenUp (.settings fault) log store

def format (a : FormatArguments) (store : FileStore) : Outcome :=
  let config := loadConfig store a.config
  match config.result with
  | .error b => givenUp b config.log store
  | .ok c =>
      let settings := c.formatSettings
      formatWith a settings.result (config.log ++ settings.log) store

end Command
end MotionExpr

import MotionExpr.Command.Line

/-!
The program: the files that a command line names are read, the command is run on
them, and what it changed is written back.
-/

namespace MotionExpr
namespace Main

/-- What is found under a path; nothing where nothing can be read. -/
def load (path : Text) : IO (Option FileEntry) := do
  try
    return some (.ofBytes (← IO.FS.readBinFile (String.ofList path)).toList)
  catch
    | .inappropriateType _ code _ => return if code = 21 then some .directory else none
    | _ => return none

def loadAll (paths : List Text) : IO FileStore := do
  let found ← paths.mapM fun path => do return (path, ← load path)
  return found.filterMap fun e => e.2.map fun entry => (e.1, entry)

/-- Write the files whose content the run changed. -/
def save (before after : FileStore) : IO Unit := do
  for (path, entry) in after do
    match entry with
    | .file content =>
        if before.entryAt? path ≠ some entry then
          IO.FS.writeFile (String.ofList path) (String.ofList content)
    | .undecodable .. | .directory => pure ()

def showNote (r : LogRecord) : String :=
  r.level.label ++ " " ++ r.component.label ++ ": " ++ r.message

def run (args : List String) : IO UInt32 := do
  let line := args.map String.toList
  let before ← loadAll (Command.pathsOf line)
  let outcome := Command.runLine line before
  save before outcome.store
  IO.print (String.ofList outcome.out)
  IO.eprint (String.ofList outcome.err)
  for note in outcome.log do
    IO.eprintln (showNote note)
  match outcome.breakdown with
  | some b => IO.eprintln ("Error: " ++ b.message)
  | none => pure ()
  return UInt32.ofNat outcome.exit

end Main
end MotionExpr

def main (args : List String) : IO UInt32 := MotionExpr.Main.run args

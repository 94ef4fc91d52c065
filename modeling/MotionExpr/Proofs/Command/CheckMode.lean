import MotionExpr.Proofs.Command.FormatFiles
import MotionExpr.Proofs.Format.Returns

/-!
Checking and writing. Where no two of the paths lead to one file, each file is found as it was in
the store at the start, whatever was written before. So the results are those of checking, and a
file is written once at most. A file whose bytes are no text gives up either run, and then there are
no results; writing has changed the files in front of it by then, and it does not come to those behind.
-/

namespace MotionExpr
namespace Command

open Text Formatter

/-- The paths whose turn comes without the run being given up. -/
def reached (store : FileStore) (paths : List Text) : List Text :=
  paths.takeWhile fun p => Endures store p

section Reached

variable {store store' : FileStore} {path : Text} {paths : List Text}

end Reached

/-- No path leads to the file of another one. -/
def Apart (store : FileStore) (paths : List Text) : Prop :=
  paths.Pairwise fun p q => ∀ content, store.read p = .ok content → store.locate q ≠ store.locate p

section Run

variable {f : Formatter} {store : FileStore} {paths : List Text}

end Run

section Apart

variable {store : FileStore} {paths : List Text}

end Apart

end Command
end MotionExpr

import MotionExpr.Command.FileStore
import MotionExpr.Config.Project
import MotionExpr.Format.Engine
import MotionExpr.Format.Plan
import MotionExpr.Fix.Unattended
import MotionExpr.Lint.Engine
import MotionExpr.Report.Issue
import MotionExpr.Text.Substitution
import MotionExpr.Toml.Document

/-!
What the commands share: the outcome of a run, reading files and loading the
project settings.
-/

namespace MotionExpr

/-- A path that is too long to be looked up, or whose file holds no text. -/
inductive UnusablePath where
  | tooLong (path : Text)
  | undecodable (path : Text)
  deriving DecidableEq, Repr

/-- Which of the bytes is at fault is not told. -/
def UnusablePath.message : UnusablePath → String
  | tooLong path => SystemFault.nameTooLong.message path
  | undecodable path => "'utf-8' codec can't decode " ++ String.ofList (Text.quoted path)

/-- A run that was given up in the middle. -/
inductive Breakdown where
  | settings (fault : SettingFault)
  | config (fault : ConfigFault)
  | unusablePath (fault : UnusablePath)
  | nulInPath
  deriving DecidableEq, Repr

def Breakdown.message : Breakdown → String
  | settings fault => fault.message
  | config fault => fault.message
  | unusablePath fault => fault.message
  | nulInPath => "embedded null byte"

/-- What the commands are prepared for are the faults of the system. -/
def ReadFault.expected (path : Text) : ReadFault → Except Breakdown SystemFault
  | system fault => .ok fault
  | nulInPath => .error .nulInPath
  | undecodable => .error (.unusablePath (.undecodable path))

structure Outcome where
  exit : Nat
  out : Text := []
  err : Text := []
  log : Log := []
  store : FileStore
  breakdown : Option Breakdown := none

namespace Command

/-- What would set the colours of a terminal. -/
def colour : Text.Rule := fun _ ahead =>
  match ahead with
  | '\x1b' :: '[' :: r =>
      let codes := r.takeWhile fun c => c == ';' || c == '?' || Text.isAsciiDigit c
      match r.drop codes.length with
      | c :: _ => if Text.isAsciiLetter c then some ⟨codes.length + 3, []⟩ else none
      | [] => none
  | _ => none

/-- A line of output, without colours. -/
def textLine (s : String) : Text := Text.substitute colour s.toList ++ ['\n']

/-- The text of a file, all line ends read as newlines. -/
def readText (s : FileStore) (path : Text) : Except ReadFault Text :=
  (s.read path).map LineEnd.unify

def defaultConfig : Text := ".aexpr.toml".toList

def unreadable (path : Text) (reason : String) : Noted (Except Breakdown ProjectConfig) :=
  ⟨.ok {}, [ProjectConfig.warn
    ("Ignoring unreadable config " ++ String.ofList path ++ ": " ++ reason)]⟩

def brokenOn {α : Type} : Except ConfigFault α → Except Breakdown α
  | .ok x => .ok x
  | .error fault => .error (.config fault)

/-- The settings of the project; a missing file leaves the defaults. -/
def loadConfig (s : FileStore) (path : Text) : Noted (Except Breakdown ProjectConfig) :=
  match s.read path with
  | .error (.system .isDirectory) => unreadable path (SystemFault.isDirectory.message path)
  | .error (.system .nameTooLong) => ⟨.error (.unusablePath (.tooLong path)), []⟩
  | .error .undecodable => ⟨.error (.unusablePath (.undecodable path)), []⟩
  | .error _ => ⟨.ok {}, []⟩
  | .ok content =>
      match Toml.parse content with
      | .error .malformed => unreadable path Toml.Fault.malformed.message
      | .error fault => ⟨.error (.config (.document fault)), []⟩
      | .ok document =>
          let config := ProjectConfig.ofDocument document (String.ofList path)
          ⟨brokenOn config.result, config.log⟩

/-- The linter that a project asks for. -/
def projectLinter (s : FileStore) (path : Text) : Noted (Except Breakdown Linter) :=
  let config := loadConfig s path
  match config.result with
  | .error b => ⟨.error b, config.log⟩
  | .ok c =>
      let options := c.lintOptions
      ⟨.ok ⟨options.result, c.profile⟩, config.log ++ options.log⟩

/-- Nothing is printed by a run that was given up. -/
def givenUp (b : Breakdown) (log : Log) (store : FileStore) : Outcome :=
  { exit := 1, log, store, breakdown := some b }

end Command
end MotionExpr

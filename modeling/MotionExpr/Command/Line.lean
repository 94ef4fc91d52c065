import MotionExpr.Command.Lint
import MotionExpr.Command.Format
import MotionExpr.Command.Rules

/-!
Command lines. Options may stand anywhere behind the command, two dashes end
them, and of an option given twice the last one counts.
-/

namespace MotionExpr

inductive Invocation where
  | lint (arguments : LintArguments)
  | format (arguments : FormatArguments)
  | rules (config : Text)

inductive UsageFault where
  | missingCommand
  | unknownCommand (name : Text)
  | unknownOption (name : Text)
  | missingValue (name : Text)
  | unexpectedValue (name : Text)
  | missingFiles
  | unexpectedArgument (argument : Text)
  deriving DecidableEq, Repr

def UsageFault.message : UsageFault → String
  | missingCommand => "Missing command."
  | unknownCommand name => "No such command '" ++ String.ofList name ++ "'."
  | unknownOption name => "No such option: " ++ String.ofList name
  | missingValue name => "Option '" ++ String.ofList name ++ "' requires an argument."
  | unexpectedValue name => "Option '" ++ String.ofList name ++ "' does not take a value."
  | missingFiles => "Missing argument 'FILES...'."
  | unexpectedArgument argument =>
      "Got unexpected extra argument (" ++ String.ofList argument ++ ")"

namespace Command

/-- Options by name: those with a value, and switches with what they set. -/
structure Grammar where
  valued : List String
  switches : List (String × Bool)

inductive Item where
  | value (name : Text) (value : Text)
  | switch (name : Text) (on : Bool)
  | argument (t : Text)

/-- The name of an option and the value behind its equals sign. -/
def splitOption (t : Text) : Text × Option Text :=
  match t.dropWhile (· != '=') with
  | [] => (t, none)
  | _ :: v => (t.takeWhile (· != '='), some v)

def isOption (t : Text) : Bool :=
  match t with
  | '-' :: _ :: _ => true
  | _ => false

/-- `awaiting` is an option whose value comes next. -/
def items (g : Grammar) : (awaiting : Option Text) → List Text → Except UsageFault (List Item)
  | none, [] => .ok []
  | some name, [] => .error (.missingValue name)
  | some name, v :: ts => (items g none ts).map (.value name v :: ·)
  | none, t :: ts =>
      if t = "--".toList then .ok (ts.map .argument)
      else if isOption t then
        let (name, v?) := splitOption t
        if g.valued.any (·.toList == name) then
          match v? with
          | some v => (items g none ts).map (.value name v :: ·)
          | none => items g (some name) ts
        else match g.switches.find? (·.1.toList == name), v? with
          | some s, none => (items g none ts).map (.switch name s.2 :: ·)
          | some _, some _ => .error (.unexpectedValue name)
          | none, _ => .error (.unknownOption name)
      else (items g none ts).map (.argument t :: ·)

def arguments (is : List Item) : List Text :=
  is.filterMap fun
    | .argument t => some t
    | _ => none

def value (is : List Item) (name : String) (fallback : Text) : Text :=
  is.foldl (fun found i => match i with
    | .value n v => if n == name.toList then v else found
    | _ => found) fallback

def switch (is : List Item) : Bool :=
  is.foldl (fun found i => match i with
    | .switch _ on => on
    | _ => found) false

def configOf (is : List Item) : Text := Path.normal (value is "--config" defaultConfig)

def filesOf (is : List Item) : Except UsageFault (List Text) :=
  match arguments is with
  | [] => .error .missingFiles
  | files => .ok (files.map Path.normal)

def parseLint (ts : List Text) : Except UsageFault Invocation := do
  let is ← items ⟨["--config", "--severity", "--output"], [("--fix", true), ("--no-fix", false)]⟩
    none ts
  return .lint { files := ← filesOf is
                 config := configOf is
                 severity := value is "--severity" "INFO".toList
                 output := value is "--output" "text".toList
                 fix := switch is }

def parseFormat (ts : List Text) : Except UsageFault Invocation := do
  let is ← items ⟨["--config"], [("--check", true), ("--no-check", false)]⟩ none ts
  return .format { files := ← filesOf is, config := configOf is, check := switch is }

def parseRules (ts : List Text) : Except UsageFault Invocation := do
  let is ← items ⟨["--config"], []⟩ none ts
  match arguments is with
  | [] => return .rules (configOf is)
  | t :: _ => throw (.unexpectedArgument t)

/-- The options in front of the command only ask for a more talkative log. -/
def dropVerbose : List Text → Except UsageFault (List Text)
  | [] => .ok []
  | t :: ts =>
      if t = "--".toList then .ok ts
      else if t = "--verbose".toList then dropVerbose ts
      else if isOption t then
        if (t.drop 1).all (· == 'v') then dropVerbose ts else .error (.unknownOption t)
      else .ok (t :: ts)

def parse (args : List Text) : Except UsageFault Invocation := do
  match ← dropVerbose args with
  | [] => throw .missingCommand
  | name :: ts =>
      if name = "lint".toList then parseLint ts
      else if name = "format".toList then parseFormat ts
      else if name = "rules".toList then parseRules ts
      else throw (.unknownCommand name)

def run : Invocation → FileStore → Outcome
  | .lint a, s => lint a s
  | .format a, s => format a s
  | .rules config, s => rules config s

/-- The paths that a command may read. -/
def paths : Invocation → List Text
  | .lint a => a.config :: a.files
  | .format a => a.config :: a.files
  | .rules config => [config]

def pathsOf (args : List Text) : List Text :=
  match parse args with
  | .ok i => paths i
  | .error _ => []

/-- Run a command line; one that cannot be read changes nothing. No path holds
the character zero. -/
def runLine (args : List Text) (store : FileStore) : Outcome :=
  match parse args with
  | .ok i =>
      if (paths i).any (·.contains '\x00') then givenUp .nulInPath [] store else run i store
  | .error fault => { exit := 2, err := textLine ("Error: " ++ fault.message), store }

end Command
end MotionExpr

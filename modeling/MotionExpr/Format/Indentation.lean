import MotionExpr.Text.Blank
import MotionExpr.Format.Header
import MotionExpr.Format.Options

/-!
Indentation from a running bracket level. A control header or an `else` without
a brace indents the one statement that follows it.
-/

namespace MotionExpr
namespace Indentation

structure State where
  level : Nat := 0
  pending : Bool := false

def opensGroup (c : Char) : Bool := c == '\x7b' || c == '(' || c == '['

def closesGroup (c : Char) : Bool := c == '\x7d' || c == ')' || c == ']'

def startsWith (p : Char → Bool) : Text → Bool
  | [] => false
  | c :: _ => p c

def endsWith (p : Char → Bool) (t : Text) : Bool :=
  match t.getLast? with
  | some c => p c
  | none => false

def isElse (code : Text) : Bool := Header.skipBrace code == "else".toList

/-- The level of a line and the state behind it. -/
def step (s : State) (code : Text) : Nat × State :=
  let level := if startsWith closesGroup code then s.level - 1 else s.level
  let extra := if s.pending && !startsWith (· == '\x7b') code then 1 else 0
  let behind : State :=
    if endsWith opensGroup code then ⟨level + 1, false⟩
    else ⟨level, isElse code || Header.isControl ControlKeyword.indenting code⟩
  (level + extra, behind)

/-- Blank lines become empty and leave the state alone. -/
def indentFrom (unit : IndentUnit) : State → List Text → List Text
  | _, [] => []
  | s, raw :: ls =>
      let body := Text.trimStart raw
      let code := Text.trimEnd body
      if code.isEmpty then body :: indentFrom unit s ls
      else
        let (level, behind) := step s code
        (unit.atLevel level ++ body) :: indentFrom unit behind ls

def apply (unit : IndentUnit) (source : Text) : Text :=
  Text.unlines (indentFrom unit {} (Text.lines source))

end Indentation
end MotionExpr

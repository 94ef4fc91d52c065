import MotionExpr.Text.Blank
import MotionExpr.Format.Literal

/-!
Lines: what ends them and the text, and transforming the code of each line. Indentation and literals
stay as they are, and a transform cannot put blanks at either end of a line.
-/

namespace MotionExpr

namespace LineEnd

def unifyFrom : (behindReturn : Bool) → Text → Text
  | _, [] => []
  | behindReturn, c :: r =>
      if c = '\r' then '\n' :: unifyFrom true r
      else if c = '\n' && behindReturn then unifyFrom false r
      else c :: unifyFrom false r

/-- A carriage return, with or without a newline behind it, becomes a newline. -/
def unify (source : Text) : Text := unifyFrom false source

def isTrailing (c : Char) : Bool := c == ' ' || c == '\t' || c == '\x0c' || c == '\x0b'

def trim (source : Text) : Text :=
  Text.unlines ((Text.lines source).map (Text.dropEndWhile isTrailing))

def close (source : Text) : Text :=
  if source.getLast? = some '\n' then source else source ++ ['\n']

end LineEnd

namespace Line

def endsBlank (body : Text) : Bool :=
  match body.getLast? with
  | some c => Text.isBlank c
  | none => false

/-- Transformed code without blanks at its start, nor at its end unless the body
already ended in one. -/
def tidy (body code : Text) : Text :=
  let code := code.dropWhile Text.isSpaceOrTab
  if endsBlank body then code else Text.dropEndWhile Text.isSpaceOrTab code

def mapCode (transform : Text → Text) (line : Text) : Except Literal.Fault Text :=
  let (indent, body) := Text.splitIndent line
  if body.isEmpty then .ok line
  else
    let (masked, literals) := Literal.mask body
    (Literal.restore literals (tidy body (transform masked))).map (indent ++ ·)

def mapLines (f : Text → Except Literal.Fault Text) (source : Text) :
    Except Literal.Fault Text :=
  ((Text.lines source).mapM f).map Text.unlines

end Line

end MotionExpr

import MotionExpr.Text.Blank
import MotionExpr.Format.Literal

/-!
Control headers: a control keyword whose parenthesis closes at the very end, as
in `if (a)` but not in `if (a) f()`. A closing brace and an `else` may stand in
front.
-/

namespace MotionExpr

inductive ControlKeyword where
  | conditional
  | forLoop
  | whileLoop
  | switch
  | handler
  | scope
  deriving DecidableEq, Repr

namespace ControlKeyword

def all : List ControlKeyword := [conditional, forLoop, whileLoop, switch, handler, scope]

def text : ControlKeyword → Text
  | conditional => "if".toList
  | forLoop => "for".toList
  | whileLoop => "while".toList
  | switch => "switch".toList
  | handler => "catch".toList
  | scope => "with".toList

/-- Those whose statement may go without braces on the next line. -/
def indenting : List ControlKeyword := [conditional, forLoop, whileLoop]

end ControlKeyword

namespace Header

def skipBrace : Text → Text
  | '\x7d' :: r => Text.trimStart r
  | t => t

/-- Pass an `else` that blanks follow. -/
def skipElse (t : Text) : Text :=
  if "else".toList.isPrefixOf t then
    match t.drop 4 with
    | c :: r => if Text.isBlank c then Text.trimStart r else t
    | [] => t
  else t

/-- What follows the parenthesis that `k` opens. -/
def opened? (k : ControlKeyword) (t : Text) : Option Text :=
  if k.text.isPrefixOf t then
    match Text.trimStart (t.drop k.text.length) with
    | '(' :: r => some r
    | _ => none
  else none

/-- The open parenthesis closes at the end; `depth` counts those inside it. -/
def closesAtEnd : (depth : Nat) → Text → Bool
  | _, [] => false
  | depth, c :: r =>
      if c = '(' then closesAtEnd (depth + 1) r
      else if c = ')' then
        match depth with
        | 0 => r.isEmpty
        | d + 1 => closesAtEnd d r
      else closesAtEnd depth r

def isControl (keywords : List ControlKeyword) (code : Text) : Bool :=
  let start := skipElse (skipBrace (Literal.mask (Text.trim code)).1)
  keywords.any fun k =>
    match opened? k start with
    | some r => closesAtEnd 0 r
    | none => false

end Header
end MotionExpr

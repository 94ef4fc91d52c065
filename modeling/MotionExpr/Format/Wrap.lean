import MotionExpr.Text.Blank
import MotionExpr.Format.Fault
import MotionExpr.Format.Options

/-!
Breaking long lines. A line is cut behind the last preferred token that fits, or
else at its limit; the pieces that follow are indented further and further. The
search for a token does not look whether it stands in a literal.
-/

namespace MotionExpr
namespace Wrap

/-- The columns that a text takes, from a column of its line on. -/
def widthFrom (tabSize : Nat) : (column : Nat) → Text → Nat
  | _, [] => 0
  | column, c :: r =>
      if c = '\t' then
        let step := tabSize - column % tabSize
        step + widthFrom tabSize (column + step) r
      else if c = '\n' || c = '\r' then 1 + widthFrom tabSize 0 r
      else 1 + widthFrom tabSize (column + 1) r

def width (o : FormatOptions) (t : Text) : Nat := widthFrom o.tabSize 0 t

/-- In order of preference. -/
def breakTokens : List Text :=
  [",", "&&", "||", "+", "-", "*", "/", "==", "!="].map String.toList

/-- Just behind the last occurrence of a token that lies in the budget, unless
the text begins with it. -/
def breakBehind? (content : Text) (budget : Int) (token : Text) : Option Nat :=
  match Text.lastIndexOf? token (content.upTo budget) with
  | some (i + 1) => some (i + 1 + token.length)
  | _ => none

def findBreak (content : Text) (budget : Int) : Int :=
  match breakTokens.findSome? (breakBehind? content budget) with
  | some i => i
  | none => budget

def continuation : Text := [' ', ' ']

/-- Each cut leaves a shorter rest, so the length of the content is enough fuel. -/
def piecesFrom (o : FormatOptions) : (fuel : Nat) → (indent content : Text) → List Text
  | 0, indent, content => [indent ++ content]
  | fuel + 1, indent, content =>
      let budget := o.maxLineLength - width o indent
      if (content.length : Int) ≤ budget || budget ≤ 0 then [indent ++ content]
      else
        let stop := findBreak content budget
        let head := Text.trimEnd (content.upTo stop)
        let tail := Text.trim (content.startingAt stop)
        if head.isEmpty || tail.isEmpty then [indent ++ content]
        else (indent ++ head) :: piecesFrom o fuel (indent ++ continuation) tail

def pieces (o : FormatOptions) (line : Text) : List Text :=
  let content := Text.trim line
  piecesFrom o content.length (Text.splitIndent line).1 content

def wrapLine (o : FormatOptions) (line : Text) : List Text :=
  if (width o line : Int) ≤ o.maxLineLength then [line] else pieces o line

def apply (o : FormatOptions) (source : Text) : Text :=
  Text.unlines ((Text.lines source).flatMap (wrapLine o))

/-! A limit that is no whole number can be compared with, but no line can be cut
at it. -/

def exceeds (columns : Nat) (limit : Float) : Bool := limit < Float.ofNat columns

def measuredPieces (o : FormatOptions) (limit : Float) (line : Text) :
    Except PassFault (List Text) :=
  let indent := (Text.splitIndent line).1
  let content := Text.trim line
  let margin := width o indent
  if exceeds (margin + content.length) limit && !(limit ≤ Float.ofNat margin) then
    .error .limitNotWhole
  else .ok [indent ++ content]

def measureLine (o : FormatOptions) (limit : Float) (line : Text) : Except PassFault (List Text) :=
  if Float.ofNat (width o line) ≤ limit then .ok [line] else measuredPieces o limit line

def measure (o : FormatOptions) (limit : Float) (source : Text) : Except PassFault Text :=
  ((Text.lines source).mapM (measureLine o limit)).map fun pieces => Text.unlines pieces.flatten

end Wrap
end MotionExpr

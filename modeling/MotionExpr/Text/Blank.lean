import MotionExpr.Text.Basic

/-!
Blank characters: the tab to the carriage return, the four information
separators, the space, and the blanks of Unicode. Zero-width characters are not
blank.
-/

namespace MotionExpr
namespace Text

/-- The blanks above ASCII. -/
def wideBlanks : List (Nat × Nat) := [
    (0x85, 0x85), (0xA0, 0xA0), (0x1680, 0x1680), (0x2000, 0x200A), (0x2028, 0x2029),
    (0x202F, 0x202F), (0x205F, 0x205F), (0x3000, 0x3000)]

def isBlank (c : Char) : Bool :=
  let n := c.toNat
  n == 0x20 || (0x9 ≤ n && n ≤ 0xD) || (0x1C ≤ n && n ≤ 0x1F) ||
    (0x80 ≤ n && inRanges wideBlanks n)

/-- The blanks within a line that formatting may add or remove. -/
def isSpaceOrTab (c : Char) : Bool := c == ' ' || c == '\t'

def trimStart (t : Text) : Text := t.dropWhile isBlank

def trimEnd (t : Text) : Text := dropEndWhile isBlank t

def trim (t : Text) : Text := trimBoth isBlank t

/-- The leading blanks of a line and what follows them. -/
def splitIndent (line : Text) : Text × Text :=
  (line.takeWhile isBlank, line.dropWhile isBlank)

theorem splitIndent_append (line : Text) :
    (splitIndent line).1 ++ (splitIndent line).2 = line :=
  List.takeWhile_append_dropWhile

end Text
end MotionExpr

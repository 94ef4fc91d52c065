import MotionExpr.Format.Engine

/-!
Formatting as edits. A range is given by lines and columns from one on, its end
column exclusive; places outside the text are moved to the nearest one inside.
-/

namespace MotionExpr

structure TextRange where
  startLine : Int
  startColumn : Int
  endLine : Int
  endColumn : Int
  deriving DecidableEq, Repr

structure TextEdit where
  range : TextRange
  newText : Text
  deriving DecidableEq, Repr

namespace TextEdit

def clamp (i : Int) (last : Nat) : Nat := (min (max i 1) last).toNat

/-- The characters of some lines, their newlines included. -/
def lengthWithNewlines : List Text → Nat
  | [] => 0
  | l :: ls => l.length + 1 + lengthWithNewlines ls

/-- The offset of a place, given the lines of the text. -/
def offsetIn (lines : List Text) (line column : Int) : Nat :=
  let row := clamp line lines.length - 1
  let length := ((lines[row]?).getD []).length
  lengthWithNewlines (lines.take row) + (clamp column (length + 1) - 1)

def offset (source : Text) (line column : Int) : Nat := offsetIn (Text.lines source) line column

end TextEdit

namespace TextRange

def start (r : TextRange) (source : Text) : Nat :=
  TextEdit.offset source r.startLine r.startColumn

def stop (r : TextRange) (source : Text) : Nat :=
  TextEdit.offset source r.endLine r.endColumn

def slice (r : TextRange) (source : Text) : Text :=
  (source.take (r.stop source)).drop (r.start source)

def whole (source : Text) : TextRange :=
  let lines := Text.lines source
  ⟨1, 1, lines.length, (lines.getLastD []).length + 1⟩

end TextRange

namespace TextEdit

def apply (source : Text) (e : TextEdit) : Text :=
  source.take (e.range.start source) ++ e.newText ++ source.drop (e.range.stop source)

def applyAll (source : Text) (edits : List TextEdit) : Text := edits.foldl apply source

end TextEdit

namespace Formatter

/-- No edit where formatting changes nothing. -/
def formatRange (f : Formatter) (source : Text) (r : TextRange) : List TextEdit :=
  let present := r.slice source
  let formatted := (f.format present).text
  if formatted = present then [] else [⟨r, formatted⟩]

def formatDocument (f : Formatter) (source : Text) : List TextEdit :=
  f.formatRange source (TextRange.whole source)

/-- The characters that reformat their line when typed. -/
def isTrigger (typed : Text) : Bool := typed == ['\x7d'] || typed == [')']

def formatOnType (f : Formatter) (source : Text) (line : Int) (typed : Text) : List TextEdit :=
  let lines := Text.lines source
  if isTrigger typed && 1 ≤ line then
    match lines[(line - 1).toNat]? with
    | none => []
    | some text =>
        let result := f.formatWith (f.plan.without .finalNewline) (Text.trim text)
        let formatted := (Text.splitIndent text).1 ++ result.text
        if result.failure.isSome || formatted = text then []
        else [⟨⟨line, 1, line, text.length + 1⟩, formatted⟩]
  else []

end Formatter
end MotionExpr

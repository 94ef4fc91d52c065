import MotionExpr.Text.Substitution
import MotionExpr.Text.Decimal
import MotionExpr.Format.Line
import MotionExpr.Token.Lexer

/-!
Spaces inside brackets, in front of the parenthesis of a call, around operators and behind commas.
Each rule rewrites the code of one line, in which the literals are masked.
-/

namespace MotionExpr

/-! Whether code ends in an operand, that is, in something that a binary operator or
an index may follow. The code is given backwards, last character first. -/

namespace Operand

def prefixKeywords : List Text :=
  ["return", "typeof", "case", "in", "of", "throw", "new", "else", "do", "void"].map String.toList

def closes (c : Char) : Bool :=
  Text.isAlphanumeric c || c == '_' || c == '$' || c == ')' || c == ']' || c == Literal.mark

def isBehind (backwards : Text) : Bool :=
  match backwards.dropWhile Text.isBlank with
  | [] => false
  | c :: r => !Text.endsWithWord prefixKeywords (c :: r) && closes c

def endsCode (code : Text) : Bool := isBehind code.reverse

end Operand

/-! One space inside braces and inside the brackets of an array literal. A bracket
behind an operand is an index and stays as it is. -/

namespace Bracket

def isOpening (c : Char) : Bool := c == '\x7b' || c == '['

def isClosing (c : Char) : Bool := c == '\x7d' || c == ']'

def needsSpaceBefore : Text → Bool
  | [] => false
  | c :: _ => !Text.isBlank c && !isClosing c

def needsSpaceBehind : Text → Bool
  | [] => false
  | c :: _ => !Text.isBlank c && !isOpening c

/-- `spaced` says of each open bracket, innermost first, whether it takes spaces. -/
def spaceFrom : (passed : Text) → (spaced : List Bool) → Text → Text
  | _, _, [] => []
  | passed, spaced, c :: r =>
      if isOpening c then
        let here := c == '\x7b' || !Operand.isBehind passed
        let gap := if here && needsSpaceBefore r then [' '] else []
        c :: gap ++ spaceFrom (c :: passed) (here :: spaced) r
      else if isClosing c then
        let here := spaced.headD (c == '\x7d')
        let gap := if here && needsSpaceBehind passed then [' '] else []
        gap ++ c :: spaceFrom (c :: passed) spaced.tail r
      else c :: spaceFrom (c :: passed) spaced r

def space (code : Text) : Text := spaceFrom [] [] code

end Bracket

/-! No blanks between a callee and its parenthesis. -/

namespace Call

/-- Words whose parenthesis opens no call. -/
def keywords : List Text :=
  ["if", "for", "while", "switch", "catch", "function", "return", "typeof", "in", "else", "do",
    "case"].map String.toList

def continuesName (c : Char) : Bool := Text.isWordChar c || c == '$'

def join : Text.Rule := fun _ ahead =>
  match ahead with
  | [] => none
  | c :: r =>
      if Token.startsWord c then
        let name := c :: r.takeWhile continuesName
        let behind := r.dropWhile continuesName
        let blanks := behind.takeWhile Text.isSpaceOrTab
        match blanks, behind.dropWhile Text.isSpaceOrTab with
        | _ :: _, '(' :: _ =>
            let found := name ++ blanks ++ ['(']
            some ⟨found.length, if keywords.contains name then found else name ++ ['(']⟩
        | _, _ => none
      else none

def tighten (code : Text) : Text := Text.substitute join code

end Call

/-! Exactly one space around a binary operator, none behind a unary one. An operator
is judged by the code in front of it as it was before any change. -/

namespace Operator

/-- Longer operators come first, so that the longest one is read. -/
def all : List Text :=
  [">>>=", "===", "!==", ">>>", "<<=", ">>=",
    "==", "!=", "<=", ">=", "=>", "&&", "||",
    "+=", "-=", "*=", "/=", "%=", "&=", "|=", "^=",
    "++", "--", "<<", ">>",
    "+", "-", "*", "/", "%", "=", "<", ">", "&", "|", "^"].map String.toList

def isUpdate (op : Text) : Bool := op == "++".toList || op == "--".toList

def isSign (op : Text) : Bool := op == ['+'] || op == ['-']

/-- The code, given backwards, ends in a number with an exponent mark, as in
`1.5e`. -/
def behindExponentMark (backwards : Text) : Bool :=
  let mantissa? := match backwards with
    | '\n' :: c :: r => if c == 'e' || c == 'E' then some r else none
    | c :: r => if c == 'e' || c == 'E' then some r else none
    | [] => none
  match mantissa? with
  | none => false
  | some r =>
      let digits := r.takeWhile fun c => Text.isDigit c || c == '.'
      let first := match digits.getLast? with
        | some c => Text.isDigit c
        | none => false
      let free := match r.dropWhile fun c => Text.isDigit c || c == '.' with
        | [] => true
        | c :: _ => !Text.isWordChar c && c != '$'
      first && free

/-- What stands in front of a prefix operator. -/
def lead (passed : Text) : Text :=
  match passed.dropWhile Text.isBlank with
  | [] => []
  | c :: _ => if c == '(' || c == '[' || c == '\x7b' || c == '!' then [] else [' ']

def placed (passed op : Text) (bare : Bool) : Text :=
  let operand := Operand.isBehind passed
  if isSign op && bare && behindExponentMark passed then op
  else if isUpdate op && operand then op
  else if isUpdate op || (isSign op && !operand) then lead passed ++ op
  else ' ' :: op ++ [' ']

def operator? (t : Text) : Option Text := all.find? fun op => op.isPrefixOf t

/-- An operator with the spaces and tabs on both sides. -/
def respace : Text.Rule := fun passed ahead =>
  let before := ahead.takeWhile Text.isSpaceOrTab
  match operator? (ahead.dropWhile Text.isSpaceOrTab) with
  | none => none
  | some op =>
      let behind := (ahead.drop (before.length + op.length)).takeWhile Text.isSpaceOrTab
      let consumed := before.length + op.length + behind.length
      some ⟨consumed, placed passed op (consumed == op.length)⟩

/-- A run of spaces between other characters becomes one space. -/
def squeeze : Text.Rule := fun passed ahead =>
  match passed with
  | [] => none
  | c :: _ =>
      let run := ahead.takeWhile (· == ' ')
      match ahead.dropWhile (· == ' ') with
      | d :: _ =>
          if !Text.isBlank c && 2 ≤ run.length && !Text.isBlank d then some ⟨run.length, [' ']⟩
          else none
      | [] => none

/-- No spaces or tabs behind a negation. -/
def negation : Text.Rule := fun _ ahead =>
  match ahead with
  | '!' :: r =>
      match r.takeWhile Text.isSpaceOrTab with
      | [] => none
      | blanks => some ⟨1 + blanks.length, ['!']⟩
  | _ => none

def space (code : Text) : Text :=
  Text.substitute negation (Text.substitute squeeze (Text.substitute respace code))

end Operator

/-! One space behind a comma, none in front of it. -/

namespace Comma

def respace : Text.Rule := fun _ ahead =>
  let before := ahead.takeWhile Text.isSpaceOrTab
  match ahead.dropWhile Text.isSpaceOrTab with
  | ',' :: r => some ⟨before.length + 1 + (r.takeWhile Text.isSpaceOrTab).length, [',', ' ']⟩
  | _ => none

def space (code : Text) : Text := Text.substitute respace code

end Comma

end MotionExpr

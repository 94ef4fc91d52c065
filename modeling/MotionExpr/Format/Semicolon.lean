import MotionExpr.Format.Header
import MotionExpr.Format.Line

/-!
Semicolons behind statements, one line at a time. A statement has a statement
keyword, a plain assignment or a call.
-/

namespace MotionExpr
namespace Semicolon

def statementKeywords : List Text :=
  ["var", "let", "const", "return", "break", "continue"].map String.toList

def assignsFrom : (before : Option Char) → Text → Bool
  | _, [] => false
  | before, c :: r =>
      let comparesBefore := match before with
        | some b => b == '=' || b == '!' || b == '<' || b == '>'
        | none => false
      let comparesBehind := match r with
        | d :: _ => d == '=' || d == '>'
        | [] => false
      (c == '=' && !comparesBefore && !comparesBehind) || assignsFrom (some c) r

def assigns (code : Text) : Bool := assignsFrom none code

/-- A closing parenthesis comes before the next newline. -/
def closesOnLine : Text → Bool
  | [] => false
  | c :: r => c == ')' || (c != '\n' && closesOnLine r)

def calls : Text → Bool
  | [] => false
  | c :: r =>
      ((Text.isWordChar c || c == '$') &&
        match Text.trimStart r with
        | '(' :: s => closesOnLine s
        | _ => false) || calls r

def isStatement (code : Text) : Bool :=
  Text.hasWord statementKeywords code || assigns code || calls code

def isTerminator (c : Char) : Bool :=
  c == ';' || c == '\x7b' || c == '\x7d' || c == '(' || c == ',' || c == ':'

/-- Characters behind which an expression goes on. -/
def continues (c : Char) : Bool := "+-*/%=<>&|^!?.".toList.contains c

/-- Words that a block may follow directly. -/
def blockKeywords : List Text := ["else", "do", "try", "finally"].map String.toList

/-- A block may open behind this code, given backwards: behind a parenthesis or
a block keyword, with the rest of the code in front of it on one line. -/
def introducesBlock (backwards : Text) : Bool :=
  match Text.trimStart backwards with
  | [] => false
  | c :: r =>
      (c == ')' && !r.contains '\n') ||
        blockKeywords.any fun w =>
          w.reverse.isPrefixOf (c :: r) &&
            !Text.startsWithWordChar ((c :: r).drop w.length) &&
            !((c :: r).drop w.length).contains '\n'

def endsIn (p : Char → Bool) (t : Text) : Bool :=
  match t.getLast? with
  | some c => p c
  | none => false

/-- Terminate the one statement of a block that ends the code. The code is given
without its last brace. -/
def terminateBlock? (code : Text) : Option Text :=
  let insideBack := code.reverse.takeWhile (· ≠ '\x7b')
  match code.reverse.dropWhile (· ≠ '\x7b') with
  | [] => none
  | _ :: beforeBack =>
      let inside := insideBack.reverse
      let inner := Text.trim inside
      if introducesBlock beforeBack && !inside.contains '\x7d' && !inner.isEmpty &&
          !endsIn isTerminator inner && isStatement inner then
        some (Text.trimEnd code ++ ';' :: Text.takeEndWhile Text.isBlank code ++ ['\x7d'])
      else none

/-- The code with a semicolon added; `none` where it takes none. -/
def terminate? (code : Text) : Option Text :=
  match code.getLast? with
  | none => none
  | some last =>
      if last == '\x7d' then terminateBlock? code.dropLast
      else if last == ')' then
        if code.count '(' ≠ code.count ')' || Header.isControl ControlKeyword.all code ||
            Text.hasWord ["function".toList] code then none
        else if calls code then some (code ++ [';'])
        else none
      else if isTerminator last || continues last then none
      else if isStatement code then some (code ++ [';'])
      else none

/-- A placeholder that ends the code, with the blanks in front of it: how many
characters it takes and its numeral. -/
def trailingPlaceholder? (masked : Text) : Option (Nat × Text) :=
  match masked.reverse with
  | [] => none
  | m :: r =>
      if m = Literal.mark then
        match r.takeWhile Text.isDigit, r.dropWhile Text.isDigit with
        | d :: ds, n :: before =>
            if n = Literal.mark then
              let blanks := before.takeWhile Text.isSpaceOrTab
              some (blanks.length + (d :: ds).length + 2, (d :: ds).reverse)
            else none
        | _, _ => none
      else none

/-- Split a trailing comment off masked code. -/
def splitComment (masked : Text) (literals : List Text) : Except Literal.Fault (Text × Text) :=
  match trailingPlaceholder? masked with
  | none => .ok (masked, [])
  | some (size, digits) => do
      let literal ← Literal.lookUp literals digits
      if "//".toList.isPrefixOf literal then
        let cut := masked.length - size
        return (masked.take cut, masked.drop cut)
      else return (masked, [])

def terminateLine (line : Text) : Except Literal.Fault Text :=
  let (indent, body) := Text.splitIndent line
  if body.isEmpty || "//".toList.isPrefixOf body || "/*".toList.isPrefixOf body then .ok line
  else do
    let (masked, literals) := Literal.mask (Text.trimEnd body)
    let (code, comment) ← splitComment masked literals
    match terminate? code with
    | none => return line
    | some code =>
        let restored ← Literal.restore literals (code ++ comment)
        return indent ++ restored ++ Text.takeEndWhile Text.isBlank body

end Semicolon
end MotionExpr

import MotionExpr.Language.Profile

/-!
Tokens: a piece of one line with its kind and its place. Lines and columns count
from one; they are integers because tokens may also be given by hand.
-/

namespace MotionExpr

inductive TokenKind where
  | keyword
  | identifier
  | hostFunction
  | hostProperty
  | string
  | number
  | operator
  | punctuation
  | comment
  deriving DecidableEq, Repr

namespace TokenKind

def all : List TokenKind :=
  [keyword, identifier, hostFunction, hostProperty, string, number, operator, punctuation, comment]

def label : TokenKind → String
  | keyword => "keyword"
  | identifier => "identifier"
  | hostFunction => "ae-function"
  | hostProperty => "ae-property"
  | string => "string"
  | number => "number"
  | operator => "operator"
  | punctuation => "punctuation"
  | comment => "comment"

def ofLabel? (s : String) : Option TokenKind := all.find? fun k => k.label == s

end TokenKind

structure Token where
  kind : TokenKind
  text : Text
  line : Int
  column : Int
  deriving DecidableEq, Repr

namespace Token

/-- The column just behind the token. -/
def endColumn (t : Token) : Int := t.column + t.text.length

def isKeyword (t : Token) (words : List Text) : Bool :=
  t.kind = .keyword && words.contains t.text

def isIdentifier (t : Token) : Bool := t.kind = .identifier

def isPunctuation (t : Token) (symbol : Char) : Bool :=
  t.kind = .punctuation && t.text == [symbol]

def declares (t : Token) : Bool := t.isKeyword Language.declarators

end Token
end MotionExpr

import MotionExpr.Token.Basic

/-!
Two readings of which names a text declares: the first identifier after a
declarator on its line, and the identifier directly behind a declarator. Each is
a list of tokens with different texts.
-/

namespace MotionExpr
namespace Declaration

def firstIdentifier? (line : Int) : List Token → Option Token
  | [] => none
  | t :: ts =>
      if t.line ≠ line then none
      else if t.isIdentifier then some t
      else firstIdentifier? line ts

/-- The first token of each text. -/
def keepFirst : List Token → List Token
  | [] => []
  | t :: ts => t :: (keepFirst ts).filter fun u => u.text ≠ t.text

def declaredAfter : List Token → List Token
  | [] => []
  | t :: ts =>
      if t.declares then (firstIdentifier? t.line ts).toList ++ declaredAfter ts
      else declaredAfter ts

def onLine (tokens : List Token) : List Token := keepFirst (declaredAfter tokens)

/-- Put a token in the place of the one with its text, or at the end. -/
def put : List Token → Token → List Token
  | [], t => [t]
  | u :: us, t => if u.text = t.text then t :: us else u :: put us t

def directlyBehind : List Token → List Token
  | t :: u :: ts =>
      if t.declares && u.isIdentifier then u :: directlyBehind (u :: ts)
      else directlyBehind (u :: ts)
  | _ => []

/-- A name declared again keeps its place and takes its last token. -/
def immediate (tokens : List Token) : List Token := (directlyBehind tokens).foldl put []

end Declaration
end MotionExpr

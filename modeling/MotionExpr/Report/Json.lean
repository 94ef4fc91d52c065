import MotionExpr.Text.Quoted
import MotionExpr.Value.Basic

/-!
JSON text, compact or indented. An empty array or object stays on its line, and
characters beyond ASCII are written as they are.
-/

namespace MotionExpr

inductive JsonValue where
  | null
  | bool (b : Bool)
  | number (i : Int)
  | string (t : Text)
  | array (items : List JsonValue)
  | object (members : List (String × JsonValue))

namespace JsonValue

def escaped (c : Char) : Text :=
  if c = '"' then "\\\"".toList
  else if c = '\\' then "\\\\".toList
  else if c = '\n' then "\\n".toList
  else if c = '\r' then "\\r".toList
  else if c = '\t' then "\\t".toList
  else if c = '\x08' then "\\b".toList
  else if c = '\x0c' then "\\f".toList
  else if c.toNat < 0x20 then '\\' :: 'u' :: Text.hex 4 c.toNat
  else [c]

def quote (t : Text) : Text := '"' :: t.flatMap escaped ++ ['"']

/-- How the parts of an array or object are set apart. -/
structure Layout where
  indent : Option Nat

/-- A line break with the indentation of a depth; nothing in compact text. -/
def Layout.newline (l : Layout) (depth : Nat) : Text :=
  match l.indent with
  | none => []
  | some n => '\n' :: List.replicate (n * depth) ' '

def Layout.colon (l : Layout) : Text :=
  match l.indent with
  | none => [':']
  | some _ => [':', ' ']

mutual

def render (l : Layout) (depth : Nat) : JsonValue → Text
  | null => "null".toList
  | bool b => if b then "true".toList else "false".toList
  | number i => Value.ofInt i
  | string t => quote t
  | array [] => ['[', ']']
  | array (v :: vs) =>
      '[' :: l.newline (depth + 1) ++ render l (depth + 1) v ++ renderItems l (depth + 1) vs ++
        l.newline depth ++ [']']
  | object [] => ['\x7b', '\x7d']
  | object ((k, v) :: ms) =>
      '\x7b' :: l.newline (depth + 1) ++ quote k.toList ++ l.colon ++ render l (depth + 1) v ++
        renderMembers l (depth + 1) ms ++ l.newline depth ++ ['\x7d']

def renderItems (l : Layout) (depth : Nat) : List JsonValue → Text
  | [] => []
  | v :: vs => ',' :: l.newline depth ++ render l depth v ++ renderItems l depth vs

def renderMembers (l : Layout) (depth : Nat) : List (String × JsonValue) → Text
  | [] => []
  | (k, v) :: ms =>
      ',' :: l.newline depth ++ quote k.toList ++ l.colon ++ render l depth v ++
        renderMembers l depth ms

end

def compact (v : JsonValue) : Text := render ⟨none⟩ 0 v

def pretty (indent : Nat) (v : JsonValue) : Text := render ⟨some indent⟩ 0 v

end JsonValue
end MotionExpr

import MotionExpr.Value.Moment
import MotionExpr.Value.Shortest
import MotionExpr.Text.Quoted

/-!
Values of settings before their meaning is known. A table keeps its fields in
the order they were written.
-/

namespace MotionExpr

inductive Value where
  | null
  | bool (b : Bool)
  | int (i : Int)
  | float (x : Float)
  | string (s : String)
  | moment (m : Moment)
  | list (items : List Value)
  | table (fields : List (String × Value))

namespace Value

instance : Inhabited Value := ⟨null⟩

abbrev Fields := List (String × Value)

def field? (fields : Fields) (key : String) : Option Value :=
  (fields.find? (·.1 == key)).map (·.2)

/-- Set a field: an existing key keeps its place, a new one goes to the end. -/
def setField : Fields → String → Value → Fields
  | [], key, v => [(key, v)]
  | f :: fs, key, v => if f.1 == key then (key, v) :: fs else f :: setField fs key v

/-- Lay `changes` over `base`, one field after the other. -/
def overlay (base changes : Fields) : Fields :=
  changes.foldl (fun fields f => setField fields f.1 f.2) base

def isTruthy : Value → Bool
  | null => false
  | bool b => b
  | int i => i != 0
  | float x => x != 0
  | string s => s != ""
  | moment _ => true
  | list items => !items.isEmpty
  | table fields => !fields.isEmpty

/-- The name of a value's type in messages. -/
def typeName : Value → String
  | null => "NoneType"
  | bool _ => "bool"
  | int _ => "int"
  | float _ => "float"
  | string _ => "str"
  | moment m => m.typeName
  | list _ => "list"
  | table _ => "dict"

/-- The name of a value's type where an operation does not take it. -/
def qualifiedTypeName : Value → String
  | moment m => m.qualifiedTypeName
  | v => v.typeName

/-- Truth values count as one and zero. -/
def toInt? : Value → Option Int
  | bool b => some (if b then 1 else 0)
  | int i => some i
  | _ => none

/-- `none` where the value is not a number. -/
def lessThan? (v : Value) (bound : Int) : Option Bool :=
  match v with
  | float x => some (x < Float.ofInt bound)
  | _ => v.toInt?.map fun i => decide (i < bound)

/-- Whether a count is within a limit; `none` where the limit is not a number. -/
def admits? (limit : Value) (count : Nat) : Option Bool :=
  match limit with
  | float x => some (Float.ofNat count ≤ x)
  | _ => limit.toInt?.map fun i => decide ((count : Int) ≤ i)

def ofInt (i : Int) : Text :=
  if i < 0 then '-' :: Nat.toDigits 10 i.natAbs else Nat.toDigits 10 i.natAbs

mutual

/-- The text of a value inside others: strings stand in quotes. -/
def quotedText : Value → Text
  | null => "None".toList
  | bool b => if b then "True".toList else "False".toList
  | int i => ofInt i
  | float x => floatText x
  | string s => Text.quoted s.toList
  | moment m => m.expression
  | list items => '[' :: quotedItems items ++ [']']
  | table fields => '\x7b' :: quotedFields fields ++ ['\x7d']

def quotedItems : List Value → Text
  | [] => []
  | [v] => quotedText v
  | v :: vs => quotedText v ++ ',' :: ' ' :: quotedItems vs

def quotedFields : List (String × Value) → Text
  | [] => []
  | [(k, v)] => Text.quoted k.toList ++ ':' :: ' ' :: quotedText v
  | (k, v) :: fs => Text.quoted k.toList ++ ':' :: ' ' :: quotedText v ++ ',' :: ' ' :: quotedFields fs

end

/-! Whole numbers beyond this one have too many digits to be written. -/

def writableBound : Nat := Nat.pow 10 Text.maxNumeral

mutual

def isWritable : Value → Bool
  | int i => i.natAbs < writableBound
  | list items => areWritable items
  | table fields => fieldsAreWritable fields
  | _ => true

def areWritable : List Value → Bool
  | [] => true
  | v :: vs => isWritable v && areWritable vs

def fieldsAreWritable : List (String × Value) → Bool
  | [] => true
  | (_, v) :: fs => isWritable v && fieldsAreWritable fs

end

/-- The text of a value; a string outside other values stands without quotes. -/
def text : Value → Text
  | string s => s.toList
  | moment m => m.text
  | v => quotedText v

end Value
end MotionExpr

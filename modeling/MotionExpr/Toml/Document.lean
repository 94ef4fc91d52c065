import MotionExpr.Toml.Number

/-!
TOML documents as tables. A table is opened once, values are never overwritten,
and a table or array that was written as a value is closed for good.
-/

namespace MotionExpr
namespace Toml

abbrev Path := List String

/-- Change the table at a path, making the tables on the way. In an array of
tables the last one is meant. -/
def within (throughArrays : Bool) (change : Value.Fields → Option Value.Fields) :
    Path → Value.Fields → Option Value.Fields
  | [], fields => change fields
  | k :: ks, fields =>
      match Value.field? fields k with
      | none => (within throughArrays change ks []).map fun sub =>
          Value.setField fields k (.table sub)
      | some (.table sub) => (within throughArrays change ks sub).map fun sub =>
          Value.setField fields k (.table sub)
      | some (.list items) =>
          match throughArrays, items.getLast? with
          | true, some (.table sub) => (within throughArrays change ks sub).map fun sub =>
              Value.setField fields k (.list (items.dropLast ++ [.table sub]))
          | _, _ => none
      | some _ => none

def addField (name : String) (v : Value) (fields : Value.Fields) : Option Value.Fields :=
  match Value.field? fields name with
  | none => some (Value.setField fields name v)
  | some _ => none

def addElement (name : String) (fields : Value.Fields) : Option Value.Fields :=
  match Value.field? fields name with
  | none => some (Value.setField fields name (.list [.table []]))
  | some (.list items) => some (Value.setField fields name (.list (items ++ [.table []])))
  | some _ => none

/-- Closed for good, tables and all inside them included. -/
def isClosed (closed : List Path) (path : Path) : Bool :=
  closed.any fun p => p.isPrefixOf path

def isNested : Value → Bool
  | .table _ | .list _ => true
  | _ => false

/-- Blanks, newlines and comments; every comment takes a character. -/
def skipFiller : (fuel : Nat) → Text → Option Text
  | 0, t => some t
  | fuel + 1, t =>
      match t.dropWhile isBlankOrNewline with
      | '#' :: r => (skipComment ('#' :: r)).bind (skipFiller fuel)
      | rest => some rest

def skipBetweenItems (t : Text) : Option Text := skipFiller t.length t

/-! How deep values may nest: an array takes two places and an inline table three. -/

def nestingLimit : Nat := 984

def deeper (places room : Nat) : Except Fault Nat :=
  if places ≤ room then .ok (room - places) else .error .tooDeep

/-- A value that holds no others. -/
def scalar : Parser Value := fun t =>
  if "true".toList.isPrefixOf t then .ok (.bool true, t.drop 4)
  else if "false".toList.isPrefixOf t then .ok (.bool false, t.drop 5)
  else match moment? t with
    | some (m, rest) => if m.isReal then .ok (.moment m, rest) else .error .malformed
    | none => number t

mutual

/-- Every call takes a character, or is the first to look at the text behind one,
which bounds `fuel`. -/
def value : (fuel room : Nat) → Parser Value
  | 0, _, _ => .error .malformed
  | _ + 1, _, [] => .error .malformed
  | fuel + 1, room, c :: r => do
      if c = '"' || c = '\'' then
        let (s, rest) ← required (string (c :: r))
        return (.string (String.ofList s), rest)
      else if c = '[' then
        let room ← deeper 2 room
        let (items, rest) ← items fuel room (← required (skipBetweenItems r))
        return (.list items, rest)
      else if c = '\x7b' then
        let room ← deeper 3 room
        let (fields, rest) ← inlineFields fuel room [] [] (skipSpaces r)
        return (.table fields, rest)
      else scalar (c :: r)

def items : (fuel room : Nat) → Parser (List Value)
  | 0, _, _ => .error .malformed
  | _ + 1, _, ']' :: r => .ok ([], r)
  | fuel + 1, room, t => do
      let (v, r) ← value fuel room t
      match ← required (skipBetweenItems r) with
      | ']' :: rest => return ([v], rest)
      | ',' :: s =>
          let (vs, rest) ← items fuel room (← required (skipBetweenItems s))
          return (v :: vs, rest)
      | _ => throw .malformed

/-- `closed` holds the keys whose values are nested. -/
def inlineFields : (fuel room : Nat) → Value.Fields → List Path → Parser Value.Fields
  | 0, _, _, _, _ => .error .malformed
  | _ + 1, _, [], _, '\x7d' :: r => .ok ([], r)
  | fuel + 1, room, fields, closed, t => do
      match ← required (key t) with
      | (path, '=' :: s) =>
          let (v, r) ← value fuel room (skipSpaces s)
          if isClosed closed path then throw .malformed
          let fields ← required (within false (addField (path.getLastD "") v) path.dropLast fields)
          match skipSpaces r with
          | '\x7d' :: rest => return (fields, rest)
          | ',' :: s =>
              let closed := if isNested v then path :: closed else closed
              match skipSpaces s with
              | '\x7d' :: _ => throw .malformed
              | next => inlineFields fuel room fields closed next
          | _ => throw .malformed
      | _ => throw .malformed

end

/-- A document being read: the table that key-value lines go to, the tables that
may not be opened again, those that may not once this section ends, and the
paths closed for good. -/
structure State where
  fields : Value.Fields := []
  header : Path := []
  opened : List Path := []
  pending : List Path := []
  closed : List Path := []

/-- The proper beginnings of a dotted key, as paths of the document. -/
def beginnings (header : Path) : (sofar : Path) → Path → List Path
  | _, [] => []
  | _, [_] => []
  | sofar, k :: ks => (header ++ sofar ++ [k]) :: beginnings header (sofar ++ [k]) ks

def assign (s : State) (path : Path) (v : Value) : Option State :=
  let tables := beginnings s.header [] path
  let parent := s.header ++ path.dropLast
  if tables.any s.opened.contains || isClosed s.closed parent then none
  else (within true (addField (path.getLastD "") v) parent s.fields).map fun fields =>
    { s with fields, pending := tables ++ s.pending,
             closed := if isNested v then (s.header ++ path) :: s.closed else s.closed }

def endSection (s : State) : State := { s with opened := s.pending ++ s.opened, pending := [] }

def openTable (s : State) (path : Path) : Option State :=
  if s.opened.contains path || isClosed s.closed path then none
  else (within true some path s.fields).map fun fields =>
    { s with fields, header := path, opened := path :: s.opened }

def openElement (s : State) (path : Path) : Option State :=
  if isClosed s.closed path then none
  else
    let keep := fun (p : Path) => !path.isPrefixOf p
    (within true (addElement (path.getLastD "")) path.dropLast s.fields).map fun fields =>
      { s with fields, header := path, opened := path :: s.opened.filter keep,
               closed := s.closed.filter keep }

def statement (s : State) : Parser State := fun t => do
  match t with
  | '[' :: '[' :: r =>
      let (path, r) ← required (key (skipSpaces r))
      let s ← required (openElement (endSection s) path)
      match r with
      | ']' :: ']' :: rest => return (s, rest)
      | _ => throw .malformed
  | '[' :: r =>
      let (path, r) ← required (key (skipSpaces r))
      let s ← required (openTable (endSection s) path)
      match r with
      | ']' :: rest => return (s, rest)
      | _ => throw .malformed
  | _ =>
      match ← required (key t) with
      | (path, '=' :: r) =>
          let (v, rest) ← value (2 * t.length) nestingLimit (skipSpaces r)
          return (← required (assign s path v), rest)
      | _ => throw .malformed

/-- Every turn passes a newline, which bounds `fuel`. -/
def statements : (fuel : Nat) → State → Text → Except Fault State
  | 0, _, _ => .error .malformed
  | fuel + 1, s, t =>
      match skipSpaces t with
      | [] => .ok s
      | '\n' :: r => statements fuel s r
      | t => do
          let (s, r) ← match t with
            | '#' :: _ => .ok (s, t)
            | _ => statement s t
          match ← required (skipComment (skipSpaces r)) with
          | [] => return s
          | '\n' :: rest => statements fuel s rest
          | _ => throw .malformed

/-- A carriage return with its newline counts as a newline. -/
def joinReturns : Text → Text
  | '\r' :: '\n' :: r => '\n' :: joinReturns r
  | c :: r => c :: joinReturns r
  | [] => []

def parse (source : Text) : Except Fault Value.Fields :=
  let t := joinReturns source
  (statements (t.length + 1) {} t).map (·.fields)

end Toml
end MotionExpr

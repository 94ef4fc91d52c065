import MotionExpr.Toml.Fault
import MotionExpr.Toml.Lexical
import MotionExpr.Value.Basic

/-!
Numbers, dates and times of a TOML document. Digits may be separated by single
underscores.
-/

namespace MotionExpr
namespace Toml

/-- The digits behind the first one. -/
def moreDigits (p : Char → Bool) : Text → Text × Text
  | '_' :: c :: r =>
      if p c then
        let (ds, rest) := moreDigits p r
        (c :: ds, rest)
      else ([], '_' :: c :: r)
  | c :: r =>
      if p c then
        let (ds, rest) := moreDigits p r
        (c :: ds, rest)
      else ([], c :: r)
  | [] => ([], [])

def digits (p : Char → Bool) : Reader Text
  | c :: r =>
      if p c then
        let (ds, rest) := moreDigits p r
        some (c :: ds, rest)
      else none
  | [] => none

def valueOf (base : Nat) (ds : Text) : Nat :=
  ds.foldl (fun n c => base * n + (hexValue? c).getD 0) 0

def based (base : Nat) (p : Char → Bool) (t : Text) : Option (Value × Text) :=
  (digits p t).map fun (ds, rest) => (.int (valueOf base ds), rest)

def sign : Text → Bool × Text
  | '-' :: r => (true, r)
  | '+' :: r => (false, r)
  | t => (false, t)

/-- A whole part has no leading zero. -/
def wholePart : Reader Text
  | '0' :: r => some (['0'], r)
  | t => digits Text.isAsciiDigit t

def fractionPart? : Text → Option (Text × Text)
  | '.' :: r => digits Text.isAsciiDigit r
  | _ => none

def exponentPart? : Text → Option ((Bool × Text) × Text)
  | c :: r =>
      if c == 'e' || c == 'E' then
        let (negative, s) := sign r
        (digits Text.isAsciiDigit s).map fun (ds, rest) => ((negative, ds), rest)
      else none
  | [] => none

def infinity : Float := Float.ofScientific 1 false 400

/-- The double nearest to a decimal. No double but zero and infinity has its
leading digit four hundred places away from the point. -/
def toFloat (digits : Text) (exponent : Int) : Float :=
  let digits := digits.dropWhile (· == '0')
  let places := digits.length + exponent
  if digits.isEmpty || places < -400 then 0
  else if 400 < places then infinity
  else Float.ofScientific (valueOf 10 digits) (exponent < 0) exponent.natAbs

/-- The length of a whole number is limited, that of a fraction is not. -/
def decimal : Parser Value := fun t => do
  let (negative, r) := sign t
  let (whole, r) ← required (wholePart r)
  let (fraction, r, hasFraction) := match fractionPart? r with
    | some (ds, rest) => (ds, rest, true)
    | none => ([], r, false)
  match exponentPart? r, hasFraction with
  | none, false =>
      if Text.maxNumeral < whole.length then throw (.numeralTooLong whole.length)
      let n : Int := valueOf 10 whole
      return (.int (if negative then -n else n), r)
  | found, _ =>
      let (power, rest) : Int × Text := match found with
        | some ((down, ds), rest) => (if down then -(valueOf 10 ds : Int) else valueOf 10 ds, rest)
        | none => (0, r)
      let x := toFloat (whole ++ fraction) (power - fraction.length)
      return (.float (if negative then -x else x), rest)

def special? (t : Text) : Option (Value × Text) :=
  let (negative, r) := sign t
  if "inf".toList.isPrefixOf r then
    some (.float (if negative then -infinity else infinity), r.drop 3)
  else if "nan".toList.isPrefixOf r then some (.float (0.0 / 0.0), r.drop 3)
  else none

def unsigned? : Text → Option (Value × Text)
  | '0' :: 'x' :: r => based 16 (fun c => (hexValue? c).isSome) r
  | '0' :: 'o' :: r => based 8 (fun c => '0' ≤ c && c ≤ '7') r
  | '0' :: 'b' :: r => based 2 (fun c => c == '0' || c == '1') r
  | _ => none

def number : Parser Value := fun t =>
  match (unsigned? t).orElse fun _ => special? t with
  | some found => .ok found
  | none => decimal t

/-! Dates and times. -/

/-- Exactly `count` digits that name a number in the given range. -/
def field (count low high : Nat) (t : Text) : Option (Nat × Text) :=
  let ds := t.take count
  let n := valueOf 10 ds
  if ds.length = count && ds.all Text.isAsciiDigit && low ≤ n && n ≤ high then
    some (n, t.drop count)
  else none

def expect (c : Char) : Text → Option Text
  | d :: r => if c = d then some r else none
  | [] => none

/-- Digits of a second beyond the sixth are dropped. -/
def fractionOfSecond (t : Text) : Nat × Text :=
  match t with
  | '.' :: r =>
      match r.takeWhile Text.isAsciiDigit with
      | [] => (0, t)
      | ds => (valueOf 10 ((ds ++ List.replicate 6 '0').take 6), r.dropWhile Text.isAsciiDigit)
  | _ => (0, t)

def clock? : Reader Clock := fun t => do
  let (hour, r) ← field 2 0 23 t
  let (minute, r) ← field 2 0 59 (← expect ':' r)
  let (second, r) ← field 2 0 59 (← expect ':' r)
  let (microsecond, rest) := fractionOfSecond r
  return (⟨hour, minute, second, microsecond⟩, rest)

/-- The year, month and day at the head; the month need not have so many days. -/
def day? : Reader Day := fun t => do
  let (year, r) ← field 4 0 9999 t
  let (month, r) ← field 2 1 12 (← expect '-' r)
  let (day, rest) ← field 2 1 31 (← expect '-' r)
  return (⟨year, month, day⟩, rest)

def offset? : Reader Int := fun t => do
  let (hours, r) ← field 2 0 23 t
  let (minutes, rest) ← field 2 0 59 (← expect ':' r)
  return (60 * hours + minutes, rest)

def zone (t : Text) : Option Int × Text :=
  match t with
  | [] => (none, t)
  | c :: r =>
      if c == 'Z' || c == 'z' then (some 0, r)
      else if c == '+' || c == '-' then
        match offset? r with
        | some (minutes, rest) => (some (if c == '-' then -minutes else minutes), rest)
        | none => (none, t)
      else (none, t)

/-- The time of day behind a day and the character between them. -/
def clockBehind? : Reader Clock
  | c :: r => if c == 'T' || c == 't' || c == ' ' then clock? r else none
  | [] => none

def moment? : Reader Moment := fun t =>
  match day? t with
  | some (d, r) =>
      match clockBehind? r with
      | some (c, r) =>
          let (minutes, rest) := zone r
          some (.dateTime d c minutes, rest)
      | none => some (.day d, r)
  | none => (clock? t).map fun (c, rest) => (.clock c, rest)

end Toml
end MotionExpr

import MotionExpr.Text.Basic
import MotionExpr.Text.Decimal

/-!
Days, times of day and points in time. A point in time may carry a zone, the
number of minutes that its clock is ahead. Each has two texts: a plain one, and
the expression that makes it, which stands inside lists and tables.
-/

namespace MotionExpr

structure Day where
  year : Nat
  month : Nat
  day : Nat
  deriving DecidableEq, Repr

structure Clock where
  hour : Nat
  minute : Nat
  second : Nat
  microsecond : Nat
  deriving DecidableEq, Repr

inductive Moment where
  | day (d : Day)
  | clock (c : Clock)
  | dateTime (d : Day) (c : Clock) (zone : Option Int)
  deriving DecidableEq, Repr

namespace Moment

def zeroPadded (width n : Nat) : Text :=
  let digits := Text.ofNat n
  List.replicate (width - digits.length) '0' ++ digits

def numbers (ns : List Nat) : Text := Text.concatSep ", ".toList (ns.map Text.ofNat)

end Moment

namespace Day

def daysIn (year month : Nat) : Nat :=
  if month = 2 then
    if year % 4 = 0 && (year % 100 ≠ 0 || year % 400 = 0) then 29 else 28
  else if month = 4 || month = 6 || month = 9 || month = 11 then 30 else 31

/-- The calendar begins with the year one. -/
def isReal (d : Day) : Bool :=
  0 < d.year && 0 < d.month && d.month ≤ 12 && 0 < d.day && d.day ≤ daysIn d.year d.month

def text (d : Day) : Text :=
  Moment.zeroPadded 4 d.year ++ '-' :: Moment.zeroPadded 2 d.month ++
    '-' :: Moment.zeroPadded 2 d.day

def parts (d : Day) : List Nat := [d.year, d.month, d.day]

end Day

namespace Clock

/-- A fraction of a second is shown in full or not at all. -/
def text (c : Clock) : Text :=
  Moment.zeroPadded 2 c.hour ++ ':' :: Moment.zeroPadded 2 c.minute ++
    ':' :: Moment.zeroPadded 2 c.second ++
    if c.microsecond = 0 then [] else '.' :: Moment.zeroPadded 6 c.microsecond

/-- Zeros at the end are left out, those of the hour and the minute apart. -/
def parts (c : Clock) : List Nat :=
  c.hour :: c.minute ::
    if c.microsecond ≠ 0 then [c.second, c.microsecond]
    else if c.second ≠ 0 then [c.second]
    else []

end Clock

namespace Moment

def zoneText (minutes : Int) : Text :=
  (if minutes < 0 then '-' else '+') :: zeroPadded 2 (minutes.natAbs / 60) ++
    ':' :: zeroPadded 2 (minutes.natAbs % 60)

/-- A zone that is behind is a day behind and some seconds ahead. -/
def zoneExpression (minutes : Int) : Text :=
  if minutes = 0 then "datetime.timezone.utc".toList
  else
    let seconds := 60 * minutes.natAbs
    "datetime.timezone(datetime.timedelta(".toList ++
      (if minutes < 0 then "days=-1, seconds=".toList ++ Text.ofNat (86400 - seconds)
        else "seconds=".toList ++ Text.ofNat seconds) ++ "))".toList

def text : Moment → Text
  | day d => d.text
  | clock c => c.text
  | dateTime d c zone => d.text ++ ' ' :: c.text ++ (zone.map zoneText).getD []

def isReal : Moment → Bool
  | day d | dateTime d _ _ => d.isReal
  | clock _ => true

def typeName : Moment → String
  | day _ => "date"
  | clock _ => "time"
  | dateTime _ _ _ => "datetime"

def qualifiedTypeName (m : Moment) : String := "datetime." ++ m.typeName

def arguments : Moment → Text
  | day d => numbers d.parts
  | clock c => numbers c.parts
  | dateTime d c zone => numbers (d.parts ++ c.parts) ++
      (zone.map fun minutes => ", tzinfo=".toList ++ zoneExpression minutes).getD []

def expression (m : Moment) : Text :=
  m.qualifiedTypeName.toList ++ '(' :: m.arguments ++ [')']

end Moment
end MotionExpr

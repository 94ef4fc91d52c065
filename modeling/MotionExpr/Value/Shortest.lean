/-!
The fewest decimal digits that read back as a given binary fraction.

A double is `m * 2 ^ q`. The numbers that round to it lie between the midpoints
to its neighbours, the midpoints included when `m` is even. For one, two, up to
seventeen digits the two decimals next to the value on that grid are tested; the
first grid with a hit is taken, and of two hits the nearer one.
-/

namespace MotionExpr
namespace Value

/-- The real number `numerator / denominator`, with the ends of the interval of
reals that round to it on the same denominator. -/
structure Rounding where
  lower : Nat
  value : Nat
  upper : Nat
  denominator : Nat
  closed : Bool

/-- The interval around `m * 2 ^ q`; `narrow` marks a power of two, whose lower
neighbour is half as far away. -/
def Rounding.ofBinary (m : Nat) (q : Int) (narrow : Bool) : Rounding :=
  let below := if narrow then 1 else 2
  if 0 ≤ q then
    let scale := Nat.pow 2 q.toNat
    ⟨(4 * m - below) * scale, 4 * m * scale, (4 * m + 2) * scale, 4, m % 2 == 0⟩
  else
    ⟨4 * m - below, 4 * m, 4 * m + 2, 4 * Nat.pow 2 (-q).toNat, m % 2 == 0⟩

def Rounding.contains (r : Rounding) (numerator denominator : Nat) : Bool :=
  let x := numerator * r.denominator
  let lower := r.lower * denominator
  let upper := r.upper * denominator
  if r.closed then lower ≤ x && x ≤ upper else lower < x && x < upper

/-- The decimal `digits * 10 ^ exponent` on the given grid that is in the
interval, the nearer one when both neighbours are. -/
def Rounding.onGrid? (r : Rounding) (exponent : Int) : Option Nat :=
  let (up, down) := if 0 ≤ exponent then (Nat.pow 10 exponent.toNat, 1)
    else (1, Nat.pow 10 (-exponent).toNat)
  let low := r.value * down / (r.denominator * up)
  let inLow := low != 0 && r.contains (low * up) down
  let inHigh := r.contains ((low + 1) * up) down
  let toLow := r.value * down - low * up * r.denominator
  let toHigh := (low + 1) * up * r.denominator - r.value * down
  match inLow, inHigh with
  | true, true =>
      if toLow < toHigh then some low
      else if toHigh < toLow then some (low + 1)
      else if low % 2 == 0 then some low else some (low + 1)
  | true, false => some low
  | false, true => some (low + 1)
  | false, false => none

/-- Try grids from coarse to fine; `fuel` bounds their number. -/
def Rounding.search (r : Rounding) : (fuel : Nat) → (exponent : Int) → Option (Nat × Int)
  | 0, _ => none
  | fuel + 1, exponent =>
      match r.onGrid? exponent with
      | some digits => some (digits, exponent)
      | none => r.search fuel (exponent - 1)

/-- How many digits the whole part has, or one minus the number of zeros after
the point: the `e` with `10 ^ (e - 1) ≤ value < 10 ^ e`. -/
def Rounding.magnitude (r : Rounding) : Int :=
  if r.denominator ≤ r.value then ((Nat.toDigits 10 (r.value / r.denominator)).length : Int)
  else
    let zeros := (Nat.toDigits 10 (r.denominator / r.value)).length
    if r.denominator ≤ r.value * Nat.pow 10 (zeros - 1) then 2 - (zeros : Int) else 1 - (zeros : Int)

def Rounding.shortest (r : Rounding) : Nat × Int :=
  (r.search 20 (r.magnitude)).getD (0, 0)

/-- The leading bit of a mantissa, which is not stored. -/
def hiddenBit : Nat := Nat.pow 2 52

def signBit : Nat := Nat.pow 2 63

/-- Mantissa, exponent and whether the lower neighbour is nearer, of the bits of
a finite double without its sign. -/
def decodeBits (bits : Nat) : Nat × Int × Bool :=
  let exponent := bits / hiddenBit
  let fraction := bits % hiddenBit
  if exponent == 0 then (fraction, -1074, false)
  else (hiddenBit + fraction, (exponent : Int) - 1075, fraction == 0 && exponent != 1)

def dropZeros : (fuel : Nat) → Nat → Int → Nat × Int
  | 0, digits, exponent => (digits, exponent)
  | fuel + 1, digits, exponent =>
      if digits != 0 && digits % 10 == 0 then dropZeros fuel (digits / 10) (exponent + 1)
      else (digits, exponent)

/-- Digits are written out in place from `0.0001` up to, not including, ten to
the sixteenth; beyond that one digit stands before the point and the power of
ten has a sign and at least two digits. -/
def placeDigits (digits : Nat) (exponent : Int) : List Char :=
  let shown := Nat.toDigits 10 digits
  let point := (shown.length : Int) + exponent
  if -4 < point && point ≤ 16 then
    if point ≤ 0 then
      '0' :: '.' :: List.replicate (-point).toNat '0' ++ shown
    else if shown.length ≤ point.toNat then
      shown ++ List.replicate (point.toNat - shown.length) '0' ++ ['.', '0']
    else shown.take point.toNat ++ '.' :: shown.drop point.toNat
  else
    let power := point - 1
    let mantissa := match shown with
      | [] => []
      | [d] => [d]
      | d :: r => d :: '.' :: r
    let size := Nat.toDigits 10 power.natAbs
    mantissa ++ 'e' :: (if power < 0 then '-' else '+') ::
      List.replicate (2 - size.length) '0' ++ size

def floatText (x : Float) : List Char :=
  let bits := x.toBits.toNat
  let negative := signBit ≤ bits
  let magnitude := bits % signBit
  let sign := if negative then ['-'] else []
  if 0x7FF0000000000000 < magnitude then "nan".toList
  else if magnitude == 0x7FF0000000000000 then sign ++ "inf".toList
  else if magnitude == 0 then sign ++ "0.0".toList
  else
    let (m, q, narrow) := decodeBits magnitude
    let (digits, exponent) := (Rounding.ofBinary m q narrow).shortest
    let (digits, exponent) := dropZeros 20 digits exponent
    sign ++ placeDigits digits exponent

end Value
end MotionExpr

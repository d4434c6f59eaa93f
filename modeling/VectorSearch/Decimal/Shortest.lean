import VectorSearch.Decimal.Binary
/-!
The shortest decimal that reads back as a given double-precision number, and of several equally
short ones the nearest to it.

A decimal reads back if it lies between the midpoints to the two neighbouring numbers; a midpoint
itself reads back when the mantissa is even. For each number of digits the two decimals around the
value are tried: if any decimal of that many digits reads back, one of those two does.
-/

namespace VectorSearch.Decimal

structure Digits where
  coefficient : Nat
  exponent : Int
  deriving DecidableEq, Repr

/-- The decimals that read back as one number: those from `low / scale` to `high / scale`, with or
without the ends. The number itself is `value / scale`. -/
structure ReadBack where
  low : Nat
  value : Nat
  high : Nat
  scale : Nat
  ends : Bool

/-- The decimals that read back as `mantissa * 2 ^ exponent`. The gap below a power of two is half
the gap above it, except where the numbers are evenly spaced down to zero. -/
def ReadBack.of (mantissa : Nat) (exponent : Int) : ReadBack :=
  let unit := power 2 exponent
  let below := if mantissa = hiddenBit ∧ exponent ≠ -1074 then 1 else 2
  { low := (4 * mantissa - below) * unit
    value := 4 * mantissa * unit
    high := (4 * mantissa + 2) * unit
    scale := 4 * power 2 (-exponent)
    ends := mantissa % 2 = 0 }

def ReadBack.holds (range : ReadBack) (digits : Digits) : Bool :=
  let point := digits.coefficient * power 10 digits.exponent * range.scale
  let low := range.low * power 10 (-digits.exponent)
  let high := range.high * power 10 (-digits.exponent)
  if range.ends then decide (low ≤ point) && decide (point ≤ high)
  else decide (low < point) && decide (point < high)

def ReadBack.distance (range : ReadBack) (digits : Digits) : Nat :=
  let point := digits.coefficient * power 10 digits.exponent * range.scale
  let value := range.value * power 10 (-digits.exponent)
  max point value - min point value

def ReadBack.floor (range : ReadBack) (exponent : Int) : Digits where
  coefficient := range.value * power 10 (-exponent) / (range.scale * power 10 exponent)
  exponent

/-- The decimal of this exponent that reads back and is nearest to the value; of two that are
equally near, the greater. -/
def ReadBack.at? (range : ReadBack) (exponent : Int) : Option Digits :=
  let lower := range.floor exponent
  let upper := { lower with coefficient := lower.coefficient + 1 }
  if range.holds lower then
    if range.holds upper && decide (range.distance upper ≤ range.distance lower) then some upper
    else some lower
  else if range.holds upper then some upper
  else none

def digitCount (value : Nat) : Nat := if value = 0 then 0 else (Nat.toDigits 10 value).length

def zerosFrom (numerator denominator : Nat) : (limit : Nat) → Nat
  | 0 => 0
  | limit + 1 =>
    if denominator ≤ 10 * numerator then 0
    else zerosFrom (10 * numerator) denominator limit + 1

def ReadBack.magnitude (range : ReadBack) : Int :=
  if range.scale ≤ range.value then digitCount (range.value / range.scale)
  else -(zerosFrom range.value range.scale 400 : Nat)

def ReadBack.firstFrom (range : ReadBack) (top : Int) : (left : Nat) → (digits : Nat) → Digits
  | 0, digits => range.floor (top - digits)
  | left + 1, digits =>
    match range.at? (top - digits) with
    | some found => found
    | none => range.firstFrom top left (digits + 1)

def Digits.trimFrom (digits : Digits) : (limit : Nat) → Digits
  | 0 => digits
  | limit + 1 =>
    if digits.coefficient % 10 = 0 then
      Digits.trimFrom ⟨digits.coefficient / 10, digits.exponent + 1⟩ limit
    else digits

/-- The shortest decimal that reads back as `mantissa * 2 ^ exponent`, a number above zero.
Seventeen digits are always enough. -/
def shortest (mantissa : Nat) (exponent : Int) : Digits :=
  let range := ReadBack.of mantissa exponent
  (range.firstFrom range.magnitude 17 1).trimFrom 20

end VectorSearch.Decimal

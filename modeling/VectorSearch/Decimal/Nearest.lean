import VectorSearch.Decimal.Binary
/-!
The double-precision number nearest to a decimal. Halves go to the number with the even mantissa,
and a decimal too large for any number reads as infinity.
-/

namespace VectorSearch.Decimal

/-- A quotient rounded to nearest, a half to the even neighbour. -/
def roundDiv (numerator denominator : Nat) : Nat :=
  let quotient := numerator / denominator
  let rest := numerator % denominator
  if 2 * rest < denominator then quotient
  else if denominator < 2 * rest then quotient + 1
  else quotient + quotient % 2

/-- The exponent of the greatest power of two that is not above a fraction. The logarithms of its
parts are at most one apart from it. -/
def binaryMagnitude (numerator denominator : Nat) : Int :=
  let guess := (numerator.log2 : Int) - denominator.log2
  if denominator * power 2 guess ≤ numerator * power 2 (-guess) then guess else guess - 1

def infiniteBits : Nat := 2047 * hiddenBit

/-- The word of the number nearest to a fraction above zero.

The mantissa has 53 bits unless the number is too close to zero for that. Adding it to the place
value of the exponent lets a mantissa that was rounded up to the next power of two carry over. -/
def fractionBits (numerator denominator : Nat) : Nat :=
  let exponent := max (binaryMagnitude numerator denominator - 52) (-1074)
  let mantissa := roundDiv (numerator * power 2 (-exponent)) (denominator * power 2 exponent)
  min ((exponent + 1074).toNat * hiddenBit + mantissa) infiniteBits

/-- The word of the number nearest to `coefficient * 10 ^ exponent`. Decimals that are far out of
range are not worked out. -/
def nearestBits (coefficient : Nat) (exponent : Int) : Nat :=
  if coefficient = 0 then 0
  else if 400 < exponent then infiniteBits
  else if (coefficient.log2 : Int) + 3 * exponent < -1200 then 0
  else fractionBits (coefficient * power 10 exponent) (power 10 (-exponent))

def nearest (negative : Bool) (coefficient : Nat) (exponent : Int) : Float :=
  Float.ofBits (UInt64.ofNat ((if negative then signBit else 0) + nearestBits coefficient exponent))

end VectorSearch.Decimal

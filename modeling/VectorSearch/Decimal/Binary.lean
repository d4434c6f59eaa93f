/-!
The exact value of a double-precision number, taken apart into whole numbers.
-/

namespace VectorSearch.Decimal

/-- The place value of the bit above the fraction, which every mantissa of full length has:
`2 ^ 52`. -/
def hiddenBit : Nat := 0x10000000000000

def signBit : Nat := 0x8000000000000000

inductive Reading where
  | undefined
  | infinite (negative : Bool)
  | finite (negative : Bool) (mantissa : Nat) (exponent : Int)
  deriving DecidableEq, Repr

def Reading.ofBits (bits : Nat) : Reading :=
  let negative := bits.testBit 63
  let exponent := bits / hiddenBit % 2048
  let fraction := bits % hiddenBit
  if exponent = 2047 then
    if fraction = 0 then infinite negative else undefined
  else if exponent = 0 then finite negative fraction (-1074)
  else finite negative (hiddenBit + fraction) ((exponent : Int) - 1075)

def Reading.ofFloat (value : Float) : Reading := ofBits value.toBits.toNat

/-- A power with an exponent that counts as zero where it is negative. -/
def power (base : Nat) (exponent : Int) : Nat := base.pow exponent.toNat

end VectorSearch.Decimal

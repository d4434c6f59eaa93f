import VectorSearch.Decimal.Nearest
import VectorSearch.Decimal.Text
import VectorSearch.Toml.Quoted
import VectorSearch.Toml.Value
/-!
Written numbers. Whole numbers are signed words of 64 bits, in base ten or, behind a mark, in base
sixteen, eight or two. Real numbers are in base ten, with a fraction, an exponent or both, or named.
-/

namespace VectorSearch.Toml

/-- The digits of a number, in which single underscores may stand between digits. -/
def ungroup? (digit : Char → Bool) : List Char → Option (List Char)
  | [] => none
  | [char] => if digit char then some [char] else none
  | char :: '_' :: rest => if digit char then (ungroup? digit rest).map (char :: ·) else none
  | char :: rest => if digit char then (ungroup? digit rest).map (char :: ·) else none

def digitsValue (base : Nat) (digits : List Char) : Nat :=
  digits.foldl (fun value digit => base * value + (hexValue? digit).getD 0) 0

def isDigitIn (base : Nat) (char : Char) : Bool :=
  match hexValue? char with
  | some value => value < base
  | none => false

def grouped? (base : Nat) (chars : List Char) : Option Nat :=
  (ungroup? (isDigitIn base) chars).map (digitsValue base)

def wholeDigits? (chars : List Char) : Option (List Char) :=
  match ungroup? (isDigitIn 10) chars with
  | some ('0' :: _ :: _) => none
  | digits => digits

def splitSign : List Char → Bool × List Char
  | '+' :: rest => (false, rest)
  | '-' :: rest => (true, rest)
  | chars => (false, chars)

def fitsWord (value : Int) : Bool :=
  -0x8000000000000000 ≤ value && value < 0x8000000000000000

def unboundedWhole? : List Char → Option Int
  | '0' :: 'x' :: rest => (grouped? 16 rest).map Int.ofNat
  | '0' :: 'o' :: rest => (grouped? 8 rest).map Int.ofNat
  | '0' :: 'b' :: rest => (grouped? 2 rest).map Int.ofNat
  | chars => do
    let (negative, chars) := splitSign chars
    let value := digitsValue 10 (← wholeDigits? chars)
    return if negative then -value else value

def whole? (chars : List Char) : Option Int :=
  (unboundedWhole? chars).filter fitsWord

def exponent? (chars : List Char) : Option Int := do
  let (negative, chars) := splitSign chars
  let value ← grouped? 10 chars
  return if negative then -value else value

def splitExponent (chars : List Char) : List Char × Option (List Char) :=
  let isLetter := fun char => char = 'e' || char = 'E'
  match chars.dropWhile (!isLetter ·) with
  | [] => (chars, none)
  | _ :: rest => (chars.takeWhile (!isLetter ·), some rest)

def splitPoint (chars : List Char) : List Char × Option (List Char) :=
  match chars.dropWhile (· ≠ '.') with
  | [] => (chars, none)
  | _ :: rest => (chars.takeWhile (· ≠ '.'), some rest)

def optionalPart (read : List Char → Option α) (missing : α) : Option (List Char) → Option α
  | none => some missing
  | some chars => read chars

def unsignedReal? (negative : Bool) (chars : List Char) : Option Float := do
  let (mantissa, exponent) := splitExponent chars
  let (whole, fraction) := splitPoint mantissa
  if exponent.isNone && fraction.isNone then none
  else
    let whole ← wholeDigits? whole
    let fraction ← optionalPart (ungroup? (isDigitIn 10)) [] fraction
    let exponent ← optionalPart exponent? 0 exponent
    return Decimal.nearest negative (digitsValue 10 (whole ++ fraction))
      (exponent - fraction.length)

/-- The real number that a text stands for. One that is too large is refused, unless it is
negative. -/
def real? (chars : List Char) : Option Float := do
  let (negative, chars) := splitSign chars
  match chars with
  | ['i', 'n', 'f'] => return if negative then -1 / 0 else 1 / 0
  | ['n', 'a', 'n'] => return 0 / 0
  | chars =>
    let value ← unsignedReal? negative chars
    if value == 1 / 0 then none else return value

def writeWhole (value : Int) : List Char :=
  if value < 0 then '-' :: Decimal.digitsOf value.natAbs else Decimal.digitsOf value.natAbs

/-- A real number, with a point in it so that it does not read as a whole number. -/
def writeReal (value : Float) : List Char :=
  let text := (Decimal.plain value).toList
  if text = ['N', 'a', 'N'] then ['n', 'a', 'n']
  else if text.any fun char => char = '.' || char = 'i' then text
  else text ++ ['.', '0']

end VectorSearch.Toml

import VectorSearch.Decimal.Nearest
import VectorSearch.Decimal.Shortest
/-!
Written decimals: the shortest one without an exponent, and one with a fixed number of places,
rounded to nearest with a half going to the even neighbour.
-/

namespace VectorSearch.Decimal

def digitsOf (value : Nat) : List Char := Nat.toDigits 10 value

def Digits.positional (digits : Digits) : List Char :=
  let text := digitsOf digits.coefficient
  let shift := digits.exponent.toNat
  let places := (-digits.exponent).toNat
  if places = 0 then text ++ List.replicate shift '0'
  else if places < text.length then
    text.take (text.length - places) ++ '.' :: text.drop (text.length - places)
  else '0' :: '.' :: (List.replicate (places - text.length) '0' ++ text)

def signed (negative : Bool) (text : List Char) : String :=
  String.ofList (if negative then '-' :: text else text)

def infinityName (negative : Bool) : String := if negative then "-inf" else "inf"

def plain (value : Float) : String :=
  match Reading.ofFloat value with
  | .undefined => "NaN"
  | .infinite negative => infinityName negative
  | .finite negative 0 _ => signed negative ['0']
  | .finite negative mantissa exponent => signed negative (shortest mantissa exponent).positional

def placesText (places units : Nat) : List Char :=
  let text := digitsOf units
  let text := List.replicate (places + 1 - text.length) '0' ++ text
  text.take (text.length - places) ++ '.' :: text.drop (text.length - places)

def fixed (places : Nat) (value : Float) : String :=
  match Reading.ofFloat value with
  | .undefined => "NaN"
  | .infinite negative => infinityName negative
  | .finite negative mantissa exponent =>
    let units := roundDiv (mantissa * power 2 exponent * power 10 places) (power 2 (-exponent))
    signed negative (placesText places units)

end VectorSearch.Decimal

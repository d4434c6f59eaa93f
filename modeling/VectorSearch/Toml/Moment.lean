import VectorSearch.Toml.Number
/-!
Written dates and times: `1979-05-27`, `07:32:00.5`, and both together with a `T` or a blank between
them. A date with a time may have an offset from universal time.
-/

namespace VectorSearch.Toml

def plainDigits? (chars : List Char) : Option Nat :=
  if chars.all Char.isDigit then some (digitsValue 10 chars) else none

def isPair (low high : Nat) (first second : Char) : Bool :=
  match plainDigits? [first, second] with
  | some value => low ≤ value && value ≤ high
  | none => false

def daysOf (year month : Nat) : Nat :=
  if month = 2 then
    if year % 4 = 0 ∧ (year % 100 ≠ 0 ∨ year % 400 = 0) then 29 else 28
  else if month = 4 ∨ month = 6 ∨ month = 9 ∨ month = 11 then 30
  else 31

def isDate : List Char → Bool
  | [y1, y2, y3, y4, '-', m1, m2, '-', d1, d2] =>
    match plainDigits? [y1, y2, y3, y4], plainDigits? [m1, m2] with
    | some year, some month =>
      1 ≤ month && month ≤ 12 && isPair 1 (daysOf year month) d1 d2
    | _, _ => false
  | _ => false

def isHourMinute : List Char → Bool
  | [h1, h2, ':', m1, m2] => isPair 0 23 h1 h2 && isPair 0 59 m1 m2
  | _ => false

/-- Whether a text is the part of a time that follows the minute: seconds, and perhaps a fraction.
A minute may have a leap second. -/
def isSeconds : List Char → Bool
  | [':', s1, s2] => isPair 0 60 s1 s2
  | ':' :: s1 :: s2 :: '.' :: first :: rest =>
    isPair 0 60 s1 s2 && (first :: rest).all Char.isDigit
  | _ => false

def isTime (chars : List Char) : Bool :=
  isHourMinute (chars.take 5) && isSeconds (chars.drop 5)

def isOffset : List Char → Bool
  | ['Z'] | ['z'] => true
  | sign :: rest => (sign = '+' || sign = '-') && isHourMinute rest
  | [] => false

def isZonedTime (chars : List Char) : Bool :=
  let isTimeChar := fun char : Char => char.isDigit || char = ':' || char = '.'
  let offset := chars.dropWhile isTimeChar
  isTime (chars.takeWhile isTimeChar) && (offset.isEmpty || isOffset offset)

def isMoment (chars : List Char) : Bool :=
  isDate chars || isTime chars ||
    match chars.drop 10 with
    | letter :: time => isDate (chars.take 10) && (letter = 'T' || letter = 't') && isZonedTime time
    | [] => false

end VectorSearch.Toml

/-!
Counts and their exchange with floating-point numbers. Counts are natural numbers; where one is
turned into a floating-point number or back it is held in a word of 64 bits, and a count that does
not fit is replaced by the greatest word.
-/

namespace VectorSearch.Count

def limit : Nat := 0xffffffffffffffff

def saturate (count : Nat) : Nat := min count limit

def toWord (count : Nat) : UInt64 := UInt64.ofNat (saturate count)

def toFloat (count : Nat) : Float := (toWord count).toFloat

def toFloat32 (count : Nat) : Float32 := (toWord count).toFloat32

/-- The whole part of a number: nothing for an undefined or negative one, and the greatest word
for one that is too large. -/
def ofFloat (value : Float) : Nat := value.toUInt64.toNat

end VectorSearch.Count

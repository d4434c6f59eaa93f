import VectorSearch.Text.Bounded
/-!
Cuts found in the bytes of a text. A character takes one to four bytes, and only its first byte is
below `0x80` or from `0xc0` on; a text can be cut in front of such a byte and behind its last one. A
cut is looked for backwards from the limit.
-/

namespace VectorSearch.Text

def startsCharacter (byte : UInt8) : Bool := byte < 0x80 || 0xc0 ≤ byte

def isBoundary (text : String) (offset : Nat) : Bool :=
  if offset = 0 then true
  else if inside : offset < text.toByteArray.size then startsCharacter text.toByteArray[offset]
  else offset = text.toByteArray.size

/-- The last place up to `offset` at which a text can be cut, looked for one byte after another.
There is no place in front of the first byte to go to. -/
def boundaryUpTo? (text : String) : (offset : Nat) → Option Nat
  | 0 => if isBoundary text 0 then some 0 else none
  | offset + 1 =>
    if isBoundary text (offset + 1) then some (offset + 1) else boundaryUpTo? text offset

def slice? (text : String) (stop : Nat) : Option String :=
  if isBoundary text stop then String.fromUTF8? (text.toByteArray.extract 0 stop) else none

def truncateBytes? (text : String) (limit : Nat) : Option String :=
  if text.toByteArray.size ≤ limit then some text
  else (boundaryUpTo? text limit).bind (slice? text)

end VectorSearch.Text

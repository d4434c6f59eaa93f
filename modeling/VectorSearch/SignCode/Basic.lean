import VectorSearch.Embedding
import VectorSearch.Failure
/-!
Sign codes: one bit for each coordinate, set where the coordinate is not negative. Coordinate `i`
has the bit of weight `2 ^ (7 - i % 8)` in byte `i / 8`. The bits of the last byte that no
coordinate uses are clear in a code made from an embedding and arbitrary in a code read from a
buffer.
-/

namespace VectorSearch

def bytesNeeded (dimension : Nat) : Nat := (dimension + 7) / 8

structure SignCode where
  dimension : Nat
  bytes : Array UInt8
  /-- Whether the code has bytes of its own rather than a view of a buffer. -/
  owned : Bool
  size_bytes : bytes.size = bytesNeeded dimension

namespace SignCode

def placeMask (place : Nat) : UInt8 := 0x80 >>> UInt8.ofNat place

/-- Whether a coordinate is there and is not negative. An undefined coordinate counts as
negative, and both zeros count as not negative. -/
def isSet (row : Embedding) (coordinate : Nat) : Bool :=
  match row[coordinate]? with
  | some value => decide (0 ≤ value)
  | none => false

def signByte (row : Embedding) (position : Nat) : UInt8 :=
  (List.range 8).foldl
    (fun byte place =>
      if isSet row (8 * position + place) then byte ||| placeMask place else byte) 0

def ofRow (row : Embedding) : SignCode where
  dimension := row.size
  bytes := Array.ofFn fun position : Fin (bytesNeeded row.size) => signByte row position
  owned := true
  size_bytes := by simp

def quantize (row : Embedding) : Except Failure SignCode :=
  if row.isEmpty then .error (.invalidArgument "cannot quantize an empty vector")
  else .ok (ofRow row)

def wrap (buffer : Array UInt8) (dimension : Nat) : Except Failure SignCode :=
  if dimension = 0 then
    .error (.invalidArgument "binary vector dimension must be > 0")
  else if enough : bytesNeeded dimension ≤ buffer.size then
    .ok {
      dimension
      bytes := buffer.extract 0 (bytesNeeded dimension)
      owned := false
      size_bytes := by simp only [Array.size_extract]; omega }
  else
    .error (.invalidArgument ("buffer of " ++ toString buffer.size ++ " bytes cannot hold " ++
      toString dimension ++ " bits (" ++ toString (bytesNeeded dimension) ++ " bytes needed)"))

def bit (code : SignCode) (coordinate : Nat) : Option Bool :=
  if inside : coordinate < code.dimension then
    have bound : coordinate / 8 < code.bytes.size := by
      rw [code.size_bytes, bytesNeeded]; omega
    some (code.bytes[coordinate / 8] &&& placeMask (coordinate % 8) != 0)
  else none

def toOwned (code : SignCode) : SignCode := { code with owned := true }

/-! Codes that are written bit by bit, into bytes that several coordinates share. -/

def setBit (bytes : Array UInt8) (coordinate : Nat) : Array UInt8 :=
  bytes.modify (coordinate / 8) (· ||| placeMask (coordinate % 8))

def writeSigns (bytes : Array UInt8) (coordinate : Nat) : List Float32 → Array UInt8
  | [] => bytes
  | value :: rest =>
    writeSigns (if 0 ≤ value then setBit bytes coordinate else bytes) (coordinate + 1) rest

def written (row : Embedding) : Array UInt8 :=
  writeSigns (Array.replicate (bytesNeeded row.size) 0) 0 row.toList

end SignCode

end VectorSearch

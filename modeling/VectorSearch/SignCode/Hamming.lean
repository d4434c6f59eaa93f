import VectorSearch.Count
import VectorSearch.SignCode.Basic
/-!
Hamming distance between sign codes: the number of coordinates whose bits differ. It is counted
byte by byte, or in wide steps: blocks of 32 bytes by a table of half bytes, then words of eight
bytes, then the bytes that are left. Both ways mask the unused bits of the last byte.
-/

namespace VectorSearch.SignCode

def onesBelow (width value : Nat) : Nat :=
  (List.range width).countP value.testBit

def byteOnes (byte : UInt8) : Nat := onesBelow 8 byte.toNat

def countBy (ones : UInt8 → Nat) : List UInt8 → Nat
  | [] => 0
  | byte :: rest => ones byte + countBy ones rest

def countBytes (bytes : List UInt8) : Nat := countBy byteOnes bytes

def changed (pair : UInt8 × UInt8) : UInt8 := pair.1 ^^^ pair.2

def countPairs (pairs : List (UInt8 × UInt8)) : Nat := countBytes (pairs.map changed)

/-! Blocks of 32 bytes. All bytes of a block are counted at once, and the counts of every eight
bytes are added up in one of four lanes. -/

/-- The number of set bits of a half byte, from a table. An index with its highest bit set is no
place of the table. -/
def halfOnes (index : UInt8) : UInt8 :=
  if 0x80 ≤ index then 0
  else [0, 1, 1, 2, 1, 2, 2, 3, 1, 2, 2, 3, 2, 3, 3, 4].getD (index &&& 0x0f).toNat 0

/-- Neighbouring bytes taken as one number, the first of the two lowest, and shifted right by half a
byte: the low half of the second one moves into the first. -/
def shiftPairs : List UInt8 → List UInt8
  | low :: high :: rest =>
    let shifted := (low.toNat + 256 * high.toNat) / 16
    UInt8.ofNat shifted :: UInt8.ofNat (shifted / 256) :: shiftPairs rest
  | rest => rest

def blockOnes (block : List UInt8) : List UInt8 :=
  List.zipWith (fun low high => halfOnes low + halfOnes high) (block.map (· &&& 0x0f))
    ((shiftPairs block).map (· &&& 0x0f))

def laneSums : (lanes : Nat) → List UInt8 → List Nat
  | 0, _ => []
  | lanes + 1, bytes => countBy UInt8.toNat (bytes.take 8) :: laneSums lanes (bytes.drop 8)

def laneTotal (lanes : List Nat) : Nat := lanes.foldr (· + ·) 0

/-- The lanes after all whole blocks, and the bytes that are left. A block adds at most 64 to a
lane, so that no buffer is long enough to fill one. -/
def addBlocks (lanes : List Nat) (pairs : List (UInt8 × UInt8)) :
    List Nat × List (UInt8 × UInt8) :=
  if 32 ≤ pairs.length then
    let block := (pairs.take 32).map changed
    addBlocks (List.zipWith (· + ·) lanes (laneSums 4 (blockOnes block))) (pairs.drop 32)
  else (lanes, pairs)
termination_by pairs.length
decreasing_by simp only [List.length_drop]; omega

def countBlocks (pairs : List (UInt8 × UInt8)) : Nat × List (UInt8 × UInt8) :=
  let (lanes, rest) := addBlocks [0, 0, 0, 0] pairs
  (laneTotal lanes, rest)

/-! Words of eight bytes. -/

def joinBytes : List UInt8 → Nat
  | [] => 0
  | byte :: rest => byte.toNat + 256 * joinBytes rest

def readWord (lowestFirst : Bool) (bytes : List UInt8) : Nat :=
  joinBytes (if lowestFirst then bytes else bytes.reverse)

def countWords (lowestFirst : Bool) (pairs : List (UInt8 × UInt8)) :
    Nat × List (UInt8 × UInt8) :=
  if 8 ≤ pairs.length then
    let (ones, rest) := countWords lowestFirst (pairs.drop 8)
    let first := readWord lowestFirst ((pairs.take 8).map (·.1))
    let second := readWord lowestFirst ((pairs.take 8).map (·.2))
    (onesBelow 64 (first ^^^ second) + ones, rest)
  else (0, pairs)
termination_by pairs.length
decreasing_by simp only [List.length_drop]; omega

/-- The differing bits of all bytes in wide steps. What a machine does is an option: it may lack the
blocks, and it may read words in either order of their bytes. -/
def countWide (useBlocks lowestFirst : Bool) (pairs : List (UInt8 × UInt8)) : Nat :=
  let (blockCount, afterBlocks) := if useBlocks then countBlocks pairs else (0, pairs)
  let (wordCount, afterWords) := countWords lowestFirst afterBlocks
  blockCount + wordCount + countPairs afterWords

/-! The distance. -/

/-- The bits of the last byte that coordinates use, when they do not fill it. -/
def tailMask (dimension : Nat) : UInt8 := 0xFF <<< UInt8.ofNat (8 - dimension % 8)

def paired (first second : SignCode) : List (UInt8 × UInt8) :=
  first.bytes.toList.zip second.bytes.toList

def distanceBy (count : List (UInt8 × UInt8) → Nat) (first second : SignCode) :
    Except Failure Nat :=
  if first.dimension = second.dimension then
    let full := first.dimension / 8
    let pairs := paired first second
    let tail := if first.dimension % 8 = 0 then 0
      else ((pairs[full]?).map fun pair =>
        byteOnes (changed pair &&& tailMask first.dimension)).getD 0
    .ok (count (pairs.take full) + tail)
  else
    .error (.invalidArgument ("hamming distance between vectors of " ++
      toString first.dimension ++ " and " ++ toString second.dimension ++ " bits"))

def hamming (first second : SignCode) : Except Failure Nat :=
  distanceBy countPairs first second

def hammingWide (first second : SignCode) (useBlocks : Bool := true)
    (lowestFirst : Bool := true) : Except Failure Nat :=
  distanceBy (countWide useBlocks lowestFirst) first second

/-- Stands for the distance between codes that have none. -/
def unknownDistance : Nat := Count.limit

def hammingOrUnknown (first second : SignCode) : Nat :=
  match hammingWide first second with
  | .ok distance => distance
  | .error _ => unknownDistance

def similarity (first second : SignCode) : Except Failure Float32 := do
  let distance ← hammingWide first second
  return 1 - Count.toFloat32 distance / Count.toFloat32 first.dimension

end VectorSearch.SignCode

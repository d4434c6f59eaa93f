import VectorSearch.Proofs.SignCode.Bits
import VectorSearch.Proofs.SignCode.Wide
/-!
The distance of sign codes. Whether single bytes or wide steps count it, it is the number of
coordinates whose bits differ.
-/

namespace VectorSearch.SignCode

def bitOf (bytes : List UInt8) (coordinate : Nat) : Bool :=
  (bytes[coordinate / 8]?).any fun byte => byte.toNat.testBit (7 - coordinate % 8)

theorem byteOnes_eq (byte : UInt8) :
    byteOnes byte = (List.range 8).countP fun place => byte.toNat.testBit (7 - place) := by
  have turned : (List.range 8).Perm ((List.range 8).map (7 - ·)) := by decide
  rw [byteOnes, onesBelow, turned.countP_eq, List.countP_map]
  rfl

theorem countBytes_eq (bytes : List UInt8) :
    countBytes bytes = (List.range (8 * bytes.length)).countP (bitOf bytes) := by
  induction bytes with
  | nil => rfl
  | cons byte rest ih =>
      rw [List.length_cons, Nat.mul_succ, Nat.add_comm, List.range_add, List.countP_append,
        List.countP_map]
      have first : (List.range 8).countP (bitOf (byte :: rest)) = byteOnes byte := by
        rw [byteOnes_eq]
        refine List.countP_congr fun place member => ?_
        have small := List.mem_range.mp member
        simp [bitOf, Nat.div_eq_of_lt small, Nat.mod_eq_of_lt small]
      have later : bitOf (byte :: rest) ∘ (8 + ·) = bitOf rest := by
        funext coordinate
        simp [bitOf, Nat.add_div_left]
      rw [first, later, ← ih]
      rfl

theorem testBit_tailMask {dimension place : Nat} (partly : dimension % 8 ≠ 0) (inside : place < 8) :
    (tailMask dimension).toNat.testBit (7 - place) = decide (place < dimension % 8) := by
  have each : ∀ rest < 8, rest ≠ 0 → ∀ place < 8,
      (0xFF <<< UInt8.ofNat (8 - rest) : UInt8).toNat.testBit (7 - place) =
        decide (place < rest) := by
    decide
  exact each _ (Nat.mod_lt _ (by decide)) partly place inside

theorem byteOnes_and_tailMask {dimension : Nat} (partly : dimension % 8 ≠ 0) (byte : UInt8) :
    byteOnes (byte &&& tailMask dimension) =
      (List.range (dimension % 8)).countP fun place => byte.toNat.testBit (7 - place) := by
  have split : List.range 8 = List.range (dimension % 8) ++
      (List.range (8 - dimension % 8)).map (dimension % 8 + ·) := by
    rw [← List.range_add]
    congr 1
    omega
  rw [byteOnes_eq, split, List.countP_append, List.countP_map]
  have unused : (List.range (8 - dimension % 8)).countP
      ((fun place => (byte &&& tailMask dimension).toNat.testBit (7 - place)) ∘
        (dimension % 8 + ·)) = 0 := by
    rw [List.countP_eq_zero]
    intro place member
    have inside := List.mem_range.mp member
    simp [testBit_tailMask partly (show dimension % 8 + place < 8 by omega)]
  rw [unused, Nat.add_zero]
  refine List.countP_congr fun place member => ?_
  have inside := List.mem_range.mp member
  simp [testBit_tailMask partly (show place < 8 by omega), inside]

theorem countBytes_add_tail (bytes : List UInt8) {dimension : Nat}
    (long : bytes.length = bytesNeeded dimension) :
    countBytes (bytes.take (dimension / 8)) +
        (if dimension % 8 = 0 then 0
          else ((bytes[dimension / 8]?).map fun byte =>
            byteOnes (byte &&& tailMask dimension)).getD 0) =
      (List.range dimension).countP (bitOf bytes) := by
  have enough : dimension / 8 ≤ bytes.length := by
    rw [long, bytesNeeded]
    omega
  have full : (List.range (8 * (dimension / 8))).countP (bitOf bytes) =
      countBytes (bytes.take (dimension / 8)) := by
    rw [countBytes_eq, List.length_take_of_le enough]
    refine List.countP_congr fun coordinate member => ?_
    have inside : coordinate / 8 < dimension / 8 :=
      Nat.div_lt_of_lt_mul (List.mem_range.mp member)
    simp [bitOf, inside]
  have split : List.range dimension = List.range (8 * (dimension / 8)) ++
      (List.range (dimension % 8)).map (8 * (dimension / 8) + ·) := by
    rw [← List.range_add, Nat.div_add_mod]
  rw [split, List.countP_append, full, List.countP_map]
  congr 1
  split
  · next whole => simp [whole]
  · next partly =>
      have last : dimension / 8 < bytes.length := by
        rw [long, bytesNeeded]
        omega
      rw [List.getElem?_eq_getElem last, Option.map_some, Option.getD_some,
        byteOnes_and_tailMask partly]
      refine List.countP_congr fun place member => ?_
      have inside := List.mem_range.mp member
      have row : (8 * (dimension / 8) + place) / 8 = dimension / 8 := by omega
      have column : (8 * (dimension / 8) + place) % 8 = place := by omega
      simp [bitOf, row, column, List.getElem?_eq_getElem last]

def differences (first second : SignCode) : List UInt8 := (paired first second).map changed

theorem bitOf_differences {first second : SignCode} (same : first.dimension = second.dimension)
    {coordinate : Nat} (inside : coordinate < first.dimension) :
    bitOf (differences first second) coordinate =
      (first.bit coordinate != second.bit coordinate) := by
  obtain ⟨one, oneFound, oneBit⟩ := first.bit_eq_testBit inside
  obtain ⟨two, twoFound, twoBit⟩ := second.bit_eq_testBit (same ▸ inside)
  have found : (paired first second)[coordinate / 8]? = some (one, two) := by
    rw [paired, List.zip, List.getElem?_zipWith, Array.getElem?_toList, Array.getElem?_toList,
      oneFound, twoFound]
  rw [bitOf, differences, List.getElem?_map, found, oneBit, twoBit]
  simp only [Option.map_some, Option.any_some, changed, UInt8.toNat_xor, Nat.testBit_xor]
  cases one.toNat.testBit (7 - coordinate % 8) <;>
    cases two.toNat.testBit (7 - coordinate % 8) <;> rfl

theorem hamming_eq {first second : SignCode} (same : first.dimension = second.dimension) :
    first.hamming second = .ok ((List.range first.dimension).countP fun coordinate =>
      first.bit coordinate != second.bit coordinate) := by
  have long : (differences first second).length = bytesNeeded first.dimension := by
    simp [differences, paired, first.size_bytes, second.size_bytes, same]
  have counted := countBytes_add_tail _ long
  simp only [differences, ← List.map_take, List.getElem?_map, Option.map_map] at counted
  rw [hamming, distanceBy, if_pos same]
  refine (congrArg Except.ok counted).trans ?_
  refine congrArg Except.ok (List.countP_congr fun coordinate member => ?_)
  have bits := bitOf_differences same (List.mem_range.mp member)
  exact iff_of_eq (congrArg (· = true) bits)

/-! Distances of embeddings. -/

def signDistance (first second : Embedding) : Nat :=
  (List.range first.size).countP fun coordinate => isSet first coordinate != isSet second coordinate

theorem hammingWide_ofRow {first second : Embedding} (same : first.size = second.size)
    (useBlocks : Bool) :
    (ofRow first).hammingWide (ofRow second) useBlocks = .ok (signDistance first second) := by
  rw [hammingWide_eq, hamming_eq same]
  refine congrArg Except.ok (List.countP_congr fun coordinate member => ?_)
  have inside := List.mem_range.mp member
  rw [bit_ofRow first inside, bit_ofRow second (same ▸ inside)]
  simp

end VectorSearch.SignCode

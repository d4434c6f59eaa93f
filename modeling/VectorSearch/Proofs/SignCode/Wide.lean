import Mathlib.Data.Nat.Bitwise
import VectorSearch.SignCode.Hamming
/-!
Counting in wide steps. Lanes, words in either order of their bytes and single bytes count each
differing bit once, so that wide steps find what single bytes find.
-/

namespace VectorSearch.SignCode

/-! Single bytes. -/

theorem onesBelow_add (low high value : Nat) :
    onesBelow (low + high) value =
      onesBelow low (value % 2 ^ low) + onesBelow high (value / 2 ^ low) := by
  rw [onesBelow, onesBelow, onesBelow, List.range_add, List.countP_append, List.countP_map]
  congr 1
  · refine List.countP_congr fun place member => ?_
    simp [Nat.testBit_mod_two_pow, List.mem_range.mp member]
  · refine List.countP_congr fun place _ => ?_
    simp [Nat.testBit_div_two_pow, Nat.add_comm]

theorem onesBelow_le (width value : Nat) : onesBelow width value ≤ width := by
  have few : onesBelow width value ≤ (List.range width).length := List.countP_le_length
  rwa [List.length_range] at few

theorem countBy_append (ones : UInt8 → Nat) (first second : List UInt8) :
    countBy ones (first ++ second) = countBy ones first + countBy ones second := by
  induction first with
  | nil => exact (Nat.zero_add _).symm
  | cons byte rest ih => rw [List.cons_append, countBy, countBy, ih, Nat.add_assoc]

theorem countBytes_reverse (bytes : List UInt8) : countBytes bytes.reverse = countBytes bytes := by
  rw [countBytes, countBytes]
  induction bytes with
  | nil => rfl
  | cons byte rest ih =>
      rw [List.reverse_cons, countBy_append, ih, Nat.add_comm]
      rfl

theorem countPairs_take_add_drop (width : Nat) (pairs : List (UInt8 × UInt8)) :
    countPairs (pairs.take width) + countPairs (pairs.drop width) = countPairs pairs := by
  rw [countPairs, countPairs, countBytes, countBytes, ← countBy_append, ← List.map_append,
    List.take_append_drop]
  rfl

/-! Blocks. -/

theorem toNat_halfOnes {index : UInt8} (small : index.toNat < 16) :
    (halfOnes index).toNat = onesBelow 4 index.toNat := by
  have each : ∀ half < 16, (halfOnes (UInt8.ofNat half)).toNat = onesBelow 4 half := by decide
  simpa using each index.toNat small

theorem toNat_lowHalf (byte : UInt8) : (byte &&& 0x0f).toNat = byte.toNat % 16 := by
  rw [UInt8.toNat_and]
  exact Nat.and_two_pow_sub_one_eq_mod byte.toNat 4

theorem toNat_halfOnes_add {byte low high : UInt8} (lowHalf : low.toNat = byte.toNat % 16)
    (highHalf : high.toNat = byte.toNat / 16) :
    (halfOnes low + halfOnes high).toNat = byteOnes byte := by
  have small := byte.toNat_lt
  have halves : byteOnes byte = onesBelow 4 low.toNat + onesBelow 4 high.toNat := by
    rw [lowHalf, highHalf]
    exact onesBelow_add 4 4 byte.toNat
  have lowFew := onesBelow_le 4 low.toNat
  have highFew := onesBelow_le 4 high.toNat
  rw [UInt8.toNat_add, toNat_halfOnes (by omega), toNat_halfOnes (by omega), ← halves]
  omega

theorem countBy_blockOnes (block : List UInt8) (even : block.length % 2 = 0) :
    countBy UInt8.toNat (blockOnes block) = countBytes block := by
  fun_induction shiftPairs block with
  | case1 low high rest shifted ih =>
      have lowSmall := low.toNat_lt
      have highSmall := high.toNat_lt
      have first : (UInt8.ofNat shifted &&& 0x0f).toNat = low.toNat / 16 := by
        rw [toNat_lowHalf, UInt8.toNat_ofNat']
        omega
      have second : (UInt8.ofNat (shifted / 256) &&& 0x0f).toNat = high.toNat / 16 := by
        rw [toNat_lowHalf, UInt8.toNat_ofNat']
        omega
      have unfolded : blockOnes (low :: high :: rest) =
          (halfOnes (low &&& 0x0f) + halfOnes (UInt8.ofNat shifted &&& 0x0f)) ::
          (halfOnes (high &&& 0x0f) + halfOnes (UInt8.ofNat (shifted / 256) &&& 0x0f)) ::
          blockOnes rest := rfl
      rw [unfolded, countBy, countBy, toNat_halfOnes_add (toNat_lowHalf low) first,
        toNat_halfOnes_add (toNat_lowHalf high) second,
        ih (by rw [List.length_cons, List.length_cons] at even; omega)]
      rfl
  | case2 rest unpaired =>
      match rest, unpaired with
      | [], _ => rfl
      | [byte], _ => exact absurd even (by simp)
      | low :: high :: rest, unpaired => exact (unpaired low high rest rfl).elim

@[simp] theorem length_shiftPairs (bytes : List UInt8) :
    (shiftPairs bytes).length = bytes.length := by
  fun_induction shiftPairs bytes with
  | case1 low high rest shifted ih => simp [ih]
  | case2 => rfl

@[simp] theorem length_blockOnes (block : List UInt8) :
    (blockOnes block).length = block.length := by
  simp [blockOnes]

@[simp] theorem length_laneSums (lanes : Nat) (bytes : List UInt8) :
    (laneSums lanes bytes).length = lanes := by
  induction lanes generalizing bytes with
  | zero => rfl
  | succ lanes ih => rw [laneSums, List.length_cons, ih]

theorem laneTotal_laneSums {lanes : Nat} {bytes : List UInt8} (room : bytes.length ≤ 8 * lanes) :
    laneTotal (laneSums lanes bytes) = countBy UInt8.toNat bytes := by
  induction lanes generalizing bytes with
  | zero =>
      have empty : bytes = [] := List.length_eq_zero_iff.mp (by omega)
      rw [empty]
      rfl
  | succ lanes ih =>
      have rest : (bytes.drop 8).length ≤ 8 * lanes := by
        rw [List.length_drop]
        omega
      have total : laneTotal (laneSums (lanes + 1) bytes) =
          countBy UInt8.toNat (bytes.take 8) + laneTotal (laneSums lanes (bytes.drop 8)) := rfl
      rw [total, ih rest, ← countBy_append, List.take_append_drop]

theorem laneTotal_zipWith {lanes others : List Nat} (same : lanes.length = others.length) :
    laneTotal (List.zipWith (· + ·) lanes others) = laneTotal lanes + laneTotal others := by
  induction lanes generalizing others with
  | nil =>
      rw [List.length_eq_zero_iff.mp same.symm]
      rfl
  | cons lane lanes ih =>
      match others, same with
      | other :: others, same =>
        have tails := @ih others (by simpa using same)
        simp only [laneTotal, List.zipWith_cons_cons, List.foldr_cons] at tails ⊢
        omega

theorem addBlocks_add (lanes : List Nat) (pairs : List (UInt8 × UInt8)) (four : lanes.length = 4) :
    laneTotal (addBlocks lanes pairs).1 + countPairs (addBlocks lanes pairs).2 =
      laneTotal lanes + countPairs pairs := by
  fun_induction addBlocks lanes pairs with
  | case1 lanes pairs enough block ih =>
      have long : block.length = 32 := by
        rw [List.length_map, List.length_take_of_le enough]
      have counted : laneTotal (laneSums 4 (blockOnes block)) = countPairs (pairs.take 32) := by
        rw [laneTotal_laneSums (by rw [length_blockOnes, long]),
          countBy_blockOnes block (by rw [long])]
        rfl
      rw [ih (by simp [four]), laneTotal_zipWith (by simp [four]), counted, Nat.add_assoc,
        countPairs_take_add_drop]
  | case2 => rfl

theorem countBlocks_add (pairs : List (UInt8 × UInt8)) :
    (countBlocks pairs).1 + countPairs (countBlocks pairs).2 = countPairs pairs := by
  have added := addBlocks_add [0, 0, 0, 0] pairs rfl
  rw [show laneTotal [0, 0, 0, 0] = 0 from rfl, Nat.zero_add] at added
  exact added

/-! Words. -/

theorem onesBelow_joinBytes (bytes : List UInt8) :
    onesBelow (8 * bytes.length) (joinBytes bytes) = countBytes bytes := by
  induction bytes with
  | nil => rfl
  | cons byte rest ih =>
      have small := byte.toNat_lt
      have low : joinBytes (byte :: rest) % 2 ^ 8 = byte.toNat := by
        rw [joinBytes]
        omega
      have high : joinBytes (byte :: rest) / 2 ^ 8 = joinBytes rest := by
        rw [joinBytes]
        omega
      rw [List.length_cons, Nat.mul_succ, Nat.add_comm, onesBelow_add, low, high, ih]
      rfl

theorem joinBytes_xor (pairs : List (UInt8 × UInt8)) :
    joinBytes (pairs.map (·.1)) ^^^ joinBytes (pairs.map (·.2)) =
      joinBytes (pairs.map changed) := by
  induction pairs with
  | nil => rfl
  | cons pair rest ih =>
      have oneSmall := pair.1.toNat_lt
      have twoSmall := pair.2.toNat_lt
      rw [List.map_cons, List.map_cons, List.map_cons, joinBytes, joinBytes, joinBytes, ← ih,
        changed, UInt8.toNat_xor]
      generalize joinBytes (rest.map (·.1)) = one
      generalize joinBytes (rest.map (·.2)) = two
      rw [← Nat.mod_add_div ((pair.1.toNat + 256 * one) ^^^ (pair.2.toNat + 256 * two)) (2 ^ 8),
        Nat.xor_mod_two_pow, Nat.xor_div_two_pow]
      congr 2 <;> congr 1 <;> omega

theorem onesBelow_readWord (lowestFirst : Bool) {pairs : List (UInt8 × UInt8)}
    (eight : pairs.length = 8) :
    onesBelow 64 (readWord lowestFirst (pairs.map (·.1)) ^^^
      readWord lowestFirst (pairs.map (·.2))) = countPairs pairs := by
  have counted := onesBelow_joinBytes (pairs.map changed)
  have turned := onesBelow_joinBytes (pairs.reverse.map changed)
  rw [List.length_map, eight] at counted
  rw [List.length_map, List.length_reverse, eight, List.map_reverse, countBytes_reverse] at turned
  cases lowestFirst with
  | true => exact (congrArg (onesBelow 64) (joinBytes_xor pairs)).trans counted
  | false =>
      have joined := joinBytes_xor pairs.reverse
      rw [List.map_reverse, List.map_reverse, List.map_reverse] at joined
      exact (congrArg (onesBelow 64) joined).trans turned

theorem countWords_add (lowestFirst : Bool) (pairs : List (UInt8 × UInt8)) :
    (countWords lowestFirst pairs).1 + countPairs (countWords lowestFirst pairs).2 =
      countPairs pairs := by
  fun_induction countWords lowestFirst pairs with
  | case1 pairs enough ones rest counted first second ih =>
      have word := onesBelow_readWord lowestFirst (List.length_take_of_le enough)
      rw [counted] at ih
      rw [word, Nat.add_assoc, ih, countPairs_take_add_drop]
  | case2 => exact Nat.zero_add _

theorem countWide_eq (useBlocks lowestFirst : Bool) (pairs : List (UInt8 × UInt8)) :
    countWide useBlocks lowestFirst pairs = countPairs pairs := by
  unfold countWide
  cases useBlocks with
  | false => simpa using countWords_add lowestFirst pairs
  | true =>
      have words := countWords_add lowestFirst (countBlocks pairs).2
      have blocks := countBlocks_add pairs
      simp only [if_true]
      omega

theorem hammingWide_eq (first second : SignCode) (useBlocks lowestFirst : Bool) :
    first.hammingWide second useBlocks lowestFirst = first.hamming second := by
  rw [hammingWide, hamming, funext (countWide_eq useBlocks lowestFirst)]

end VectorSearch.SignCode

import Mathlib.Data.Nat.Bitwise
import VectorSearch.SignCode.Basic
/-!
The bits of sign codes. The bit of a coordinate is a bit of the number that its byte stands for; a
code made from an embedding has the sign of each coordinate, and so has a view of its bytes.
-/

namespace VectorSearch.SignCode

theorem toNat_placeMask :
    ∀ {place : Nat}, place < 8 → (placeMask place).toNat = 2 ^ (7 - place) := by
  decide

theorem and_placeMask {place : Nat} (inside : place < 8) (byte : UInt8) :
    (byte &&& placeMask place != 0) = byte.toNat.testBit (7 - place) := by
  have value : (byte &&& placeMask place).toNat =
      (byte.toNat.testBit (7 - place)).toNat * 2 ^ (7 - place) := by
    rw [UInt8.toNat_and, toNat_placeMask inside, Nat.and_two_pow]
  rw [Bool.eq_iff_iff, bne_iff_ne, Ne, ← UInt8.toNat_inj, value]
  cases byte.toNat.testBit (7 - place) <;> simp

theorem testBit_placeMask {place other : Nat} (inside : place < 8) (otherInside : other < 8) :
    (placeMask place).toNat.testBit (7 - other) = decide (other = place) := by
  rw [toNat_placeMask inside, Nat.testBit_two_pow]
  exact decide_eq_decide.mpr (by omega)

theorem testBit_signByte (row : Embedding) (position : Nat) {place : Nat} (inside : place < 8) :
    (signByte row position).toNat.testBit (7 - place) = isSet row (8 * position + place) := by
  have folded : ∀ (places : List Nat) (start : UInt8), (∀ other ∈ places, other < 8) →
      (places.foldl (fun byte other =>
        if isSet row (8 * position + other) then byte ||| placeMask other else byte)
          start).toNat.testBit (7 - place) =
      (start.toNat.testBit (7 - place) ||
        decide (place ∈ places) && isSet row (8 * position + place)) := by
    intro places
    induction places with
    | nil => simp
    | cons first rest ih =>
        intro start bounded
        rw [List.foldl_cons, ih _ fun other member => bounded other (by simp [member])]
        have small := bounded first (by simp)
        by_cases same : place = first
        · subst same
          cases isSet row (8 * position + place) <;> simp [testBit_placeMask inside inside]
        · cases isSet row (8 * position + first) <;> simp [testBit_placeMask small inside, same]
  have whole := folded (List.range 8) 0 fun _ => List.mem_range.mp
  rw [signByte, whole]
  simp [inside]

theorem bit_eq_testBit (code : SignCode) {coordinate : Nat} (inside : coordinate < code.dimension) :
    ∃ byte, code.bytes[coordinate / 8]? = some byte ∧
      code.bit coordinate = some (byte.toNat.testBit (7 - coordinate % 8)) := by
  have bound : coordinate / 8 < code.bytes.size := by
    rw [code.size_bytes, bytesNeeded]
    omega
  refine ⟨_, Array.getElem?_eq_getElem bound, ?_⟩
  rw [bit, dif_pos inside]
  exact congrArg some (and_placeMask (Nat.mod_lt _ (by decide)) _)

theorem quantize_of_pos {row : Embedding} (some : 0 < row.size) : quantize row = .ok (ofRow row) :=
  if_neg (ne_true_of_eq_false (Array.isEmpty_eq_false_iff.mpr (Array.size_pos_iff.mp some)))

theorem bit_ofRow (row : Embedding) {coordinate : Nat} (inside : coordinate < row.size) :
    (ofRow row).bit coordinate = some (isSet row coordinate) := by
  obtain ⟨byte, found, kept⟩ := (ofRow row).bit_eq_testBit inside
  have sign : byte = signByte row (coordinate / 8) := by
    rw [ofRow, Array.getElem?_ofFn] at found
    split at found
    · exact (Option.some.inj found).symm
    · cases found
  rw [kept, sign, testBit_signByte _ _ (Nat.mod_lt _ (by decide)), Nat.div_add_mod]

theorem wrap_bytes (code : SignCode) {dimension : Nat} (same : code.dimension = dimension)
    (positive : 0 < dimension) :
    wrap code.bytes dimension = .ok { code with owned := false } := by
  subst same
  rw [wrap, if_neg (Nat.ne_of_gt positive), dif_pos code.size_bytes.ge]
  congr 2
  rw [← code.size_bytes, Array.extract_size]

end VectorSearch.SignCode

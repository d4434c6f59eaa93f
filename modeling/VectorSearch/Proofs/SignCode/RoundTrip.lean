import Mathlib.Algebra.Order.Floor.Semiring
import Mathlib.Data.Rat.Floor
import VectorSearch.Proofs.SignCode.Distance
/-!
Sign codes and the bits that they hold. A code is known by its bits and its unused bits; the one
made from an embedding has the signs of the coordinates and no unused bit set, so that reading bits
from bytes and making bytes from bits undo each other.
-/

namespace VectorSearch.SignCode

/-! Bits of bytes. -/

theorem testBit_eq_of_le {byte : UInt8} {place : Nat} (past : 8 ≤ place) :
    byte.toNat.testBit place = false :=
  Nat.testBit_lt_two_pow (byte.toNat_lt.trans_le (Nat.pow_le_pow_right (by decide) past))

theorem byte_ext {first second : UInt8}
    (same : ∀ place < 8, first.toNat.testBit (7 - place) = second.toNat.testBit (7 - place)) :
    first = second := by
  apply UInt8.toNat_inj.mp
  apply Nat.eq_of_testBit_eq
  intro place
  by_cases inside : place < 8
  · simpa [Nat.sub_sub_self (Nat.le_of_lt_succ inside)] using same (7 - place) (by omega)
  · rw [testBit_eq_of_le (by omega), testBit_eq_of_le (by omega)]

theorem bytes_ext {first second : List UInt8} (length : first.length = second.length)
    (same : ∀ coordinate, bitOf first coordinate = bitOf second coordinate) : first = second := by
  refine List.ext_getElem length fun position inside otherInside => byte_ext fun place small => ?_
  have bit := same (8 * position + place)
  have row : (8 * position + place) / 8 = position := by omega
  have column : (8 * position + place) % 8 = place := by omega
  simpa [bitOf, row, column, inside, otherInside] using bit

theorem bitOf_replicate (length coordinate : Nat) :
    bitOf (List.replicate length 0) coordinate = false := by
  rw [bitOf, List.getElem?_replicate]
  split <;> simp

/-! Codes. -/

theorem bit_eq_bitOf (code : SignCode) {coordinate : Nat} (inside : coordinate < code.dimension) :
    code.bit coordinate = some (bitOf code.bytes.toList coordinate) := by
  obtain ⟨byte, found, value⟩ := code.bit_eq_testBit inside
  rw [value, bitOf, Array.getElem?_toList, found]
  rfl

theorem bit_of_past (code : SignCode) {coordinate : Nat} (past : code.dimension ≤ coordinate) :
    code.bit coordinate = none :=
  dif_neg (Nat.not_lt.mpr past)

/-- Codes are known by their bits, those that no coordinate uses among them. -/
theorem ext_bits {first second : SignCode} (dimension : first.dimension = second.dimension)
    (owned : first.owned = second.owned)
    (same : ∀ coordinate,
      bitOf first.bytes.toList coordinate = bitOf second.bytes.toList coordinate) :
    first = second := by
  have bytes : first.bytes = second.bytes := by
    refine Array.toList_inj.mp (bytes_ext ?_ same)
    rw [Array.length_toList, Array.length_toList, first.size_bytes, second.size_bytes, dimension]
  cases first
  cases second
  congr

theorem isSet_of_lt {row : Embedding} {coordinate : Nat} (inside : coordinate < row.size) :
    isSet row coordinate = decide (0 ≤ row[coordinate]) := by
  rw [isSet, Array.getElem?_eq_getElem inside]

theorem isSet_of_past {row : Embedding} {coordinate : Nat} (past : row.size ≤ coordinate) :
    isSet row coordinate = false := by
  rw [isSet, Array.getElem?_eq_none past]

theorem bitOf_ofRow (row : Embedding) (coordinate : Nat) :
    bitOf (ofRow row).bytes.toList coordinate = isSet row coordinate := by
  rw [bitOf, Array.getElem?_toList, ofRow, Array.getElem?_ofFn]
  split
  · rw [Option.any_some, testBit_signByte _ _ (Nat.mod_lt _ (by decide)), Nat.div_add_mod]
  · rename_i outside
    rw [bytesNeeded] at outside
    rw [isSet_of_past (by omega)]
    rfl

/-! Writing. -/

theorem size_setBit (bytes : Array UInt8) (coordinate : Nat) :
    (setBit bytes coordinate).size = bytes.size := Array.size_modify

theorem bitOf_setBit {bytes : Array UInt8} {coordinate : Nat} (inside : coordinate / 8 < bytes.size)
    (other : Nat) :
    bitOf (setBit bytes coordinate).toList other =
      (decide (other = coordinate) || bitOf bytes.toList other) := by
  rw [bitOf, bitOf, Array.getElem?_toList, Array.getElem?_toList, setBit, Array.getElem?_modify]
  by_cases shared : coordinate / 8 = other / 8
  · -- A byte that both share gets one bit, which is that of the other only if it is the same one.
    have found := Array.getElem?_eq_getElem (shared ▸ inside)
    rw [if_pos shared, found]
    simp only [Option.map_some, Option.any_some, UInt8.toNat_or, Nat.testBit_or,
      testBit_placeMask (Nat.mod_lt _ (by decide)) (Nat.mod_lt _ (by decide))]
    have together : (other % 8 = coordinate % 8) ↔ other = coordinate := by omega
    rw [decide_eq_decide.mpr together, Bool.or_comm]
  · have different : other ≠ coordinate := fun same => shared (by rw [same])
    rw [if_neg shared, decide_eq_false different, Bool.false_or]

theorem size_writeSigns (values : List Float32) :
    ∀ (bytes : Array UInt8) (coordinate : Nat),
      (writeSigns bytes coordinate values).size = bytes.size := by
  induction values with
  | nil => intro bytes coordinate; rfl
  | cons value rest ih =>
      intro bytes coordinate
      rw [writeSigns, ih]
      split
      · exact size_setBit bytes coordinate
      · rfl

theorem bitOf_writeSigns (values : List Float32) :
    ∀ (bytes : Array UInt8) (coordinate : Nat), coordinate + values.length ≤ 8 * bytes.size →
      ∀ other, bitOf (writeSigns bytes coordinate values).toList other =
        (bitOf bytes.toList other || decide (coordinate ≤ other) &&
          (values[other - coordinate]?).any fun value => decide (0 ≤ value)) := by
  induction values with
  | nil => intro bytes coordinate _ other; simp [writeSigns]
  | cons value rest ih =>
      intro bytes coordinate enough other
      rw [List.length_cons] at enough
      have inside : coordinate / 8 < bytes.size := by omega
      have first : bitOf (if 0 ≤ value then setBit bytes coordinate else bytes).toList other =
          (decide (other = coordinate) && decide (0 ≤ value) || bitOf bytes.toList other) := by
        by_cases sign : 0 ≤ value
        · rw [if_pos sign, bitOf_setBit inside, decide_eq_true sign, Bool.and_true]
        · rw [if_neg sign, decide_eq_false sign, Bool.and_false, Bool.false_or]
      have room : coordinate + 1 + rest.length ≤
          8 * (if 0 ≤ value then setBit bytes coordinate else bytes).size := by
        split
        · rw [size_setBit]
          omega
        · omega
      rw [writeSigns, ih _ _ room, first]
      rcases Nat.lt_trichotomy other coordinate with before | rfl | behind
      · simp [Nat.not_le.mpr before, Nat.ne_of_lt before, Nat.not_le.mpr (Nat.lt_succ_of_lt before)]
      · simp [Bool.or_comm]
      · obtain ⟨gap, rfl⟩ := Nat.exists_eq_add_of_lt behind
        have later : coordinate + gap + 1 - coordinate = gap + 1 := by omega
        have next : coordinate + gap + 1 - (coordinate + 1) = gap := by omega
        have different : coordinate + gap + 1 ≠ coordinate := by omega
        have reached : coordinate + 1 ≤ coordinate + gap + 1 := by omega
        have passed : coordinate ≤ coordinate + gap + 1 := by omega
        simp [later, next, different, reached, passed]

theorem written_eq (row : Embedding) : written row = (ofRow row).bytes := by
  have size : (written row).size = bytesNeeded row.size := by
    rw [written, size_writeSigns, Array.size_replicate]
  apply Array.toList_inj.mp
  refine bytes_ext (size.trans (ofRow row).size_bytes.symm) fun coordinate => ?_
  have room : 0 + row.toList.length ≤
      8 * (Array.replicate (bytesNeeded row.size) (0 : UInt8)).size := by
    rw [Array.size_replicate, bytesNeeded, Array.length_toList]
    omega
  rw [bitOf_ofRow, written, bitOf_writeSigns _ _ _ room, Array.toList_replicate, bitOf_replicate,
    isSet_eq_any]
  simp

/-! Embeddings of bits. -/

def signs (code : SignCode) : Embedding :=
  Array.ofFn fun coordinate : Fin code.dimension =>
    if code.bit coordinate = some true then 1 else -1

theorem size_signs (code : SignCode) : code.signs.size = code.dimension := Array.size_ofFn

theorem isSet_signs (code : SignCode) (coordinate : Nat) :
    isSet code.signs coordinate =
      (decide (coordinate < code.dimension) && bitOf code.bytes.toList coordinate) := by
  by_cases inside : coordinate < code.dimension
  · have present : coordinate < code.signs.size := code.size_signs.symm ▸ inside
    have positive : decide ((0 : Float32) ≤ 1) = true := by decide
    have negative : decide ((0 : Float32) ≤ -1) = false := by decide
    rw [isSet_of_lt present, decide_eq_true inside, Bool.true_and]
    simp only [signs, Array.getElem_ofFn, code.bit_eq_bitOf inside, Option.some.injEq]
    cases bitOf code.bytes.toList coordinate with
    | true => rw [if_pos rfl, positive]
    | false => rw [if_neg Bool.false_ne_true, negative]
  · rw [isSet_of_past (code.size_signs.symm ▸ Nat.not_lt.mp inside), decide_eq_false inside,
      Bool.false_and]

theorem bitOf_ofRow_signs (code : SignCode) (coordinate : Nat) :
    bitOf (ofRow code.signs).bytes.toList coordinate =
      (decide (coordinate < code.dimension) && bitOf code.bytes.toList coordinate) := by
  rw [bitOf_ofRow, isSet_signs]

theorem ofRow_signs {code : SignCode} (owned : code.owned = true)
    (clear : ∀ coordinate, code.dimension ≤ coordinate →
      bitOf code.bytes.toList coordinate = false) : ofRow code.signs = code := by
  refine ext_bits code.size_signs owned.symm fun coordinate => ?_
  rw [bitOf_ofRow_signs]
  by_cases inside : coordinate < code.dimension
  · rw [decide_eq_true inside, Bool.true_and]
  · rw [decide_eq_false inside, Bool.false_and, clear coordinate (Nat.not_lt.mp inside)]

theorem bit_ofRow_signs (code : SignCode) (coordinate : Nat) :
    (ofRow code.signs).bit coordinate = code.bit coordinate := by
  have dimension : (ofRow code.signs).dimension = code.dimension := code.size_signs
  by_cases inside : coordinate < code.dimension
  · rw [bit_eq_bitOf _ (dimension ▸ inside), bitOf_ofRow_signs, decide_eq_true inside,
      Bool.true_and, bit_eq_bitOf _ inside]
  · have past := Nat.not_lt.mp inside
    rw [bit_of_past _ (dimension ▸ past), bit_of_past _ past]

/-! Views of buffers. -/

theorem bytesNeeded_eq_ceil (dimension : Nat) :
    bytesNeeded dimension = ⌈(dimension / 8 : ℚ)⌉₊ := by
  refine eq_of_forall_ge_iff fun bytes => ?_
  rw [Nat.ceil_le, div_le_iff₀ (by norm_num), bytesNeeded]
  norm_cast
  omega

theorem wrap_eq_ok_iff {buffer : Array UInt8} {dimension : Nat} :
    (∃ code, wrap buffer dimension = .ok code) ↔
      0 < dimension ∧ bytesNeeded dimension ≤ buffer.size := by
  unfold wrap
  split
  · simp [*]
  · rename_i positive
    split
    · simp [*, Nat.pos_of_ne_zero positive]
    · simp [*]

theorem eq_of_wrap {buffer : Array UInt8} {dimension : Nat} {code : SignCode}
    (wrapped : wrap buffer dimension = .ok code) :
    0 < dimension ∧ code.dimension = dimension ∧
      code.bytes = buffer.extract 0 (bytesNeeded dimension) := by
  unfold wrap at wrapped
  split at wrapped
  · exact nomatch wrapped
  · rename_i positive
    split at wrapped
    · obtain rfl := Except.ok.inj wrapped
      exact ⟨Nat.pos_of_ne_zero positive, rfl, rfl⟩
    · exact nomatch wrapped

theorem bitOf_extract (buffer : Array UInt8) {dimension coordinate : Nat}
    (inside : coordinate < dimension) :
    bitOf (buffer.extract 0 (bytesNeeded dimension)).toList coordinate =
      bitOf buffer.toList coordinate := by
  have early : coordinate / 8 < bytesNeeded dimension := by
    rw [bytesNeeded]
    omega
  simp [bitOf, early]

/-- The code of an embedding has the sign of each coordinate and no other bit set, and is made again
from the bits of a view of its bytes. A view can be had of a buffer that has a byte for every eight
bits, and there are some; it keeps its bits when it gets bytes of its own, and the code that is made
from its bits has its bytes with the unused bits cleared. -/
theorem quantize_wrap (row : Embedding) (some : 0 < row.size) (buffer : Array UInt8)
    (dimension : Nat) :
    (∃ code, quantize row = .ok code ∧ code.bytes = written row ∧
      code.dimension = row.size ∧ code.bytes.size = bytesNeeded row.size ∧
      (∀ (coordinate : Nat) (inside : coordinate < row.size),
        code.bit coordinate = .some (decide (0 ≤ row[coordinate]))) ∧
      (∀ coordinate, row.size ≤ coordinate →
        code.bit coordinate = none ∧ bitOf code.bytes.toList coordinate = false) ∧
      ∃ view, wrap code.bytes row.size = .ok view ∧
        (∀ coordinate, view.bit coordinate = code.bit coordinate) ∧
        quantize view.signs = .ok code) ∧
    ((∃ code, wrap buffer dimension = .ok code) ↔
      0 < dimension ∧ ⌈(dimension / 8 : ℚ)⌉₊ ≤ buffer.size) ∧
    ∀ code, wrap buffer dimension = .ok code →
      code.dimension = dimension ∧ code.bytes = buffer.extract 0 (bytesNeeded dimension) ∧
      (code.toOwned.dimension = dimension ∧
        ∀ coordinate, code.toOwned.bit coordinate = code.bit coordinate) ∧
      ∃ back, quantize code.signs = .ok back ∧ back.bytes.size = code.bytes.size ∧
        (∀ coordinate, back.bit coordinate = code.bit coordinate) ∧
        ∀ coordinate, bitOf back.bytes.toList coordinate =
          (decide (coordinate < dimension) && bitOf buffer.toList coordinate) := by
  have clear {coordinate : Nat} (past : row.size ≤ coordinate) :
      bitOf (ofRow row).bytes.toList coordinate = false := by
    rw [bitOf_ofRow, isSet_of_past past]
  refine ⟨⟨ofRow row, quantize_of_pos some, (written_eq row).symm, rfl, (ofRow row).size_bytes,
    fun coordinate inside => ?_, fun coordinate past => ⟨bit_of_past _ past, clear past⟩,
    { ofRow row with owned := false }, wrap_bytes (ofRow row) rfl some, fun _ => rfl, ?_⟩,
    ?_, fun code wrapped => ?_⟩
  · rw [bit_ofRow row inside, isSet_of_lt inside]
  · have sized : 0 < (ofRow row).signs.size := (ofRow row).size_signs.symm ▸ some
    exact (quantize_of_pos sized).trans
      (congrArg Except.ok (ofRow_signs rfl fun coordinate => clear))
  · rw [← bytesNeeded_eq_ceil]
    exact wrap_eq_ok_iff
  · obtain ⟨positive, rfl, bytes⟩ := eq_of_wrap wrapped
    have sized : 0 < code.signs.size := code.size_signs.symm ▸ positive
    refine ⟨rfl, bytes, ⟨rfl, fun _ => rfl⟩, ofRow code.signs, quantize_of_pos sized, ?_,
      code.bit_ofRow_signs, fun coordinate => ?_⟩
    · rw [(ofRow code.signs).size_bytes, code.size_bytes]
      exact congrArg bytesNeeded code.size_signs
    · rw [bitOf_ofRow_signs, bytes]
      by_cases inside : coordinate < code.dimension
      · rw [bitOf_extract buffer inside]
      · rw [decide_eq_false inside, Bool.false_and, Bool.false_and]

theorem quantize_wrap_twelve :
    let row : Embedding := #[1, -1, 0, -0, 0 / 0]
    let buffer : Array UInt8 := #[0xff, 0x0f, 0xaa]
    let code : SignCode := ⟨12, #[0xff, 0x0f], false, rfl⟩
    0 < row.size ∧
    (∃ made, quantize row = .ok made ∧ (3 < row.size ∧ made.bit 3 = some true) ∧
      (4 < row.size ∧ made.bit 4 = some false) ∧ row.size ≤ 5 ∧ made.bit 5 = none) ∧
    wrap buffer 12 = .ok code ∧
    ∃ back, quantize code.signs = .ok back ∧ back.bit 7 = code.bit 7 ∧
      bitOf buffer.toList 12 = true ∧ bitOf back.bytes.toList 12 = false := by
  intro row buffer code
  have some : 0 < row.size := by decide
  have wrapped : wrap buffer 12 = .ok code := rfl
  obtain ⟨⟨made, quantized, _, _, _, signs, past, _⟩, _, views⟩ :=
    quantize_wrap row some buffer 12
  obtain ⟨_, _, _, back, again, _, bits, unused⟩ := views code wrapped
  refine ⟨some, ⟨made, quantized, ⟨by decide, ?_⟩, ⟨by decide, ?_⟩, by decide,
    (past 5 (by decide)).1⟩, wrapped, back, again, bits 7, by decide, ?_⟩
  · exact (signs 3 (by decide)).trans (congrArg Option.some (by decide))
  · exact (signs 4 (by decide)).trans (congrArg Option.some (by decide))
  · rw [unused 12]
    rfl

end VectorSearch.SignCode

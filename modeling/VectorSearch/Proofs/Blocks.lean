import Mathlib.Order.Basic
/-!
Blocks of a buffer. Writing over a block leaves every block that does not meet it as it was, and so
does putting a block behind all others.
-/

namespace VectorSearch.Blocks

variable {α : Type}

def splice (buffer : Array α) (start : Nat) (block : Array α) : Array α :=
  buffer.extract 0 start ++ block ++ buffer.extract (start + block.size) buffer.size

theorem getElem?_block (buffer : Array α) {start length : Nat}
    (inside : start + length ≤ buffer.size) (position : Nat) :
    (buffer.extract start (start + length))[position]? =
      if position < length then buffer[start + position]? else none := by
  rw [Array.getElem?_extract]
  by_cases bound : position < length
  · rw [if_pos bound, if_pos (by omega)]
  · rw [if_neg bound, if_neg (by omega)]

theorem block_ext {buffer other : Array α} {start otherStart length : Nat}
    (inside : start + length ≤ buffer.size) (otherInside : otherStart + length ≤ other.size)
    (same : ∀ position < length, buffer[start + position]? = other[otherStart + position]?) :
    buffer.extract start (start + length) = other.extract otherStart (otherStart + length) := by
  apply Array.ext_getElem?
  intro position
  rw [getElem?_block _ inside, getElem?_block _ otherInside]
  by_cases bound : position < length
  · rw [if_pos bound, if_pos bound, same position bound]
  · rw [if_neg bound, if_neg bound]

/-! Slots of one length, side by side. -/

theorem slot_inside {slot count : Nat} (bound : slot < count) (length : Nat) :
    slot * length + length ≤ count * length := by
  rw [← Nat.succ_mul]
  exact Nat.mul_le_mul_right _ bound

theorem slots_apart {slot other : Nat} (different : other ≠ slot) (length : Nat) :
    other * length + length ≤ slot * length ∨ slot * length + length ≤ other * length :=
  (Nat.lt_or_gt_of_ne different).imp (slot_inside · length) (slot_inside · length)

/-! Writing a block. -/

variable {buffer block : Array α} {start other length : Nat}

theorem size_splice (inside : start + block.size ≤ buffer.size) :
    (splice buffer start block).size = buffer.size := by
  simp only [splice, Array.size_append, Array.size_extract]
  omega

theorem getElem?_splice (inside : start + block.size ≤ buffer.size) (position : Nat) :
    (splice buffer start block)[position]? =
      if start ≤ position ∧ position < start + block.size then block[position - start]?
      else buffer[position]? := by
  have front : (buffer.extract 0 start).size = start := by
    rw [Array.size_extract]
    omega
  have middle : (buffer.extract 0 start ++ block).size = start + block.size := by
    rw [Array.size_append, front]
  unfold splice
  by_cases within : position < start + block.size
  · rw [Array.getElem?_append_left (by omega)]
    by_cases before : position < start
    · rw [if_neg (by omega), Array.getElem?_append_left (by omega), Array.getElem?_extract,
        if_pos (by omega), Nat.zero_add]
    · rw [if_pos (by omega), Array.getElem?_append_right (by omega), front]
  · rw [if_neg (by omega), Array.getElem?_append_right (by omega), middle, Array.getElem?_extract]
    by_cases bound : position < buffer.size
    · rw [if_pos (by omega)]
      congr 1
      omega
    · rw [if_neg (by omega), Array.getElem?_eq_none (by omega)]

theorem block_splice (inside : start + block.size ≤ buffer.size) :
    (splice buffer start block).extract start (start + block.size) = block := by
  apply Array.ext_getElem?
  intro position
  rw [getElem?_block _ ((size_splice inside).symm ▸ inside), getElem?_splice inside]
  by_cases bound : position < block.size
  · rw [if_pos bound, if_pos (by omega), Nat.add_sub_cancel_left]
  · rw [if_neg bound, Array.getElem?_eq_none (by omega)]

theorem splice_block (inside : start + length ≤ buffer.size) :
    splice buffer start (buffer.extract start (start + length)) = buffer := by
  have sized : (buffer.extract start (start + length)).size = length := by
    rw [Array.size_extract]
    omega
  apply Array.ext_getElem?
  intro position
  rw [getElem?_splice (sized.symm ▸ inside), sized]
  split
  · rename_i within
    rw [getElem?_block _ inside, if_pos (by omega), Nat.add_sub_cancel' within.1]
  · rfl

theorem splice_append {front old back : Array α} (same : block.size = old.size) :
    splice (front ++ old ++ back) front.size block = front ++ block ++ back := by
  have past : front.extract (front.size + old.size) (front.size + old.size + back.size) = #[] :=
    Array.extract_empty_of_size_le_start (Nat.le_add_right _ _)
  simp only [splice, Array.extract_append, Array.size_append, same]
  simp [past]

theorem block_splice_apart (inside : start + block.size ≤ buffer.size)
    (otherInside : other + length ≤ buffer.size)
    (apart : other + length ≤ start ∨ start + block.size ≤ other) :
    (splice buffer start block).extract other (other + length) =
      buffer.extract other (other + length) := by
  apply block_ext ((size_splice inside).symm ▸ otherInside) otherInside
  intro position bound
  rw [getElem?_splice inside, if_neg (by omega)]

theorem block_append (block : Array α) (otherInside : other + length ≤ buffer.size) :
    (buffer ++ block).extract other (other + length) = buffer.extract other (other + length) := by
  apply block_ext (by rw [Array.size_append]; omega) otherInside
  intro position bound
  rw [Array.getElem?_append_left (by omega)]

theorem block_append_size (buffer block : Array α) :
    (buffer ++ block).extract buffer.size (buffer.size + block.size) = block := by
  rw [Array.extract_append]
  simp

end VectorSearch.Blocks

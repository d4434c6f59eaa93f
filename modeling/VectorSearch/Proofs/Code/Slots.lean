import VectorSearch.Index.Code
import VectorSearch.Proofs.Run
import VectorSearch.Proofs.SignCode.Counting
import VectorSearch.Proofs.Store.Layout
/-!
The slots of the code index. Every stored vector owns one slot and its slot has the code of its
embedding, whatever vectors were stored, replaced or refused.
-/

namespace VectorSearch.CodeIndex

def run (dimension : Nat) (metric : Metric) (settings : CodeSettings)
    (calls : List (VectorId × Embedding)) : CodeIndex :=
  runCalls (fun index call => index.insert call.1 call.2) (empty dimension metric settings) calls

variable {index : CodeIndex}

/-! What an insert does. -/

theorem insert_of_empty {row : Embedding} (none : row.isEmpty = true) (id : VectorId) :
    index.insert id row = .error (.invalidArgument "cannot quantize an empty vector") := by
  rw [insert, SignCode.quantize, if_pos none]
  rfl

theorem insert_of_unfit {row : Embedding} (some : row.isEmpty = false)
    (unfit : row.size ≠ index.store.dimension) (id : VectorId) :
    index.insert id row = .error (.dimensionMismatch index.store.dimension row.size) := by
  rw [insert, SignCode.quantize, if_neg (ne_true_of_eq_false some), Store.upsert,
    Store.checkDimension_eq_error unfit]
  rfl

theorem insert_of_fits {row : Embedding} (some : row.isEmpty = false)
    (fits : row.size = index.store.dimension) (id : VectorId) :
    index.insert id row =
      .ok ({ index with store := index.store.put id row }.putCode id (SignCode.ofRow row)) := by
  rw [insert, SignCode.quantize, if_neg (ne_true_of_eq_false some),
    (Store.upsert_eq_ok_iff index.store id row _).mpr ⟨fits, rfl⟩]
  rfl

theorem insert_eq_ok {after : CodeIndex} {id : VectorId} {row : Embedding}
    (accepted : index.insert id row = .ok after) :
    0 < index.store.dimension ∧ row.size = index.store.dimension ∧
      after = { index with store := index.store.put id row }.putCode id (SignCode.ofRow row) := by
  cases vacant : row.isEmpty with
  | true =>
      rw [insert_of_empty vacant] at accepted
      exact nomatch accepted
  | false =>
      by_cases fits : row.size = index.store.dimension
      · rw [insert_of_fits vacant fits] at accepted
        have positive := Array.size_pos_iff.mpr (Array.isEmpty_eq_false_iff.mp vacant)
        exact ⟨fits ▸ positive, fits, (Except.ok.inj accepted).symm⟩
      · rw [insert_of_unfit vacant fits] at accepted
        exact nomatch accepted

theorem slotBytes_eq (index : CodeIndex) (slot : Nat) :
    index.slotBytes slot =
      index.codes.extract (slot * index.codeSize) (slot * index.codeSize + index.codeSize) := by
  rw [slotBytes, Nat.succ_mul]

theorem putCode_of_known (index : CodeIndex) {id : VectorId} {slot : Nat} {code : SignCode}
    (found : index.slots.get? id = some slot) (sized : code.bytes.size = index.codeSize) :
    index.putCode id code = { index with
      codes := Blocks.splice index.codes (slot * index.codeSize) code.bytes } := by
  rw [putCode, found, Blocks.splice, sized, ← Nat.succ_mul]
  rfl

theorem putCode_of_new (index : CodeIndex) {id : VectorId} (absent : index.slots.get? id = none)
    (code : SignCode) :
    index.putCode id code = { index with
      codes := index.codes ++ code.bytes
      owners := index.owners.push id
      slots := index.slots.insert id index.owners.size } := by
  rw [putCode, absent]

@[simp] theorem store_putCode (index : CodeIndex) (id : VectorId) (code : SignCode) :
    (index.putCode id code).store = index.store := by
  unfold putCode
  split <;> rfl

@[simp] theorem settings_putCode (index : CodeIndex) (id : VectorId) (code : SignCode) :
    (index.putCode id code).settings = index.settings := by
  unfold putCode
  split <;> rfl

/-! The invariant. -/

/-- Slots and owners point at each other, the stored vectors are the owners, and each slot has the
code of its owner's embedding. -/
structure Coded (index : CodeIndex) : Prop where
  packed : index.store.Packed
  full : index.codes.size = index.owners.size * index.codeSize
  owned : ∀ id slot, index.slots.get? id = some slot ↔ index.owners[slot]? = some id
  stored : ∀ id, (index.slots.get? id).isSome = index.store.contains id
  coded : ∀ id slot row, index.slots.get? id = some slot → index.store.get? id = some row →
    index.slotBytes slot = (SignCode.ofRow row).bytes
  proper : ∀ id, index.store.contains id = true → 0 < index.store.dimension

theorem Coded.empty (dimension : Nat) (metric : Metric) (settings : CodeSettings) :
    (empty dimension metric settings).Coded where
  packed := Store.Packed.empty dimension metric
  full := by simp [CodeIndex.empty]
  owned id slot := by simp [CodeIndex.empty]
  stored id := by simp [CodeIndex.empty, Store.empty, Store.contains]
  coded id slot row found := by simp [CodeIndex.empty] at found
  proper id known := by simp [CodeIndex.empty, Store.empty, Store.contains] at known

theorem Coded.exists_row (coded : index.Coded) {id : VectorId} {slot : Nat}
    (found : index.slots.get? id = some slot) :
    ∃ row, index.store.get? id = some row ∧ row.size = index.store.dimension ∧
      index.slotBytes slot = (SignCode.ofRow row).bytes := by
  have known : (index.store.get? id).isSome = true := by
    rw [Store.isSome_get?, ← coded.stored, found]
    rfl
  obtain ⟨row, stored⟩ := Option.isSome_iff_exists.mp known
  exact ⟨row, stored, coded.packed.size_of_get? stored, coded.coded id slot row found stored⟩

theorem Coded.inside (coded : index.Coded) {id : VectorId} {slot : Nat}
    (found : index.slots.get? id = some slot) :
    slot * index.codeSize + index.codeSize ≤ index.codes.size := by
  obtain ⟨bound, _⟩ := Array.getElem?_eq_some_iff.mp ((coded.owned id slot).mp found)
  rw [coded.full]
  exact Blocks.slot_inside bound _

theorem size_ofRow {row : Embedding} (fits : row.size = index.store.dimension) :
    (SignCode.ofRow row).bytes.size = index.codeSize :=
  (SignCode.ofRow row).size_bytes.trans (congrArg bytesNeeded fits)

section

variable {after : CodeIndex} {id : VectorId} {row : Embedding}
  (store : after.store = index.store.put id row)
include store

theorem codeSize_of_put : after.codeSize = index.codeSize := by
  rw [codeSize, store, Store.dimension_put]
  rfl

theorem Coded.proper_of_put (positive : 0 < index.store.dimension) (other : VectorId)
    (_ : after.store.contains other = true) : 0 < after.store.dimension := by
  rw [store, Store.dimension_put]
  exact positive

variable (coded : index.Coded) (positive : 0 < index.store.dimension)
  (fits : row.size = index.store.dimension)
include coded positive fits

theorem Coded.replace {slot : Nat} (found : index.slots.get? id = some slot)
    (codes : after.codes =
      Blocks.splice index.codes (slot * index.codeSize) (SignCode.ofRow row).bytes)
    (owners : after.owners = index.owners) (slots : after.slots = index.slots) : after.Coded := by
  have width := codeSize_of_put store
  have sized := size_ofRow fits
  have inside := coded.inside found
  rw [← sized] at inside
  refine ⟨store ▸ coded.packed.put fits, ?_, ?_, ?_, ?_, Coded.proper_of_put store positive⟩
  · rw [codes, owners, width, Blocks.size_splice (sized ▸ inside), coded.full]
  · rw [owners, slots]
    exact coded.owned
  · intro other
    rw [slots, store, coded.stored, Bool.eq_iff_iff, Store.contains_put, iff_or_self]
    rintro rfl
    rw [← coded.stored, found]
    rfl
  · intro other otherSlot otherRow otherFound kept
    rw [slots] at otherFound
    rw [store, coded.packed.get?_put fits] at kept
    rw [slotBytes_eq, width, codes]
    by_cases same : other = id
    · subst same
      rw [if_pos rfl] at kept
      cases kept
      cases found.symm.trans otherFound
      rw [← sized]
      exact Blocks.block_splice inside
    · rw [if_neg same] at kept
      have different : otherSlot ≠ slot := by
        rintro rfl
        have owner := (coded.owned id otherSlot).mp found
        rw [(coded.owned other otherSlot).mp otherFound] at owner
        exact same (Option.some.inj owner)
      rw [Blocks.block_splice_apart (sized ▸ inside) (coded.inside otherFound)
        (sized ▸ Blocks.slots_apart different index.codeSize), ← slotBytes_eq]
      exact coded.coded other otherSlot otherRow otherFound kept

theorem Coded.append (absent : index.slots.get? id = none)
    (codes : after.codes = index.codes ++ (SignCode.ofRow row).bytes)
    (owners : after.owners = index.owners.push id)
    (slots : after.slots = index.slots.insert id index.owners.size) : after.Coded := by
  have width := codeSize_of_put store
  have sized := size_ofRow fits
  refine ⟨store ▸ coded.packed.put fits, ?_, ?_, ?_, ?_, Coded.proper_of_put store positive⟩
  · rw [codes, owners, width, Array.size_append, Array.size_push, coded.full, sized, Nat.succ_mul]
  · intro other slot
    have unowned : index.owners[slot]? ≠ some id := by
      rw [Ne, ← coded.owned, absent]
      exact (Option.some_ne_none slot).symm
    rw [owners, slots, get?_insert, Array.getElem?_push]
    by_cases last : slot = index.owners.size <;> by_cases same : id = other
    · simp [last, same]
    · have free : index.slots.get? other ≠ some index.owners.size := by
        rw [Ne, coded.owned, Array.getElem?_eq_none (Nat.le_refl _)]
        exact (Option.some_ne_none other).symm
      simpa [last, same] using free
    · simp [Ne.symm last, last, ← same, unowned]
    · simp only [last, same, if_false, coded.owned]
  · intro other
    rw [slots, store, get?_insert, Bool.eq_iff_iff, Store.contains_put, ← coded.stored]
    by_cases same : id = other
    · simp [same]
    · simp [same, Ne.symm same]
  · intro other slot otherRow found kept
    rw [slots, get?_insert] at found
    rw [store, coded.packed.get?_put fits] at kept
    rw [slotBytes_eq, width, codes]
    by_cases same : other = id
    · subst same
      rw [if_pos rfl] at kept found
      cases kept
      cases found
      rw [← coded.full, ← sized]
      exact Blocks.block_append_size _ _
    · rw [if_neg same] at kept
      rw [if_neg (Ne.symm same)] at found
      rw [Blocks.block_append _ (coded.inside found), ← slotBytes_eq]
      exact coded.coded other slot otherRow found kept

end

theorem Coded.insert {after : CodeIndex} (coded : index.Coded) {id : VectorId} {row : Embedding}
    (accepted : index.insert id row = .ok after) : after.Coded := by
  obtain ⟨positive, fits, rfl⟩ := insert_eq_ok accepted
  have width := @codeSize_of_put index { index with store := index.store.put id row } id row rfl
  cases found : index.slots.get? id with
  | some slot =>
      rw [putCode_of_known { index with store := index.store.put id row } found
        ((size_ofRow fits).trans width.symm), width]
      exact Coded.replace rfl coded positive fits found rfl rfl rfl
  | none =>
      rw [putCode_of_new { index with store := index.store.put id row } found]
      exact Coded.append rfl coded positive fits found rfl rfl rfl

theorem coded_run (dimension : Nat) (metric : Metric) (settings : CodeSettings)
    (calls : List (VectorId × Embedding)) :
    (run dimension metric settings calls).Coded :=
  runCalls_induction _ Coded (fun _ _ _ coded accepted => coded.insert accepted) calls _
    (Coded.empty dimension metric settings)

end VectorSearch.CodeIndex

import VectorSearch.Checked.Code
import VectorSearch.Proofs.Checked.Access
import VectorSearch.Proofs.Code.Candidates
import VectorSearch.Proofs.SignCode.Distance
/-!
Calls of a code index without a fault. Every slot lies within the codes, one behind the other; a
search reads them only when a vector is stored, and then codes have at least one byte and neither
the code of the query nor one of the stored codes is refused.
-/

namespace VectorSearch.CodeIndex

variable {index : CodeIndex}

theorem Coded.slice_slot (coded : index.Coded) {id : VectorId} {slot : Nat}
    (found : index.slots.get? id = some slot) :
    Checked.slice index.codes (slot * index.codeSize) ((slot + 1) * index.codeSize) =
      .ok (index.slotBytes slot) := by
  rw [slotBytes, Nat.succ_mul]
  exact Checked.slice_ok (coded.inside found)

theorem Coded.codeChecked_ok (coded : index.Coded) (id : VectorId) :
    index.codeChecked id = .ok (index.code? id) := by
  rw [codeChecked, code?]
  cases found : index.slots.get? id with
  | none => rfl
  | some slot =>
      dsimp only
      rw [coded.slice_slot found]
      rfl

/-! Inserts. -/

theorem Coded.putCodeChecked_ok (coded : index.Coded) (id : VectorId) {row : Embedding}
    (fits : row.size = index.store.dimension) :
    let stored := { index with store := index.store.put id row }
    stored.putCodeChecked id (SignCode.ofRow row) =
      .ok (stored.putCode id (SignCode.ofRow row)) := by
  intro stored
  have width : stored.codeSize = index.codeSize := codeSize_of_put rfl
  have sized : (SignCode.ofRow row).bytes.size = stored.codeSize :=
    (size_ofRow fits).trans width.symm
  cases found : stored.slots.get? id with
  | none =>
      rw [putCodeChecked, found, putCode_of_new stored found]
      rfl
  | some slot =>
      have inside := coded.inside found
      rw [← width, ← sized] at inside
      rw [putCodeChecked, found, putCode_of_known stored found sized]
      dsimp only
      rw [Nat.succ_mul, ← sized, Checked.overwrite_ok inside]
      rfl

theorem Coded.insertChecked_ok (coded : index.Coded) (id : VectorId) (row : Embedding) :
    index.insertChecked id row = .ok (index.insert id row) := by
  refine Checked.after_ok fun code quantized => ?_
  obtain rfl := SignCode.quantize_eq_ok quantized
  rw [coded.packed.upsertChecked, Checked.ok_bind]
  refine Checked.after_ok fun store accepted => ?_
  obtain ⟨fits, rfl⟩ := (Store.upsert_eq_ok_iff index.store id row store).mp accepted
  rw [coded.putCodeChecked_ok id fits]
  rfl

/-! Searches. -/

theorem Coded.pieces_ok (coded : index.Coded) (positive : 0 < index.store.dimension) :
    Checked.pieces index.codes index.codeSize =
      .ok ((List.range index.owners.size).map index.slotBytes) := by
  have width : 0 < index.codeSize := by
    unfold codeSize bytesNeeded
    omega
  rw [Checked.pieces_ok width, coded.full, Nat.mul_div_cancel _ width]
  rfl

theorem Coded.distancesChecked_ok (coded : index.Coded) (positive : 0 < index.store.dimension)
    {query : Embedding} (fits : query.size = index.store.dimension) :
    index.distancesChecked query = .ok (index.signDistances query) := by
  have each (entry : Array UInt8 × VectorId) (member : entry ∈
      ((List.range index.owners.size).map index.slotBytes).zip index.owners.toList) :
      (do
        let other ← Checked.rely (SignCode.wrap entry.1 index.store.dimension)
        return (← Checked.rely ((SignCode.ofRow query).hammingWide other), entry.2)) =
      (.ok (index.store.signDistance query entry.2, entry.2) : Checked (Nat × VectorId)) := by
    obtain ⟨slot, bound, same⟩ := List.mem_iff_getElem.mp member
    rw [List.getElem_zip, List.getElem_map, List.getElem_range] at same
    subst same
    obtain ⟨code, wrapped, counted⟩ := coded.distance_ok positive fits
      (Array.getElem?_toList.symm.trans (List.getElem?_eq_getElem _))
    dsimp only
    rw [wrapped, Checked.rely, Checked.ok_bind, counted]
    rfl
  rw [distancesChecked, SignCode.quantize_of_pos (fits ▸ positive), Checked.rely, Checked.ok_bind,
    coded.pieces_ok positive, Checked.ok_bind]
  refine (mapM_ok each).trans (congrArg Except.ok ?_)
  have owners : (((List.range index.owners.size).map index.slotBytes).zip
      index.owners.toList).map Prod.snd = index.owners.toList := List.map_snd_zip (by simp)
  conv => rhs; rw [signDistances, ← owners, List.map_map]
  rfl

theorem Coded.searchChecked_ok [Host] (coded : index.Coded) (query : Embedding) (count : Nat)
    (knobs : Knobs) :
    index.searchChecked query count knobs = .ok (index.search query count knobs) := by
  by_cases fits : query.size = index.store.dimension
  · have accepted := (Store.checkDimension_eq_ok_iff index.store query).mpr fits
    rw [coded.search_of_fits fits, searchChecked, accepted, Checked.after]
    by_cases idle : (count = 0 || index.store.isEmpty) = true
    · rw [if_pos idle, Store.rank_hitsOf_of_idle idle]
      rfl
    · have some : index.store.isEmpty = false := by
        rw [Bool.or_eq_true, not_or] at idle
        exact Bool.eq_false_iff.mpr idle.2
      rw [if_neg idle, coded.distancesChecked_ok (coded.positive some) fits, Checked.ok_bind]
      dsimp only
      rw [coded.packed.hitsOfChecked]
      rfl
  · rw [search_of_unfit fits, searchChecked, Store.checkDimension_eq_error fits]
    rfl

end VectorSearch.CodeIndex

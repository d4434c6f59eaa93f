import VectorSearch.Proofs.Code.Candidates
import VectorSearch.Proofs.Exact
/-!
What a code index keeps after any inserts: each stored vector once among the owners of the slots,
at the place that its slot tells, and in this slot the code of the embedding last accepted for it.
-/

namespace VectorSearch.CodeIndex

variable {index : CodeIndex}

theorem Coded.code?_eq (coded : index.Coded) (id : VectorId) :
    index.code? id = (index.store.get? id).map fun row => (SignCode.ofRow row).bytes := by
  cases found : index.slots.get? id with
  | none =>
      have absent : index.store.get? id = none := by
        rw [← Option.not_isSome_iff_eq_none, Store.isSome_get?, ← coded.stored, found]
        exact Bool.false_ne_true
      rw [code?, found, absent, Option.map_none, Option.map_none]
  | some slot =>
      obtain ⟨row, stored, _, bytes⟩ := coded.exists_row found
      rw [code?, found, stored, Option.map_some, Option.map_some, bytes]

theorem Coded.quantize_eq (coded : index.Coded) {id : VectorId} {row : Embedding}
    (stored : index.store.get? id = some row) :
    SignCode.quantize row = .ok (SignCode.ofRow row) := by
  have known : index.store.contains id = true := by
    rw [← Store.isSome_get?, stored]
    rfl
  exact SignCode.quantize_of_pos (coded.packed.size_of_get? stored ▸ coded.proper id known)

theorem get?_run (dimension : Nat) (metric : Metric) (settings : CodeSettings)
    (calls : List (VectorId × Embedding)) (id : VectorId) :
    (run dimension metric settings calls).store.get? id =
      if 0 < dimension then FlatIndex.latest dimension calls id else none := by
  split
  · rename_i positive
    rw [store_run positive]
    exact (FlatIndex.get?_run dimension metric calls).2.2 id
  · rename_i none
    rw [← Option.not_isSome_iff_eq_none, Store.isSome_get?]
    intro known
    have positive := (coded_run dimension metric settings calls).proper id known
    rw [(settings_run dimension metric settings calls).2] at positive
    exact none positive

/-- After any inserts the owners of the slots are the stored vectors, each of them once and at the
place of its own slot; the codes have the bytes of one code for each slot; and a vector has a code
exactly when it is stored, that of its embedding, which is the one last accepted for it. -/
theorem run_codes (dimension : Nat) (metric : Metric) (settings : CodeSettings)
    (calls : List (VectorId × Embedding)) :
    let index := run dimension metric settings calls
    index.owners.toList.Nodup ∧
    (∀ id, id ∈ index.owners ↔ index.store.contains id = true) ∧
    (∀ id slot, index.slots.get? id = some slot ↔ index.owners[slot]? = some id) ∧
    index.codes.size = index.owners.size * bytesNeeded dimension ∧
    (∀ id, (index.code? id).isSome = (index.store.get? id).isSome) ∧
    (∀ id row, index.store.get? id = some row →
      ∃ code, SignCode.quantize row = .ok code ∧ index.code? id = some code.bytes) ∧
    ∀ id, index.store.get? id =
      if 0 < dimension then FlatIndex.latest dimension calls id else none := by
  intro index
  have coded : index.Coded := coded_run dimension metric settings calls
  have width : index.codeSize = bytesNeeded dimension :=
    congrArg bytesNeeded (settings_run dimension metric settings calls).2
  refine ⟨coded.nodup_owners, fun id => ?_, coded.owned, width ▸ coded.full, fun id => ?_,
    fun id row stored => ⟨_, coded.quantize_eq stored, ?_⟩,
    get?_run dimension metric settings calls⟩
  · rw [← Array.mem_toList_iff]
    exact coded.mem_owners id
  · rw [coded.code?_eq, Option.isSome_map]
  · rw [coded.code?_eq, stored, Option.map_some]

theorem run_codes_two :
    let calls : List (VectorId × Embedding) :=
      [(7, #[1, 1, 1, 1, 1, 1, 1, 1, 1]), (2, #[0, 0, 0, 0, 0, 0, 0, 0, -1]), (7, #[1]),
        (7, #[-1, 2, 2, 2, 2, 2, 2, 2, 2])]
    let index := run 9 .dotProduct {} calls
    let row : Embedding := #[-1, 2, 2, 2, 2, 2, 2, 2, 2]
    index.slots.get? 2 = some 1 ∧ index.owners[1]? = some 2 ∧ index.codes.size = 2 * 2 ∧
    index.store.get? 7 = some row ∧ index.code? 7 = some #[0x7F, 0x80] ∧
    ∃ code, SignCode.quantize row = .ok code ∧ index.code? 7 = some code.bytes := by
  intro calls index row
  obtain ⟨_, _, slots, size, _, codes, last⟩ := run_codes 9 .dotProduct {} calls
  have owner : index.owners[1]? = some 2 := by decide +kernel
  have stored : index.store.get? 7 = some row := by rw [last]; rfl
  exact ⟨(slots 2 1).mpr owner, owner, size, stored, by decide +kernel, codes 7 row stored⟩

end VectorSearch.CodeIndex

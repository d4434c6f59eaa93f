import VectorSearch.Checked.Access
import VectorSearch.Proofs.Run
import VectorSearch.Proofs.Store.Hits
import VectorSearch.Proofs.Store.Layout
/-!
Accesses without a fault. Each checked access does what the unchecked one does where the buffer has
the part that is asked for; a packed store has the part of every vector in it.
-/

namespace VectorSearch

namespace Checked

variable {α β σ : Type} {buffer block : Array α} {start length width : Nat}

@[simp] theorem ok_bind (value : α) (next : α → Checked β) :
    (Except.ok value : Checked α) >>= next = next value := rfl

theorem slice_ok (inside : start + length ≤ buffer.size) :
    slice buffer start (start + length) = .ok (buffer.extract start (start + length)) :=
  if_pos ⟨Nat.le_add_right _ _, inside⟩

theorem slice_all (buffer : Array α) : slice buffer 0 buffer.size = .ok buffer := by
  rw [slice, if_pos ⟨Nat.zero_le _, le_rfl⟩, Array.extract_size]

theorem item_ok {position : Nat} {found : α} (stored : buffer[position]? = some found) :
    item buffer position = .ok found := by
  rw [item, stored]

theorem change_ok {position : Nat} (inside : position < buffer.size) (make : α → α) :
    change buffer position make = .ok (buffer.modify position make) := by
  rw [change, item_ok (Array.getElem?_eq_getElem inside)]
  rfl

theorem overwrite_ok (inside : start + block.size ≤ buffer.size) :
    overwrite buffer start (start + block.size) block = .ok (Blocks.splice buffer start block) := by
  have whole : block.size = (buffer.extract start (start + block.size)).size := by
    rw [Array.size_extract]
    omega
  rw [overwrite, slice_ok inside, ok_bind, if_pos whole]
  rfl

theorem pieces_ok (positive : 0 < width) :
    pieces buffer width = .ok ((List.range (buffer.size / width)).map fun number =>
      buffer.extract (number * width) ((number + 1) * width)) :=
  if_neg positive.ne'

theorem position_ok (draws : DrawSource σ) {bound : Nat} (positive : 0 < bound) (state : σ) :
    position draws bound state =
      .ok ((draws.position bound positive state).1.val,
        (draws.position bound positive state).2) :=
  dif_pos positive

theorem after_ok {outcome : Except Failure α} {next : α → Checked (Except Failure β)}
    {plain : α → Except Failure β}
    (each : ∀ value, outcome = .ok value → next value = .ok (plain value)) :
    after outcome next = .ok (outcome >>= plain) := by
  cases outcome with
  | ok value => exact each value rfl
  | error failure => rfl

end Checked

namespace Store

variable {store : Store}

theorem Packed.getChecked (packed : store.Packed) (id : VectorId) :
    store.getChecked id = .ok (store.get? id) := by
  rw [Store.getChecked, get?]
  cases found : store.offsets.get? id with
  | none => rfl
  | some offset =>
      dsimp only
      rw [Checked.slice_ok (packed.inside found)]
      rfl

theorem Packed.entriesChecked (packed : store.Packed) :
    store.entriesChecked = .ok store.entries := by
  refine mapM_ok fun (id, offset) member => ?_
  dsimp only
  rw [Checked.slice_ok (packed.inside (get?_of_mem_toList member))]
  rfl

theorem Packed.putChecked (packed : store.Packed) (id : VectorId) {row : Embedding}
    (fits : row.size = store.dimension) : store.putChecked id row = .ok (store.put id row) := by
  rw [Store.putChecked, Store.put]
  cases found : store.offsets.get? id with
  | none => rfl
  | some offset =>
      dsimp only
      rw [← fits, Checked.overwrite_ok (fits ▸ packed.inside found)]
      rfl

theorem Packed.upsertChecked (packed : store.Packed) (id : VectorId) (row : Embedding) :
    store.upsertChecked id row = .ok (store.upsert id row) := by
  refine Checked.after_ok fun _ accepted => ?_
  rw [packed.putChecked id ((checkDimension_eq_ok_iff store row).mp accepted)]
  rfl

theorem Packed.scoreChecked (packed : store.Packed) (query : Embedding) (id : VectorId) :
    store.scoreChecked query id = .ok (store.score query id) := by
  rw [Store.scoreChecked, packed.getChecked]
  rfl

theorem Packed.hitsOfChecked (packed : store.Packed) (query : Embedding) (ids : List VectorId) :
    store.hitsOfChecked query ids = .ok (store.hitsOf query ids) := by
  have each := @mapM_ok _ _ _ _ _ ids fun id _ =>
    show (do return (← store.scoreChecked query id).map (Hit.mk id)) = _ by
      rw [packed.scoreChecked]
      rfl
  rw [Store.hitsOfChecked, each, Checked.ok_bind, hitsOf]
  exact congrArg Except.ok (List.filterMap_map ..)

theorem rank_hitsOf_of_idle [Host] {count : Nat} (idle : (count = 0 || store.isEmpty) = true)
    (query : Embedding) (ids : List VectorId) : Hit.rank (store.hitsOf query ids) count = [] := by
  rw [Bool.or_eq_true, decide_eq_true_eq] at idle
  rcases idle with rfl | empty
  · exact List.take_zero
  · have none : store.hitsOf query ids = [] :=
      List.filterMap_eq_nil_iff.mpr fun id _ => by
        have absent := (isSome_score store query id).trans ((isEmpty_iff store).mp empty id)
        rw [Option.isSome_eq_false_iff, Option.isNone_iff_eq_none] at absent
        rw [absent]
        rfl
    rw [none]
    exact Hit.rank_nil count

end Store

namespace FlatIndex

variable {index : FlatIndex}

theorem insertChecked_ok (packed : index.store.Packed) (id : VectorId) (row : Embedding) :
    index.insertChecked id row = .ok (index.insert id row) := by
  rw [insertChecked, packed.upsertChecked, Checked.ok_bind]
  exact Checked.after_ok fun _ _ => rfl

theorem searchChecked_ok [Host] (packed : index.store.Packed) (query : Embedding) (count : Nat) :
    index.searchChecked query count = .ok (index.search query count) := by
  simp only [search, found, bind_assoc, pure_bind]
  refine Checked.after_ok fun _ _ => ?_
  by_cases idle : (count = 0 || index.store.isEmpty) = true
  · rw [if_pos idle, Store.hits_eq_hitsOf, Store.rank_hitsOf_of_idle idle]
    rfl
  · rw [if_neg idle, packed.entriesChecked]
    rfl

end FlatIndex

end VectorSearch

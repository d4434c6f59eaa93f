import VectorSearch.Proofs.Blocks
import VectorSearch.Proofs.Store
/-!
The layout of the store. Every stored vector has a block of the buffer to itself, and the blocks
fill the buffer; so storing one vector leaves all others as they were.
-/

namespace VectorSearch

theorem Embedding.size_rowAt {buffer : Array Float32} {dimension offset : Nat}
    (inside : offset + dimension ≤ buffer.size) :
    (rowAt buffer dimension offset).size = dimension := by
  simp only [rowAt, Array.size_extract]
  omega

namespace Store

/-- The blocks of the stored vectors lie side by side and fill the buffer. -/
structure Packed (store : Store) : Prop where
  full : store.data.size = store.size * store.dimension
  block : ∀ id offset, store.offsets.get? id = some offset →
    ∃ slot < store.size, offset = slot * store.dimension
  apart : ∀ id other offset, store.offsets.get? id = some offset →
    store.offsets.get? other = some offset → 0 < store.dimension → id = other

theorem Packed.empty (dimension : Nat) (metric : Metric) : (empty dimension metric).Packed where
  full := by simp [Store.empty, size]
  block id offset found := by simp [Store.empty] at found
  apart id other offset found := by simp [Store.empty] at found

variable {store : Store}

theorem Packed.inside (packed : store.Packed) {id : VectorId} {offset : Nat}
    (found : store.offsets.get? id = some offset) :
    offset + store.dimension ≤ store.data.size := by
  obtain ⟨slot, bound, rfl⟩ := packed.block id offset found
  rw [packed.full]
  exact Blocks.slot_inside bound _

theorem Packed.size_of_get? (packed : store.Packed) {id : VectorId} {row : Embedding}
    (found : store.get? id = some row) : row.size = store.dimension := by
  obtain ⟨offset, place, rfl⟩ := Option.map_eq_some_iff.mp found
  exact Embedding.size_rowAt (packed.inside place)

theorem Packed.disjoint (packed : store.Packed) {id other : VectorId} {offset otherOffset : Nat}
    (found : store.offsets.get? id = some offset)
    (otherFound : store.offsets.get? other = some otherOffset) (different : other ≠ id) :
    otherOffset + store.dimension ≤ offset ∨ offset + store.dimension ≤ otherOffset := by
  rcases Nat.eq_zero_or_pos store.dimension with zero | positive
  · obtain ⟨slot, _, rfl⟩ := packed.block id offset found
    obtain ⟨otherSlot, _, rfl⟩ := packed.block other otherOffset otherFound
    simp [zero]
  · obtain ⟨slot, _, rfl⟩ := packed.block id offset found
    obtain ⟨otherSlot, _, rfl⟩ := packed.block other otherOffset otherFound
    refine Blocks.slots_apart (fun same => ?_) _
    subst same
    exact different (packed.apart other id _ otherFound found positive)

/-! Storing a vector. -/

theorem put_of_known {id : VectorId} {offset : Nat} (found : store.offsets.get? id = some offset)
    (row : Embedding) :
    store.put id row = { store with data := Blocks.splice store.data offset row } := by
  unfold put
  rw [found]
  rfl

theorem put_of_new {id : VectorId} (absent : store.offsets.get? id = none) (row : Embedding) :
    store.put id row = { store with
      data := store.data ++ row, offsets := store.offsets.insert id store.data.size } := by
  unfold put
  rw [absent]

theorem size_put_of_new {id : VectorId} (absent : store.contains id = false) (row : Embedding) :
    (store.put id row).size = store.size + 1 := by
  have missing : ¬ store.offsets.contains id = true := ne_true_of_eq_false absent
  rw [put_of_new (Std.TreeMap.getElem?_eq_none_of_contains_eq_false absent), size,
    Std.TreeMap.size_insert, if_neg missing]
  rfl

theorem size_put_of_known {id : VectorId} (known : store.contains id = true) (row : Embedding) :
    (store.put id row).size = store.size := by
  rw [contains, Std.TreeMap.contains_eq_isSome_getElem?, ← Std.TreeMap.get?_eq_getElem?] at known
  obtain ⟨offset, found⟩ := Option.isSome_iff_exists.mp known
  rw [put_of_known found]
  rfl

theorem Packed.put (packed : store.Packed) {id : VectorId} {row : Embedding}
    (fits : row.size = store.dimension) : (store.put id row).Packed := by
  cases found : store.offsets.get? id with
  | some offset =>
      rw [put_of_known found]
      refine ⟨?_, packed.block, packed.apart⟩
      exact (Blocks.size_splice (fits ▸ packed.inside found)).trans packed.full
  | none =>
      have absent : store.contains id = false := by
        rw [contains, Std.TreeMap.contains_eq_isSome_getElem?, ← Std.TreeMap.get?_eq_getElem?,
          found]
        rfl
      have size := size_put_of_new absent row
      have behind {other : VectorId} (old : store.offsets.get? other = some store.data.size) :
          store.dimension = 0 := by
        have bound := packed.inside old
        omega
      rw [put_of_new found] at size ⊢
      refine ⟨?_, ?_, ?_⟩
      · rw [size, Array.size_append, packed.full, fits, Nat.succ_mul]
      · intro other offset place
        rw [size]
        rw [get?_insert] at place
        split at place
        · exact ⟨store.size, Nat.lt_succ_self _, by rw [← Option.some.inj place, packed.full]⟩
        · obtain ⟨slot, bound, same⟩ := packed.block other offset place
          exact ⟨slot, Nat.lt_succ_of_lt bound, same⟩
      · intro first second offset one two positive
        rw [get?_insert] at one two
        split at one <;> split at two
        · rename_i same otherSame
          rw [← same, otherSame]
        · exact absurd (behind (Option.some.inj one ▸ two)) (Nat.ne_of_gt positive)
        · exact absurd (behind (Option.some.inj two ▸ one)) (Nat.ne_of_gt positive)
        · exact packed.apart first second offset one two positive

theorem Packed.get?_put (packed : store.Packed) {id : VectorId} {row : Embedding}
    (fits : row.size = store.dimension) (other : VectorId) :
    (store.put id row).get? other = if other = id then some row else store.get? other := by
  cases found : store.offsets.get? id with
  | some offset =>
      have inside : offset + row.size ≤ store.data.size := fits ▸ packed.inside found
      rw [put_of_known found, get?, get?]
      dsimp only
      by_cases same : other = id
      · subst same
        rw [if_pos rfl, found, Option.map_some, ← fits]
        exact congrArg some (Blocks.block_splice inside)
      · rw [if_neg same]
        cases place : store.offsets.get? other with
        | none => rfl
        | some otherOffset =>
            refine congrArg some (Blocks.block_splice_apart inside (packed.inside place) ?_)
            exact fits ▸ packed.disjoint found place same
  | none =>
      rw [put_of_new found, get?, get?]
      dsimp only
      rw [get?_insert]
      by_cases same : other = id
      · rw [if_pos same, if_pos same.symm, Option.map_some, ← fits]
        exact congrArg some (Blocks.block_append_size store.data row)
      · rw [if_neg same, if_neg (Ne.symm same)]
        cases place : store.offsets.get? other with
        | none => rfl
        | some otherOffset =>
            exact congrArg some (Blocks.block_append row (packed.inside place))

theorem Packed.get?_put_of_new (packed : store.Packed) {id : VectorId} {row : Embedding}
    (fits : row.size = store.dimension) (fresh : store.contains id = false) {other : VectorId}
    (old : store.contains other = true) : (store.put id row).get? other = store.get? other := by
  rw [packed.get?_put fits, if_neg]
  rintro rfl
  exact absurd (fresh.symm.trans old) Bool.false_ne_true

end Store

end VectorSearch

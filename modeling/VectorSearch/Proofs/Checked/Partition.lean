import VectorSearch.Proofs.Checked.Centroids
import VectorSearch.Proofs.Partition.Probes
/-!
Calls of a partition index without a fault. Training leaves one list for each centroid and gives
every centroid the dimension of the store; with dimension zero it is refused, so that no centroid
is ever looked for where vectors have no coordinates.
-/

namespace VectorSearch.PartitionIndex

open VectorSearch.Embedding (join)

variable {index after : PartitionIndex} {recent : Finset VectorId}

structure Centered (index : PartitionIndex) : Prop where
  sized : ∀ centroid ∈ index.centroids, centroid.size = index.store.dimension
  wide : 0 < index.lists.size → 0 < index.store.dimension

theorem Centered.empty (dimension : Nat) (metric : Metric) (settings : PartitionSettings) :
    (PartitionIndex.empty dimension metric settings).Centered where
  sized _ member := absurd member List.not_mem_nil
  wide some := absurd some (Nat.not_lt_zero 0)

/-! Training. -/

theorem positive_of_whole {size dimension : Nat}
    (whole : ¬ (dimension = 0 || size % dimension ≠ 0) = true) : 0 < dimension := by
  simp only [Bool.or_eq_true, decide_eq_true_iff, not_or] at whole
  exact Nat.pos_of_ne_zero whole.1

theorem trainChecked_ok [Host] (index : PartitionIndex) (buffer : Array Float32) :
    index.trainChecked buffer = .ok (index.train buffer) := by
  unfold trainChecked train trainWith
  dsimp only
  split
  · rfl
  · rename_i whole
    have positive := positive_of_whole whole
    generalize rowsEq : (Embedding.rows buffer index.store.dimension
      (buffer.size / index.store.dimension)).toArray = rows
    have size : rows.size = buffer.size / index.store.dimension := by
      rw [← rowsEq, List.size_toArray, Embedding.length_rows]
    have wide : ∀ row ∈ rows, row.size = index.store.dimension :=
      rowsEq ▸ Embedding.size_of_mem_all_rows
    rw [KMeans.trainChecked_ok _ positive (partitionCount_le ..), Checked.ok_bind, rowsEq, ← size]
    generalize trainedEq : KMeans.train _ _ rows _ _ _ = trained
    have again := Embedding.rows_join (trainedEq ▸ KMeans.size_of_mem_train _ wide _ _ _)
    rw [← trainedEq, KMeans.length_train _ _ _ _ _ _ (partitionCount_le ..), trainedEq] at again
    rw [again]
    rfl

theorem Centered.train [Host] {buffer : Array Float32} (accepted : index.train buffer = .ok after) :
    after.Centered := by
  unfold PartitionIndex.train trainWith at accepted
  dsimp only at accepted
  split at accepted
  · cases accepted
  · rename_i whole
    cases accepted
    exact ⟨KMeans.size_of_mem_train _ Embedding.size_of_mem_all_rows _ _ _,
      fun _ => positive_of_whole whole⟩

/-! Inserts. -/

theorem Listed.unlistChecked_ok (listed : index.Listed recent) (id : VectorId) :
    index.unlistChecked id = .ok (index.unlist id) := by
  rw [unlistChecked, unlist]
  cases found : index.assignment.get? id with
  | none => rfl
  | some previous => exact Checked.change_ok (listed.inside id previous found) _

theorem Centered.insertChecked_ok (centered : index.Centered) (listed : index.Listed recent)
    (packed : index.store.Packed) (id : VectorId) (row : Embedding) :
    index.insertChecked id row = .ok (index.insert id row) := by
  rw [insertChecked, insert]
  split
  · rfl
  · rename_i trained
    have some : 0 < index.lists.size := by
      rwa [Array.isEmpty_iff_size_eq_zero, ← ne_eq, ← Nat.pos_iff_ne_zero] at trained
    have bound : Centroids.nearest index.centroids row < (index.unlist id).size := by
      rw [size_unlist, ← listed.aligned]
      exact Centroids.nearest_lt _ _ (listed.aligned ▸ some)
    rw [packed.upsertChecked, Checked.ok_bind]
    refine Checked.after_ok fun store _ => ?_
    rw [KMeans.nearestChecked_ok (centered.wide some) centered.sized, Checked.ok_bind,
      listed.unlistChecked_ok, Checked.ok_bind, Checked.change_ok bound]
    rfl

theorem Centered.insert (centered : index.Centered) {id : VectorId} {row : Embedding}
    (accepted : index.insert id row = .ok after) : after.Centered := by
  obtain ⟨some, _, rfl⟩ := insert_eq_ok accepted
  have dimension := Store.dimension_put index.store id row
  exact ⟨fun centroid member => (centered.sized centroid member).trans dimension.symm,
    fun _ => dimension ▸ centered.wide some⟩

/-! Searches. -/

theorem Centered.probeOrderChecked_ok [Host] (centered : index.Centered)
    (listed : index.Listed recent) (query : Embedding) :
    index.probeOrderChecked query = .ok (Centroids.probeOrder index.centroids query) := by
  have each (number : Nat) (member : number ∈ List.range index.centroids.length) :
      (do
        let centroid ← Checked.slice (join index.centroids) (number * index.store.dimension)
          ((number + 1) * index.store.dimension)
        return Reach.mk number (squaredDistance query centroid)) =
      (.ok (Centroids.reach index.centroids query number) : Checked Reach) := by
    have found := List.getElem?_eq_getElem (List.mem_range.mp member)
    rw [Embedding.slice_join centered.sized found, Checked.ok_bind, Centroids.reach,
      Centroids.distance, found]
    rfl
  rw [probeOrderChecked, ← listed.aligned, mapM_ok each, ← Centroids.reaches_eq]
  rfl

theorem Centered.searchChecked_ok [Host] (centered : index.Centered) (listed : index.Listed recent)
    (packed : index.store.Packed) (query : Embedding) (count : Nat) (knobs : Knobs) :
    index.searchChecked query count knobs = .ok (index.search query count knobs) := by
  simp only [search, found, bind_assoc, pure_bind]
  refine Checked.after_ok fun _ _ => ?_
  by_cases idle : (count = 0 || index.store.isEmpty) = true
  · have none := Store.rank_hitsOf_of_idle idle query (index.probed query (index.probeCount knobs))
    exact (if_pos idle).trans (congrArg (Except.ok ∘ Except.ok) none.symm)
  · have each (number : Nat) (member : number ∈
        (Centroids.probeOrder index.centroids query).take (index.probeCount knobs)) :
        Checked.item index.lists number = .ok ((index.lists[number]?).getD []) := by
      have inside : number < index.lists.size := by
        have some := (Centroids.probeOrder_perm ..).mem_iff.mp (List.mem_of_mem_take member)
        rwa [List.mem_range, listed.aligned] at some
      rw [Checked.item_ok (Array.getElem?_eq_getElem inside), Array.getElem?_eq_getElem inside]
      rfl
    rw [if_neg idle, centered.probeOrderChecked_ok listed, Checked.ok_bind, mapM_ok each,
      Checked.ok_bind, ← List.flatMap_def, packed.hitsOfChecked]
    rfl

end VectorSearch.PartitionIndex

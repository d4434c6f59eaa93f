import VectorSearch.Proofs.Partition.Assignment
/-!
Where a partition index puts its vectors. Between two trainings the centroids stay, and the list of
a vector is that of the centroid nearest to its embedding, whatever lists it was in before.
-/

namespace VectorSearch.PartitionIndex

/-- The stored vectors are those in the lists, each in the list of its nearest centroid. -/
structure Placed (index : PartitionIndex) : Prop where
  packed : index.store.Packed
  listed : ∃ recent, index.Listed recent
  nearest : ∀ id, index.assignment.get? id =
    (index.store.get? id).map (Centroids.nearest index.centroids)

theorem Placed.empty (dimension : Nat) (metric : Metric) (settings : PartitionSettings) :
    (empty dimension metric settings).Placed where
  packed := Store.Packed.empty dimension metric
  listed := ⟨∅, Listed.empty dimension metric settings⟩
  nearest id := by simp [PartitionIndex.empty, Store.empty, Store.get?]

variable {index after : PartitionIndex}

theorem Placed.train [Host] (packed : index.store.Packed) (vacant : index.store.isEmpty = true)
    {buffer : Array Float32} (accepted : index.train buffer = .ok after) : after.Placed := by
  have listed := Listed.train accepted
  obtain ⟨_, rows, centroids, _, _, rfl⟩ := train_eq_ok accepted
  refine ⟨packed, ⟨∅, listed⟩, fun id => ?_⟩
  have absent : index.store.get? id = none := by
    rw [← Option.not_isSome_iff_eq_none, Store.isSome_get?,
      (Store.isEmpty_iff index.store).mp vacant]
    exact Bool.false_ne_true
  simp [absent]

theorem Placed.insert (placed : index.Placed) {id : VectorId} {row : Embedding}
    (accepted : index.insert id row = .ok after) : after.Placed := by
  obtain ⟨recent, listed⟩ := placed.listed
  obtain ⟨packed, same, lookup⟩ := get?_of_insert placed.packed accepted
  refine ⟨packed, ⟨_, listed.insert accepted⟩, fun other => ?_⟩
  obtain ⟨stored, place⟩ := lookup other
  rw [stored, place, same]
  split
  · rfl
  · exact placed.nearest other

def ofTraining [Host] (dimension : Nat) (metric : Metric) (settings : PartitionSettings)
    (buffer : Array Float32) : PartitionIndex :=
  settle (empty dimension metric settings) ((empty dimension metric settings).train buffer)

theorem Placed.ofTraining [Host] (dimension : Nat) (metric : Metric) (settings : PartitionSettings)
    (buffer : Array Float32) : (ofTraining dimension metric settings buffer).Placed := by
  rw [PartitionIndex.ofTraining]
  cases outcome : (PartitionIndex.empty dimension metric settings).train buffer with
  | error failure => exact Placed.empty dimension metric settings
  | ok trained => exact Placed.train (Store.Packed.empty dimension metric) rfl outcome

theorem Placed.inFirstLists_iff [Host] (placed : index.Placed) (query : Embedding) (probes : Nat)
    (id : VectorId) :
    index.InFirstLists query probes id ↔ ∃ row, index.store.get? id = some row ∧
      (List.range index.lists.size).countP (fun other => Centroids.comesBefore index.centroids
        query other (Centroids.nearest index.centroids row)) < probes := by
  obtain ⟨recent, listed⟩ := placed.listed
  constructor
  · rintro ⟨number, list, found, member, few⟩
    have held := (listed.mem_list_iff found id).mp member
    rw [placed.nearest, Option.map_eq_some_iff] at held
    obtain ⟨row, stored, rfl⟩ := held
    exact ⟨row, stored, few⟩
  · rintro ⟨row, stored, few⟩
    have assigned : index.assignment.get? id = some (Centroids.nearest index.centroids row) := by
      rw [placed.nearest, stored, Option.map_some]
    have found := Array.getElem?_eq_getElem (listed.inside id _ assigned)
    exact ⟨_, _, found, (listed.mem_list_iff found id).mpr assigned, few⟩

structure GrownFrom (start index : PartitionIndex) : Prop where
  placed : index.Placed
  settings : index.settings = start.settings
  centroids : index.centroids = start.centroids
  lists : index.lists.size = start.lists.size

theorem GrownFrom.insert {start : PartitionIndex} (grown : start.GrownFrom index) {id : VectorId}
    {row : Embedding} (accepted : index.insert id row = .ok after) : start.GrownFrom after := by
  have placed := grown.placed.insert accepted
  obtain ⟨_, _, rfl⟩ := insert_eq_ok accepted
  refine ⟨placed, grown.settings, grown.centroids, ?_⟩
  rw [Array.size_modify, size_unlist]
  exact grown.lists

theorem Placed.grownFrom_insertAll (placed : index.Placed) (calls : List (VectorId × Embedding)) :
    index.GrownFrom (index.insertAll calls) :=
  runCalls_induction _ (GrownFrom index) (fun _ _ _ grown accepted => grown.insert accepted) calls _
    ⟨placed, rfl, rfl, rfl⟩

end VectorSearch.PartitionIndex

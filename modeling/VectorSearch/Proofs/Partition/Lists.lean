import VectorSearch.Index.Partition.Basic
import VectorSearch.Proofs.Partition.Centroids
import VectorSearch.Proofs.Ranking
import VectorSearch.Proofs.Run
import VectorSearch.Proofs.Store
/-!
The lists of the partition index. Training empties the lists but keeps the store, so that exactly
the vectors that were inserted since the last training are in a list, each of them once.
-/

namespace VectorSearch

inductive PartitionCall where
  | train (buffer : Array Float32)
  | insert (id : VectorId) (row : Embedding)

structure PartitionHistory where
  index : PartitionIndex
  recent : Finset VectorId

namespace PartitionIndex

def call [Host] (index : PartitionIndex) : PartitionCall → Except Failure PartitionIndex
  | .train buffer => index.train buffer
  | .insert id row => index.insert id row

def run [Host] (dimension : Nat) (metric : Metric) (settings : PartitionSettings)
    (calls : List PartitionCall) : PartitionIndex :=
  runCalls call (empty dimension metric settings) calls

end PartitionIndex

namespace PartitionHistory

/-- The history after a call: an accepted training forgets the vectors inserted before it. -/
def call [Host] (history : PartitionHistory) (request : PartitionCall) :
    Except Failure PartitionHistory :=
  (history.index.call request).map fun index =>
    match request with
    | .train _ => ⟨index, ∅⟩
    | .insert id _ => ⟨index, insert id history.recent⟩

def run [Host] (dimension : Nat) (metric : Metric) (settings : PartitionSettings)
    (calls : List PartitionCall) : PartitionHistory :=
  runCalls call ⟨.empty dimension metric settings, ∅⟩ calls

theorem index_runCalls [Host] (calls : List PartitionCall) (history : PartitionHistory) :
    (runCalls call history calls).index = runCalls PartitionIndex.call history.index calls := by
  refine runCalls_agree call PartitionIndex.call (fun history index => history.index = index) ?_
    calls history history.index rfl
  rintro history _ request rfl
  unfold call
  cases history.index.call request with
  | error failure => rfl
  | ok after => cases request <;> rfl

end PartitionHistory

namespace PartitionIndex

/-- Every list holds a vector once or not at all, and holds it just when it is assigned there. -/
structure Listed (index : PartitionIndex) (recent : Finset VectorId) : Prop where
  aligned : index.centroids.length = index.lists.size
  assigned : ∀ id, (index.assignment.get? id).isSome = decide (id ∈ recent)
  inside : ∀ id number, index.assignment.get? id = some number → number < index.lists.size
  held : ∀ number list, index.lists[number]? = some list → ∀ id,
    list.count id = if index.assignment.get? id = some number then 1 else 0
  stored : ∀ id ∈ recent, index.store.contains id = true

theorem Listed.empty (dimension : Nat) (metric : Metric) (settings : PartitionSettings) :
    (PartitionIndex.empty dimension metric settings).Listed ∅ where
  aligned := rfl
  assigned id := by simp [PartitionIndex.empty]
  inside id number found := by simp [PartitionIndex.empty] at found
  held number list found := by simp [PartitionIndex.empty] at found
  stored id member := by simp at member

theorem partitionCount_le (settings : PartitionSettings) (rows : Nat) :
    partitionCount settings rows ≤ rows := Nat.min_le_right _ _

theorem partitionCount_pos (settings : PartitionSettings) {rows : Nat} (some : 0 < rows) :
    0 < partitionCount settings rows := by
  unfold partitionCount
  split <;> omega

theorem train_eq_ok [Host] {index after : PartitionIndex} {buffer : Array Float32}
    (accepted : index.train buffer = .ok after) :
    0 < index.store.dimension ∧ ∃ rows centroids, rows = buffer.size / index.store.dimension ∧
      centroids.length = partitionCount index.settings rows ∧
      after = { index with
        centroids
        lists := Array.replicate (partitionCount index.settings rows) []
        assignment := ∅
        trained := true } := by
  unfold train trainWith at accepted
  dsimp only at accepted
  split at accepted
  · cases accepted
  · rename_i whole
    cases accepted
    refine ⟨?_, _, _, ?_, KMeans.length_train _ _ _ _ _ _ (partitionCount_le _ _), rfl⟩
    · simp only [Bool.or_eq_true, decide_eq_true_iff, not_or] at whole
      exact Nat.pos_of_ne_zero whole.1
    · simp [Embedding.rows]

theorem Listed.train [Host] {index after : PartitionIndex} {buffer : Array Float32}
    (accepted : index.train buffer = .ok after) : after.Listed ∅ := by
  obtain ⟨_, rows, centroids, _, length, rfl⟩ := train_eq_ok accepted
  refine ⟨by simp [length], by simp, by simp, ?_, by simp⟩
  intro number list found id
  have empty : list = [] := by
    rw [Array.getElem?_replicate] at found
    split at found
    · exact (Option.some.inj found).symm
    · cases found
  simp [empty]

theorem isEmpty_lists {index : PartitionIndex} (trained : 0 < index.lists.size) :
    index.lists.isEmpty = false := by
  rw [Array.isEmpty_eq_false_iff, ← Array.size_pos_iff]
  exact trained

theorem insert_of_fits {index : PartitionIndex} {row : Embedding} (trained : 0 < index.lists.size)
    (fits : row.size = index.store.dimension) (id : VectorId) :
    index.insert id row = .ok { index with
      store := index.store.put id row
      lists := (index.unlist id).modify (Centroids.nearest index.centroids row) (· ++ [id])
      assignment := index.assignment.insert id (Centroids.nearest index.centroids row) } := by
  rw [insert, isEmpty_lists trained, (Store.upsert_eq_ok_iff index.store id row _).mpr ⟨fits, rfl⟩]
  rfl

theorem insert_of_unfit {index : PartitionIndex} {row : Embedding} (trained : 0 < index.lists.size)
    (unfit : row.size ≠ index.store.dimension) (id : VectorId) :
    index.insert id row = .error (.dimensionMismatch index.store.dimension row.size) := by
  rw [insert, isEmpty_lists trained, Store.upsert, Store.checkDimension_eq_error unfit]
  rfl

theorem insert_eq_ok {index after : PartitionIndex} {id : VectorId} {row : Embedding}
    (accepted : index.insert id row = .ok after) :
    0 < index.lists.size ∧ row.size = index.store.dimension ∧
      after = { index with
        store := index.store.put id row
        lists := (index.unlist id).modify (Centroids.nearest index.centroids row) (· ++ [id])
        assignment := index.assignment.insert id (Centroids.nearest index.centroids row) } := by
  by_cases trained : 0 < index.lists.size
  · by_cases fits : row.size = index.store.dimension
    · rw [insert_of_fits trained fits] at accepted
      exact ⟨trained, fits, (Except.ok.inj accepted).symm⟩
    · rw [insert_of_unfit trained fits] at accepted
      exact nomatch accepted
  · have empty : index.lists.isEmpty = true :=
      Array.isEmpty_iff_size_eq_zero.mpr (Nat.eq_zero_of_not_pos trained)
    rw [insert, empty] at accepted
    exact nomatch accepted

@[simp] theorem size_unlist (index : PartitionIndex) (id : VectorId) :
    (index.unlist id).size = index.lists.size := by
  unfold unlist
  split <;> simp

theorem Listed.count_unlist {index : PartitionIndex} {recent : Finset VectorId}
    (listed : index.Listed recent) (id : VectorId) {number : Nat} {list : List VectorId}
    (found : (index.unlist id)[number]? = some list) (other : VectorId) :
    list.count other =
      if other = id then 0
      else if index.assignment.get? other = some number then 1 else 0 := by
  unfold unlist at found
  split at found
  · rename_i unassigned
    have count := listed.held number list found other
    split
    · rename_i same
      subst same
      rw [unassigned] at count
      simpa using count
    · exact count
  · rename_i previous assigned
    rw [Array.getElem?_modify] at found
    by_cases here : previous = number
    · subst here
      simp only [if_true, Option.map_eq_some_iff] at found
      obtain ⟨before, foundBefore, rfl⟩ := found
      have count := listed.held previous before foundBefore other
      split
      · rename_i same
        subst same
        exact List.count_eq_zero.mpr fun member => by simp at member
      · rename_i different
        rw [List.count_filter (by simpa using different)]
        exact count
    · simp only [here, if_false] at found
      have count := listed.held number list found other
      split
      · rename_i same
        subst same
        have elsewhere : index.assignment.get? other ≠ some number := by
          rw [assigned]
          exact fun same => here (Option.some.inj same)
        rwa [if_neg elsewhere] at count
      · exact count

theorem Listed.insert {index after : PartitionIndex} {recent : Finset VectorId}
    (listed : index.Listed recent) {id : VectorId} {row : Embedding}
    (accepted : index.insert id row = .ok after) : after.Listed (Insert.insert id recent) := by
  obtain ⟨trained, _, rfl⟩ := insert_eq_ok accepted
  have nearest : Centroids.nearest index.centroids row < index.lists.size :=
    listed.aligned ▸ Centroids.nearest_lt _ _ (listed.aligned ▸ trained)
  refine ⟨by simpa using listed.aligned, ?_, ?_, ?_, ?_⟩
  · intro other
    dsimp only
    rw [get?_insert]
    by_cases same : id = other
    · simp [same]
    · simp only [same, if_false, listed.assigned]
      simp [Ne.symm same]
  · intro other number found
    dsimp only at found ⊢
    rw [get?_insert] at found
    rw [Array.size_modify, size_unlist]
    split at found
    · exact Option.some.inj found ▸ nearest
    · exact listed.inside other number found
  · intro number list found other
    dsimp only at found ⊢
    rw [get?_insert]
    rw [Array.getElem?_modify] at found
    by_cases here : Centroids.nearest index.centroids row = number
    · simp only [here, if_true, Option.map_eq_some_iff] at found ⊢
      obtain ⟨before, foundBefore, rfl⟩ := found
      rw [List.count_append, listed.count_unlist id foundBefore other]
      by_cases same : other = id
      · simp [same]
      · simp [same, Ne.symm same]
    · simp only [here, if_false] at found
      rw [listed.count_unlist id found other]
      by_cases same : other = id
      · simp [same, here]
      · simp [same, Ne.symm same]
  · intro other member
    rw [Finset.mem_insert] at member
    rw [Store.contains_put]
    exact member.imp_right (listed.stored other)

theorem size_lists_run_le [Host] (dimension : Nat) (metric : Metric) (settings : PartitionSettings)
    (named : 0 < settings.partitions) (calls : List PartitionCall) :
    (run dimension metric settings calls).lists.size ≤ settings.partitions ∧
      (run dimension metric settings calls).settings = settings := by
  refine runCalls_induction _ (fun index : PartitionIndex =>
    index.lists.size ≤ settings.partitions ∧ index.settings = settings) ?_ calls _
    ⟨Nat.zero_le _, rfl⟩
  intro index request after ⟨few, same⟩ accepted
  cases request with
  | train buffer =>
      obtain ⟨_, rows, centroids, _, _, rfl⟩ := train_eq_ok accepted
      refine ⟨?_, same⟩
      rw [Array.size_replicate, same, partitionCount, if_neg (Nat.ne_of_gt named)]
      exact Nat.min_le_left _ _
  | insert id row =>
      obtain ⟨_, _, rfl⟩ := insert_eq_ok accepted
      refine ⟨?_, same⟩
      rw [Array.size_modify, size_unlist]
      exact few

end PartitionIndex

end VectorSearch

import VectorSearch.Proofs.Refusal
/-!
Indexes over the rows of a buffer. An index of any family takes in all rows of a buffer, one after
another, and then has these and no others; partitions are trained on them first.
-/

namespace VectorSearch

/-! Rows that are taken in. -/

namespace Store

variable {store : Store} {dimension position : Nat} {metric : Metric} {content : Array Float32}

structure HasRows (store : Store) (dimension : Nat) (metric : Metric) (content : Array Float32)
    (position : Nat) : Prop where
  width : store.dimension = dimension
  metric : store.metric = metric
  packed : store.Packed
  size : store.size = position
  stored : ∀ id, store.get? id =
    if id < position then some (Embedding.rowAt content dimension (id * dimension)) else none

theorem HasRows.empty (dimension : Nat) (metric : Metric) (content : Array Float32) :
    (Store.empty dimension metric).HasRows dimension metric content 0 where
  width := rfl
  metric := rfl
  packed := Packed.empty dimension metric
  size := rfl
  stored id := by simp [get?, Store.empty]

theorem HasRows.contains_eq_false (rows : store.HasRows dimension metric content position) :
    store.contains position = false := by
  have vacant := rows.stored position
  rw [if_neg (Nat.lt_irrefl _)] at vacant
  rw [← isSome_get?]
  exact Option.isSome_eq_false_iff.mpr (Option.isNone_iff_eq_none.mpr vacant)

theorem HasRows.put (rows : store.HasRows dimension metric content position)
    (fits : (Embedding.rowAt content dimension (position * dimension)).size = store.dimension) :
    (store.put position (Embedding.rowAt content dimension (position * dimension))).HasRows
      dimension metric content (position + 1) := by
  refine ⟨?_, ?_, rows.packed.put fits, ?_, fun id => ?_⟩
  · rw [dimension_put, rows.width]
  · rw [metric_put, rows.metric]
  · rw [size_put_of_new rows.contains_eq_false, rows.size]
  · rw [rows.packed.get?_put fits]
    by_cases last : id = position
    · simp [last]
    · have same : id < position + 1 ↔ id < position :=
        Nat.lt_succ_iff_lt_or_eq.trans (or_iff_left last)
      simp [last, rows.stored id, same]

theorem HasRows.pairsDefined (rows : store.HasRows dimension metric content position)
    (defined : ∀ first < position, ∀ second < position,
      (similarity metric (Embedding.rowAt content dimension (first * dimension))
        (Embedding.rowAt content dimension (second * dimension))).isNaN = false) :
    store.PairsDefined := by
  intro id row known other score scored
  obtain ⟨otherRow, otherKnown, rfl⟩ := Option.map_eq_some_iff.mp scored
  rw [rows.stored] at known otherKnown
  split at known
  · split at otherKnown
    · rename_i inside otherInside
      obtain rfl := Option.some.inj known
      obtain rfl := Option.some.inj otherKnown
      rw [rows.metric]
      exact defined id inside other otherInside
    · exact nomatch otherKnown
  · exact nomatch known

end Store

namespace Index

/-! The calls. -/

def trainingCalls (kind : IndexKind) (count : Nat) (content : Array Float32) : List IndexCall :=
  if kind = .partition ∧ 0 < count then [.train content] else []

def rowCall (dimension : Nat) (content : Array Float32) (position : Nat) : IndexCall :=
  .insert position (Embedding.rowAt content dimension (position * dimension))

/-- An index that is to have `count` rows of a buffer when it has the first few of them, or the
reason why it cannot. -/
def building [Host] (kind : IndexKind) (dimension : Nat) (settings : IndexSettings) (count : Nat)
    (content : Array Float32) (position : Nat) : Except Failure Index :=
  (trainingCalls kind count content ++ (List.range position).map (rowCall dimension content)).foldlM
    call (empty kind dimension settings)

def ofRows [Host] (kind : IndexKind) (dimension : Nat) (settings : IndexSettings) (count : Nat)
    (content : Array Float32) : Except Failure Index :=
  building kind dimension settings count content count

variable {kind : IndexKind} {dimension count position : Nat} {settings : IndexSettings}
  {content : Array Float32} {index after : Index}

theorem building_untrained [Host] (untrained : ¬ (kind = .partition ∧ 0 < count)) :
    building kind dimension settings count content 0 = .ok (empty kind dimension settings) := by
  rw [building, trainingCalls, if_neg untrained]
  rfl

theorem building_trained [Host] (some : 0 < count) :
    building .partition dimension settings count content 0 =
      (empty .partition dimension settings).train content := by
  rw [building, trainingCalls, if_pos ⟨rfl, some⟩]
  simp [call]

theorem building_succ [Host] (kind : IndexKind) (dimension : Nat) (settings : IndexSettings)
    (count : Nat) (content : Array Float32) (position : Nat) :
    building kind dimension settings count content (position + 1) =
      building kind dimension settings count content position >>=
        (·.call (rowCall dimension content position)) := by
  simp [building, List.range_succ, ← List.append_assoc, List.foldlM_append]

/-! What the calls keep. -/

theorem kind_of_foldlM [Host] {calls : List IndexCall}
    (made : calls.foldlM call index = .ok after) : after.kind = index.kind := by
  induction calls generalizing index with
  | nil => exact congrArg Index.kind (Except.ok.inj made).symm
  | cons first rest ih =>
      rw [List.foldlM_cons] at made
      cases outcome : index.call first with
      | error failure =>
          rw [outcome] at made
          exact nomatch made
      | ok next =>
          rw [outcome] at made
          exact (ih made).trans (kind_of_call outcome)

theorem kind_of_building [Host]
    (built : building kind dimension settings count content position = .ok index) :
    index.kind = kind := by
  rw [kind_of_foldlM built]
  cases kind <;> rfl

theorem partitions?_of_insert [Host] {id : VectorId} {row : Embedding}
    (accepted : index.insert id row = .ok after) : after.partitions? = index.partitions? := by
  cases index with
  | partition index =>
      obtain ⟨inner, inserted, rfl⟩ := map_eq_ok accepted
      obtain ⟨_, _, rfl⟩ := PartitionIndex.insert_eq_ok inserted
      simp [partitions?]
  | flat index | graph index | code index => obtain ⟨inner, _, rfl⟩ := map_eq_ok accepted; rfl

theorem partitions?_of_train [Host] {index : PartitionIndex} {buffer : Array Float32}
    (some : 0 < buffer.size / index.store.dimension)
    (accepted : (partition index).train buffer = .ok after) : after.partitions? ≠ .some 0 := by
  obtain ⟨inner, trained, rfl⟩ := map_eq_ok accepted
  obtain ⟨_, rows, _, rfl, _, rfl⟩ := PartitionIndex.train_eq_ok trained
  have positive := PartitionIndex.partitionCount_pos index.settings some
  simp only [partitions?, Array.size_replicate, ne_eq, Option.some.injEq]
  omega

structure Open (index : Index) : Prop where
  coordinates : 0 < index.store.dimension
  place : index.partitions? ≠ some 0

theorem Open.insert_ok [Host] (ready : index.Open) {row : Embedding}
    (fits : row.size = index.store.dimension) (id : VectorId) :
    ∃ after, index.call (.insert id row) = .ok after ∧ after.Open := by
  have accepted : (index.call (.insert id row)).isOk = true := by
    rw [isOk_call_iff, Refuses]
    rintro (unfit | full | ⟨_, flat⟩)
    · exact unfit fits
    · exact ready.place full
    · have := ready.coordinates
      omega
  obtain ⟨after, inserted⟩ := exists_of_isOk accepted
  refine ⟨after, inserted, ?_, ?_⟩
  · rw [(store_of_insert inserted).2, Store.dimension_put]
    exact ready.coordinates
  · rw [partitions?_of_insert inserted]
    exact ready.place

theorem building_zero_ok [Host] (coordinates : 0 < count → 0 < dimension)
    (whole : content.size = count * dimension) :
    ∃ index, building kind dimension settings count content 0 = .ok index ∧
      index.store.HasRows dimension settings.metric content 0 ∧ (0 < count → index.Open) := by
  have start : (empty kind dimension settings).store.HasRows dimension settings.metric content 0 :=
    store_empty kind dimension settings ▸ Store.HasRows.empty dimension settings.metric content
  by_cases trained : kind = .partition ∧ 0 < count
  · obtain ⟨rfl, some⟩ := trained
    have positive := coordinates some
    have dimensionEmpty : (empty .partition dimension settings).store.dimension = dimension := by
      rw [store_empty]
      rfl
    have accepted : ((empty .partition dimension settings).call (.train content)).isOk = true := by
      rw [isOk_call_iff, Refuses, dimensionEmpty, whole]
      simp only [Nat.mul_mod_left]
      omega
    obtain ⟨index, built⟩ := exists_of_isOk accepted
    rw [call] at built
    have store := store_of_train built
    have rows : 0 < content.size / dimension := by
      rw [whole, Nat.mul_div_cancel _ positive]
      exact some
    refine ⟨index, (building_trained some).trans built, store ▸ start, fun _ => ⟨?_, ?_⟩⟩
    · rw [store, dimensionEmpty]
      exact positive
    · exact partitions?_of_train rows built
  · refine ⟨_, building_untrained trained, start, fun some => ⟨?_, ?_⟩⟩
    · rw [store_empty]
      exact coordinates some
    · cases kind with
      | partition => exact absurd ⟨rfl, some⟩ trained
      | flat | graph | code => simp [partitions?, empty]

theorem building_ok [Host] (coordinates : 0 < count → 0 < dimension)
    (whole : content.size = count * dimension) (inside : position ≤ count) :
    ∃ index, building kind dimension settings count content position = .ok index ∧
      index.store.HasRows dimension settings.metric content position ∧
      (0 < count → index.Open) := by
  induction position with
  | zero => exact building_zero_ok coordinates whole
  | succ position ih =>
      obtain ⟨index, built, rows, ready⟩ := ih (Nat.le_of_succ_le inside)
      have some : 0 < count := by omega
      have block : position * dimension + dimension ≤ content.size := by
        rw [whole]
        exact Blocks.slot_inside inside dimension
      have fits := (Embedding.size_rowAt block).trans rows.width.symm
      obtain ⟨after, inserted, still⟩ := (ready some).insert_ok fits position
      refine ⟨after, ?_, (store_of_insert inserted).2 ▸ rows.put fits, fun _ => still⟩
      rw [building_succ, built]
      exact inserted

end Index

end VectorSearch

import VectorSearch.Index
import VectorSearch.Proofs.Code.Candidates
import VectorSearch.Proofs.Graph.Search
import VectorSearch.Proofs.Partition.Probes
/-!
Searches of any family. Each family keeps an invariant of its own by which a search finds stored
vectors only, none of them twice, with the scores of the embeddings last accepted for them.
-/

namespace VectorSearch

abbrev IndexCall := PartitionCall

namespace Index

def call [Host] (index : Index) : IndexCall → Except Failure Index
  | .train buffer => index.train buffer
  | .insert id row => index.insert id row

def run [Host] (kind : IndexKind) (dimension : Nat) (settings : IndexSettings)
    (calls : List IndexCall) : Index :=
  runCalls call (empty kind dimension settings) calls

def Kept : Index → Prop
  | flat _ => True
  | graph index => index.Anchored
  | partition index => ∃ recent, index.Listed recent
  | code index => index.Coded

variable {index after : Index}

@[simp] theorem store_empty (kind : IndexKind) (dimension : Nat) (settings : IndexSettings) :
    (empty kind dimension settings).store = Store.empty dimension settings.metric := by
  cases kind <;> rfl

theorem Kept.empty (kind : IndexKind) (dimension : Nat) (settings : IndexSettings) :
    (empty kind dimension settings).Kept := by
  cases kind with
  | flat => trivial
  | graph => exact GraphIndex.Anchored.empty dimension settings.metric settings.graph
  | partition => exact ⟨∅, PartitionIndex.Listed.empty dimension settings.metric settings.partition⟩
  | code => exact CodeIndex.Coded.empty dimension settings.metric settings.code

theorem Kept.insert [Host] (kept : index.Kept) {id : VectorId} {row : Embedding}
    (accepted : index.insert id row = .ok after) : after.Kept := by
  cases index with
  | flat index =>
      obtain ⟨inner, _, rfl⟩ := map_eq_ok accepted
      trivial
  | graph index =>
      obtain ⟨inner, inserted, rfl⟩ := map_eq_ok accepted
      exact GraphIndex.Anchored.insertWith kept inserted
  | partition index =>
      obtain ⟨inner, inserted, rfl⟩ := map_eq_ok accepted
      obtain ⟨recent, listed⟩ := kept
      exact ⟨_, listed.insert inserted⟩
  | code index =>
      obtain ⟨inner, inserted, rfl⟩ := map_eq_ok accepted
      exact CodeIndex.Coded.insert kept inserted

theorem Kept.train [Host] (kept : index.Kept) {buffer : Array Float32}
    (accepted : index.train buffer = .ok after) : after.Kept := by
  cases index with
  | partition index =>
      obtain ⟨inner, trained, rfl⟩ := map_eq_ok accepted
      exact ⟨∅, PartitionIndex.Listed.train trained⟩
  | flat index | graph index | code index => exact Except.ok.inj accepted ▸ kept

theorem store_of_insert [Host] {id : VectorId} {row : Embedding}
    (accepted : index.insert id row = .ok after) :
    row.size = index.store.dimension ∧ after.store = index.store.put id row := by
  cases index with
  | flat index =>
      obtain ⟨inner, inserted, rfl⟩ := map_eq_ok accepted
      by_cases fits : row.size = index.store.dimension
      · rw [FlatIndex.insert_of_fits fits] at inserted
        obtain rfl := Except.ok.inj inserted
        exact ⟨fits, rfl⟩
      · rw [FlatIndex.insert_of_unfit fits] at inserted
        exact nomatch inserted
  | graph index =>
      obtain ⟨inner, inserted, rfl⟩ := map_eq_ok accepted
      exact ⟨GraphIndex.size_of_insertWith inserted, GraphIndex.store_of_insertWith inserted⟩
  | partition index =>
      obtain ⟨inner, inserted, rfl⟩ := map_eq_ok accepted
      obtain ⟨_, fits, rfl⟩ := PartitionIndex.insert_eq_ok inserted
      exact ⟨fits, rfl⟩
  | code index =>
      obtain ⟨inner, inserted, rfl⟩ := map_eq_ok accepted
      obtain ⟨_, fits, rfl⟩ := CodeIndex.insert_eq_ok inserted
      exact ⟨fits, CodeIndex.store_putCode ..⟩

theorem store_of_train [Host] {buffer : Array Float32} (accepted : index.train buffer = .ok after) :
    after.store = index.store := by
  cases index with
  | partition index =>
      obtain ⟨inner, trained, rfl⟩ := map_eq_ok accepted
      obtain ⟨_, _, _, _, _, rfl⟩ := PartitionIndex.train_eq_ok trained
      rfl
  | flat index | graph index | code index => exact Except.ok.inj accepted ▸ rfl

theorem kind_of_call [Host] {request : IndexCall} (accepted : index.call request = .ok after) :
    after.kind = index.kind := by
  cases request with
  | train buffer =>
      cases index with
      | partition index => obtain ⟨inner, _, rfl⟩ := map_eq_ok accepted; rfl
      | flat index | graph index | code index => exact Except.ok.inj accepted ▸ rfl
  | insert id row => cases index <;> obtain ⟨inner, _, rfl⟩ := map_eq_ok accepted <;> rfl

theorem kind_run [Host] (kind : IndexKind) (dimension : Nat) (settings : IndexSettings)
    (calls : List IndexCall) : (run kind dimension settings calls).kind = kind := by
  refine runCalls_induction call (fun index => index.kind = kind) ?_ calls _ ?_
  · intro index request after same accepted
    exact (kind_of_call accepted).trans same
  · cases kind <;> rfl

theorem Kept.call [Host] (kept : index.Kept) {request : IndexCall}
    (accepted : index.call request = .ok after) : after.Kept := by
  cases request with
  | train buffer => exact kept.train accepted
  | insert id row => exact kept.insert accepted

theorem dimension_of_call [Host] {request : IndexCall} (accepted : index.call request = .ok after) :
    after.store.dimension = index.store.dimension := by
  cases request with
  | train buffer => rw [store_of_train accepted]
  | insert id row => rw [(store_of_insert accepted).2, Store.dimension_put]

theorem kept_run [Host] (kind : IndexKind) (dimension : Nat) (settings : IndexSettings)
    (calls : List IndexCall) : (run kind dimension settings calls).Kept :=
  runCalls_induction Index.call Kept (fun _ _ _ kept accepted => kept.call accepted) calls _
    (Kept.empty kind dimension settings)

theorem dimension_run [Host] (kind : IndexKind) (dimension : Nat) (settings : IndexSettings)
    (calls : List IndexCall) : (run kind dimension settings calls).store.dimension = dimension := by
  refine runCalls_induction Index.call (fun index => index.store.dimension = dimension) ?_ calls _
    ?_
  · intro index request after same accepted
    exact (dimension_of_call accepted).trans same
  · rw [store_empty]
    rfl

theorem search_of_unfit [Host] {query : Embedding} (unfit : query.size ≠ index.store.dimension)
    (count : Nat) (knobs : Knobs) :
    index.search query count knobs =
      .error (.dimensionMismatch index.store.dimension query.size) := by
  cases index with
  | flat index => exact FlatIndex.search_of_unfit unfit count
  | graph index => exact GraphIndex.search_of_unfit unfit count knobs
  | partition index => exact PartitionIndex.search_of_unfit unfit count knobs
  | code index => exact CodeIndex.search_of_unfit unfit count knobs

theorem found_of_unfit [Host] {query : Embedding} (unfit : query.size ≠ index.store.dimension)
    (count : Nat) (knobs : Knobs) :
    index.found query count knobs =
      .error (.dimensionMismatch index.store.dimension query.size) := by
  cases index with
  | flat index => exact FlatIndex.found_of_unfit unfit
  | graph index => exact GraphIndex.found_of_unfit unfit count knobs
  | partition index => exact PartitionIndex.found_of_unfit unfit knobs
  | code index => exact CodeIndex.found_of_unfit unfit count knobs

theorem Kept.found_of_fits [Host] (kept : index.Kept) {query : Embedding}
    (fits : query.size = index.store.dimension) (count : Nat) (knobs : Knobs) :
    ∃ hits, index.found query count knobs = .ok hits ∧ index.store.Fetches query hits := by
  cases index with
  | flat index =>
      refine ⟨_, FlatIndex.found_of_fits fits, ?_⟩
      rw [Store.hits_eq_hitsOf]
      exact Store.fetches_hitsOf _ _ index.store.nodup_ids
  | graph index => exact GraphIndex.Anchored.found_of_fits kept fits count knobs
  | partition index =>
      obtain ⟨recent, listed⟩ := kept
      exact ⟨_, PartitionIndex.found_of_fits fits knobs,
        Store.fetches_hitsOf _ _ (listed.nodup_probed query _)⟩
  | code index =>
      refine ⟨_, CodeIndex.Coded.found_of_fits kept fits count knobs, ?_⟩
      split
      · exact Store.Fetches.nil ..
      · exact Store.fetches_hitsOf _ _ (CodeIndex.Coded.nodup_candidates kept query _)

theorem search_of_found [Host] {query : Embedding} {count : Nat} {knobs : Knobs} {hits : List Hit}
    (fetched : index.found query count knobs = .ok hits) :
    index.search query count knobs = .ok (Hit.rank hits count) := by
  have ranked : index.search query count knobs =
      (Hit.rank · count) <$> index.found query count knobs := by cases index <;> rfl
  rw [ranked, fetched]
  rfl

theorem Kept.search_answers [Host] (kept : index.Kept) {query : Embedding}
    (fits : query.size = index.store.dimension) (count : Nat) (knobs : Knobs) :
    ∃ hits, index.search query count knobs = .ok hits ∧ index.store.Answers query count hits := by
  obtain ⟨hits, fetched, fetches⟩ := kept.found_of_fits fits count knobs
  exact ⟨_, search_of_found fetched, fetches.answers count⟩

/-- The search that breaks down with its sort gives the same answer as the one that does not, or
more than twenty vectors are stored and one of their scores is undefined. -/
theorem Kept.trySearch_cases [Host] (kept : index.Kept) {query : Embedding}
    (fits : query.size = index.store.dimension) (count : Nat) (knobs : Knobs) :
    (∃ hits, index.trySearch query count knobs = .ok hits ∧
      index.search query count knobs = .ok hits ∧ index.store.Answers query count hits) ∨
    index.trySearch query count knobs = .error (.panicked Host.complaint) ∧
      20 < index.store.size ∧ ¬ index.store.ScoresDefined query := by
  obtain ⟨hits, fetched, fetches⟩ := kept.found_of_fits fits count knobs
  rw [trySearch, fetched]
  exact (fetches.tryRank_cases count).imp_left fun ranked =>
    ⟨_, ranked, search_of_found fetched, fetches.answers count⟩

theorem trySearch_of_unfit [Host] {query : Embedding} (unfit : query.size ≠ index.store.dimension)
    (count : Nat) (knobs : Knobs) :
    index.trySearch query count knobs =
      .error (.refused (.dimensionMismatch index.store.dimension query.size)) := by
  rw [trySearch, found_of_unfit unfit]
  rfl

end Index

end VectorSearch

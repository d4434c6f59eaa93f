import VectorSearch.Index.Flat
import VectorSearch.Proofs.Run
import VectorSearch.Proofs.Store.Hits
/-!
The exact index. After any inserts a search gives the best of all stored vectors, so any list of
the best of these is what the exact index finds.
-/

namespace VectorSearch

namespace FlatIndex

def run (dimension : Nat) (metric : Metric) (calls : List (VectorId × Embedding)) : FlatIndex :=
  runCalls (fun index call => index.insert call.1 call.2) (empty dimension metric) calls

theorem insert_of_fits {index : FlatIndex} {row : Embedding}
    (fits : row.size = index.store.dimension) (id : VectorId) :
    index.insert id row = .ok ⟨index.store.put id row⟩ := by
  rw [insert, (Store.upsert_eq_ok_iff index.store id row _).mpr ⟨fits, rfl⟩]
  rfl

theorem insert_of_unfit {index : FlatIndex} {row : Embedding}
    (unfit : row.size ≠ index.store.dimension) (id : VectorId) :
    index.insert id row = .error (.dimensionMismatch index.store.dimension row.size) := by
  rw [insert, Store.upsert, Store.checkDimension_eq_error unfit]
  rfl

theorem dimension_run (dimension : Nat) (metric : Metric) (calls : List (VectorId × Embedding)) :
    (run dimension metric calls).store.dimension = dimension := by
  refine runCalls_induction _ (fun index : FlatIndex => index.store.dimension = dimension) ?_ calls
    _ rfl
  intro index call after same inserted
  by_cases fits : call.2.size = index.store.dimension
  · rw [insert_of_fits fits] at inserted
    obtain rfl := Except.ok.inj inserted
    exact (Store.dimension_put ..).trans same
  · rw [insert_of_unfit fits] at inserted
    cases inserted

theorem found_of_fits {index : FlatIndex} {query : Embedding}
    (fits : query.size = index.store.dimension) :
    index.found query = .ok (index.store.hits query) := by
  rw [found, (Store.checkDimension_eq_ok_iff index.store query).mpr fits]
  rfl

theorem found_of_unfit {index : FlatIndex} {query : Embedding}
    (unfit : query.size ≠ index.store.dimension) :
    index.found query = .error (.dimensionMismatch index.store.dimension query.size) := by
  rw [found, Store.checkDimension_eq_error unfit]
  rfl

theorem search_of_fits [Host] {index : FlatIndex} {query : Embedding}
    (fits : query.size = index.store.dimension) (count : Nat) :
    index.search query count = .ok (Hit.rank (index.store.hits query) count) := by
  rw [search, found_of_fits fits]
  rfl

theorem search_of_unfit [Host] {index : FlatIndex} {query : Embedding}
    (unfit : query.size ≠ index.store.dimension) (count : Nat) :
    index.search query count = .error (.dimensionMismatch index.store.dimension query.size) := by
  rw [search, found_of_unfit unfit]
  rfl

theorem fetches_hits (index : FlatIndex) (query : Embedding) :
    index.store.Fetches query (index.store.hits query) := by
  rw [Store.hits_eq_hitsOf]
  exact Store.fetches_hitsOf _ _ index.store.nodup_ids

theorem search_answers [Host] {index : FlatIndex} {query : Embedding}
    (fits : query.size = index.store.dimension) (count : Nat) :
    ∃ hits, index.search query count = .ok hits ∧ index.store.Answers query count hits :=
  ⟨_, search_of_fits fits count, (index.fetches_hits query).answers count⟩

theorem search_eq_ok [Host] {index : FlatIndex} {query : Embedding} {count : Nat} {hits : List Hit}
    (fits : query.size = index.store.dimension) (defined : index.store.ScoresDefined query)
    (best : Hit.IsBest (index.store.Scored query) count hits) :
    index.search query count = .ok hits := by
  rw [search_of_fits fits, (Store.isBest_rank_hits defined count).eq
    (fun hit scored => defined hit.id hit.score scored) best]

theorem search_eq_rank [Host] {index : FlatIndex} {query : Embedding} {ids : List VectorId}
    (fits : query.size = index.store.dimension) (defined : index.store.ScoresDefined query)
    (distinct : ids.Nodup) (all : ∀ id, index.store.contains id = true → id ∈ ids) (count : Nat) :
    index.search query count = .ok (Hit.rank (index.store.hitsOf query ids) count) := by
  refine search_eq_ok fits defined
    ((Store.isBest_rank_hitsOf defined distinct count).congr fun hit => ?_)
  rw [iff_and_self]
  exact fun scored => all hit.id (Store.contains_of_scored scored)

end FlatIndex

end VectorSearch

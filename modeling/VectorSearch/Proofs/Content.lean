import VectorSearch.Proofs.Families
import VectorSearch.Proofs.Partition.Placement
/-!
Searches and the content of an index. What the exact index, the code index and the partition index
find is settled by the embeddings that they store: neither the order in which these came nor what
they replaced can be told from the results.
-/

namespace VectorSearch

namespace Store

structure Agrees (store other : Store) : Prop where
  dimension : store.dimension = other.dimension
  metric : store.metric = other.metric
  embeddings : ∀ id, store.get? id = other.get? id

theorem get?_eq_of_all {store other : Store} (ids : store.ids = other.ids)
    (same : store.ids.all (fun id => store.get? id = other.get? id) = true) (id : VectorId) :
    store.get? id = other.get? id := by
  by_cases known : id ∈ store.ids
  · exact of_decide_eq_true (List.all_eq_true.mp same id known)
  · have absent {store : Store} (missing : ¬ id ∈ store.ids) : store.get? id = none := by
      rwa [mem_ids, ← isSome_get?, Option.not_isSome_iff_eq_none] at missing
    rw [absent known, absent (ids ▸ known)]

namespace Agrees

variable {store other : Store} (same : store.Agrees other) (query : Embedding)
include same

theorem score (id : VectorId) : store.score query id = other.score query id := by
  rw [Store.score, Store.score, same.embeddings, same.metric]

theorem contains (id : VectorId) : store.contains id = other.contains id := by
  rw [← isSome_get?, ← isSome_get?, same.embeddings]

theorem ids_perm : store.ids.Perm other.ids := by
  rw [List.perm_ext_iff_of_nodup store.nodup_ids other.nodup_ids]
  intro id
  rw [mem_ids, mem_ids, same.contains]

theorem scored_iff (hit : Hit) : store.Scored query hit ↔ other.Scored query hit := by
  rw [Scored, Scored, same.score]

theorem scoresDefined {query : Embedding} (defined : store.ScoresDefined query) :
    other.ScoresDefined query :=
  fun id score scored => defined id score (same.score query id ▸ scored)

theorem signsPrecede (first second : VectorId) :
    store.signsPrecede query first second = other.signsPrecede query first second := by
  rw [Store.signsPrecede, Store.signsPrecede, signDistance, signDistance, signDistance,
    signDistance, same.embeddings, same.embeddings]

theorem isCandidate_iff (limit : Nat) (id : VectorId) :
    store.IsCandidate query limit id ↔ other.IsCandidate query limit id := by
  rw [IsCandidate, IsCandidate, same.contains, same.ids_perm.countP_eq]
  simp only [same.signsPrecede]

theorem best_eq {query : Embedding} {count : Nat} {eligible admitted : VectorId → Prop}
    {hits others : List Hit} (defined : store.ScoresDefined query)
    (alike : ∀ id, eligible id ↔ admitted id)
    (best : Hit.IsBest (fun hit => store.Scored query hit ∧ eligible hit.id) count hits)
    (otherBest : Hit.IsBest (fun hit => other.Scored query hit ∧ admitted hit.id) count others) :
    hits = others := by
  refine best.eq (fun hit found => defined _ _ found.1) (otherBest.congr fun hit => ?_)
  rw [same.scored_iff, alike]

end Agrees

end Store

/-! Each family. -/

variable {query : Embedding}

theorem FlatIndex.search_eq_of_agrees [Host] {index other : FlatIndex}
    (same : index.store.Agrees other.store) (defined : index.store.ScoresDefined query)
    (count : Nat) : index.search query count = other.search query count := by
  by_cases fits : query.size = index.store.dimension
  · rw [search_of_fits fits]
    symm
    refine search_eq_ok (fits.trans same.dimension) (same.scoresDefined defined) ?_
    exact (Store.isBest_rank_hits defined count).congr fun hit => (same.scored_iff query hit).symm
  · rw [search_of_unfit fits, search_of_unfit (same.dimension ▸ fits), same.dimension]

theorem CodeIndex.search_eq_of_agrees [Host] {index other : CodeIndex} (coded : index.Coded)
    (otherCoded : other.Coded) (settings : index.settings = other.settings)
    (same : index.store.Agrees other.store) (defined : index.store.ScoresDefined query)
    (count : Nat) (knobs : Knobs) :
    index.search query count knobs = other.search query count knobs := by
  by_cases fits : query.size = index.store.dimension
  · obtain ⟨hits, found, best⟩ := coded.search_isBest fits defined count knobs
    obtain ⟨others, otherFound, otherBest⟩ := otherCoded.search_isBest (fits.trans same.dimension)
      (same.scoresDefined defined) count knobs
    rw [found, otherFound, same.best_eq defined (fun id => ?_) best otherBest]
    rw [same.isCandidate_iff, candidateCount, candidateCount, settings]
  · rw [search_of_unfit fits, search_of_unfit (same.dimension ▸ fits), same.dimension]

theorem PartitionIndex.search_eq_of_agrees [Host] {start index other : PartitionIndex}
    (grown : start.GrownFrom index) (otherGrown : start.GrownFrom other)
    (same : index.store.Agrees other.store) (defined : index.store.ScoresDefined query)
    (count : Nat) (knobs : Knobs) :
    index.search query count knobs = other.search query count knobs := by
  have lists := grown.lists.trans otherGrown.lists.symm
  have centroids := grown.centroids.trans otherGrown.centroids.symm
  have probes : index.probeCount knobs = other.probeCount knobs := by
    rw [probeCount, probeCount, lists, grown.settings, otherGrown.settings]
  by_cases fits : query.size = index.store.dimension
  · obtain ⟨recent, listed⟩ := grown.placed.listed
    obtain ⟨otherRecent, otherListed⟩ := otherGrown.placed.listed
    obtain ⟨hits, found, best⟩ := listed.search_isBest fits defined count knobs
    obtain ⟨others, otherFound, otherBest⟩ := otherListed.search_isBest
      (fits.trans same.dimension) (same.scoresDefined defined) count knobs
    rw [found, otherFound, same.best_eq defined (fun id => ?_) best otherBest]
    -- The lists differ in their order only: an embedding tells which of them has its vector.
    rw [grown.placed.inFirstLists_iff, otherGrown.placed.inFirstLists_iff, probes, centroids,
      lists, same.embeddings]
  · rw [search_of_unfit fits, search_of_unfit (same.dimension ▸ fits), same.dimension]

/-! Indexes that are trained once and then filled. -/

namespace Index

/-- An index that is trained while it is empty, and into which some vectors are then inserted. A
refused training or insert leaves it as it is; only partitions are trained at all. -/
def filled [Host] (kind : IndexKind) (dimension : Nat) (settings : IndexSettings)
    (buffer : Array Float32) (calls : List (VectorId × Embedding)) : Index :=
  let start := empty kind dimension settings
  runCalls (fun index call => index.insert call.1 call.2) (settle start (start.train buffer)) calls

variable (dimension : Nat) (settings : IndexSettings) (buffer : Array Float32)
  (calls : List (VectorId × Embedding))

theorem filled_flat [Host] : filled .flat dimension settings buffer calls =
    flat (FlatIndex.run dimension settings.metric calls) :=
  runCalls_wrap flat (fun _ _ => rfl) _ calls

theorem filled_code [Host] : filled .code dimension settings buffer calls =
    code (CodeIndex.run dimension settings.metric settings.code calls) :=
  runCalls_wrap code (fun _ _ => rfl) _ calls

theorem filled_partition [Host] : filled .partition dimension settings buffer calls =
    partition ((PartitionIndex.ofTraining dimension settings.metric settings.partition
      buffer).insertAll calls) := by
  have start : settle (empty .partition dimension settings)
      ((empty .partition dimension settings).train buffer) =
      partition (PartitionIndex.ofTraining dimension settings.metric settings.partition
        buffer) := by
    rw [PartitionIndex.ofTraining, empty, train]
    cases PartitionIndex.train _ buffer <;> rfl
  rw [filled, start]
  exact runCalls_wrap partition (fun _ _ => rfl) _ calls

theorem store_filled [Host] (kind : IndexKind) :
    (filled kind dimension settings buffer calls).store.dimension = dimension ∧
      (filled kind dimension settings buffer calls).store.metric = settings.metric := by
  refine runCalls_induction _ (fun index : Index =>
    index.store.dimension = dimension ∧ index.store.metric = settings.metric) ?_ calls _ ?_
  · rintro index call after ⟨sameDimension, sameMetric⟩ accepted
    rw [(store_of_insert accepted).2, Store.dimension_put, Store.metric_put]
    exact ⟨sameDimension, sameMetric⟩
  · have start := store_empty kind dimension settings
    cases outcome : (empty kind dimension settings).train buffer with
    | error failure => exact start ▸ ⟨rfl, rfl⟩
    | ok trained => exact (store_of_train outcome).trans start ▸ ⟨rfl, rfl⟩

end Index

/-- Two indexes of one family that were trained alike and then got vectors in any two ways, with
other orders, replacements, repetitions and refused vectors, find the same hits in the same order
if they have the same embeddings in the end and no score is undefined. The graph is the one family
of which this is not said: its links tell the order of the inserts. -/
theorem Index.search_filled_eq [Host] (kind : IndexKind) (other : kind ≠ .graph) (dimension : Nat)
    (settings : IndexSettings) (buffer : Array Float32) (calls others : List (VectorId × Embedding))
    (same : ∀ id, (filled kind dimension settings buffer calls).get? id =
      (filled kind dimension settings buffer others).get? id)
    (query : Embedding)
    (defined : (filled kind dimension settings buffer calls).store.ScoresDefined query)
    (count : Nat) (knobs : Knobs) :
    (filled kind dimension settings buffer calls).search query count knobs =
      (filled kind dimension settings buffer others).search query count knobs := by
  have agrees : (filled kind dimension settings buffer calls).store.Agrees
      (filled kind dimension settings buffer others).store := by
    obtain ⟨dimensionOne, metricOne⟩ := store_filled dimension settings buffer calls kind
    obtain ⟨dimensionTwo, metricTwo⟩ := store_filled dimension settings buffer others kind
    exact ⟨dimensionOne.trans dimensionTwo.symm, metricOne.trans metricTwo.symm, same⟩
  cases kind with
  | graph => exact absurd rfl other
  | flat =>
      simp only [filled_flat] at agrees defined ⊢
      exact FlatIndex.search_eq_of_agrees agrees defined count
  | partition =>
      simp only [filled_partition] at agrees defined ⊢
      have placed := PartitionIndex.Placed.ofTraining dimension settings.metric settings.partition
        buffer
      exact PartitionIndex.search_eq_of_agrees (placed.grownFrom_insertAll calls)
        (placed.grownFrom_insertAll others) agrees defined count knobs
  | code =>
      simp only [filled_code] at agrees defined ⊢
      have kept (calls : List (VectorId × Embedding)) :=
        (CodeIndex.settings_run dimension settings.metric settings.code calls).1
      exact CodeIndex.search_eq_of_agrees (CodeIndex.coded_run ..) (CodeIndex.coded_run ..)
        ((kept calls).trans (kept others).symm) agrees defined count knobs

theorem Index.search_filled_eq_two :
    let settings : IndexSettings := { metric := .euclidean, partition := { partitions := 2 } }
    let calls : List (VectorId × Embedding) := [(1, #[1]), (2, #[5]), (1, #[4])]
    let others : List (VectorId × Embedding) := [(2, #[9, 9]), (1, #[4]), (2, #[5]), (2, #[5])]
    let index := filled .partition 1 settings #[0, 4] calls
    let other := filled .partition 1 settings #[0, 4] others
    IndexKind.partition ≠ .graph ∧ (∀ id, index.get? id = other.get? id) ∧
      index.store.ScoresDefined #[4] ∧
      index.search #[4] 2 { probes := 1 } = other.search #[4] 2 { probes := 1 } := by
  intro settings calls others index other
  have same (id : VectorId) : index.get? id = other.get? id :=
    Store.get?_eq_of_all (by decide +kernel) (by decide +kernel) id
  have defined : index.store.ScoresDefined #[4] := Store.scoresDefined_of_all (by decide +kernel)
  have family : IndexKind.partition ≠ .graph := by decide
  exact ⟨family, same, defined, search_filled_eq .partition family 1 settings #[0, 4] calls others
    same #[4] defined 2 { probes := 1 }⟩

end VectorSearch

import Mathlib.Data.List.NodupEquivFin
import Mathlib.Data.List.Sort
import Mathlib.Order.WellFounded
import VectorSearch.Proofs.Code.Candidates
import VectorSearch.Proofs.Partition.Probes
/-!
Wider searches. A search that scores more candidates finds at least as many hits, and at each place
one that ranks no lower; a partition index has more candidates when it probes more lists, an index
of codes when it keeps more of the nearest codes.
-/

namespace VectorSearch

namespace Hit

def RanksNoLower (first second : Hit) : Prop :=
  second.score < first.score ∨ (first.score == second.score) = true ∧ first.id ≤ second.id

structure Dominates (many few : List Hit) : Prop where
  length : few.length ≤ many.length
  ranks : ∀ (place : Nat) (better worse : Hit), many[place]? = some better →
    few[place]? = some worse → better.RanksNoLower worse

theorem ranksNoLower_iff {first second : Hit} (firstDefined : first.score.isNaN = false)
    (secondDefined : second.score.isNaN = false) :
    first.RanksNoLower second ↔ first.standing ≤ second.standing := by
  rw [RanksNoLower, Score.lt_iff secondDefined firstDefined,
    Score.beq_iff firstDefined secondDefined, standing, standing, Prod.Lex.toLex_le_toLex,
    OrderDual.toDual_lt_toDual, OrderDual.toDual_inj]

section

variable {many few : List Hit} (defined : ∀ hit ∈ many, hit.score.isNaN = false)
  (distinct : (many.map (·.id)).Nodup) (fewer : few.Sublist many)
include defined distinct fewer

theorem sort_sublist [Host] : (sort few).Sublist (sort many) := by
  have strict : Std.Antisymm fun first second : Hit => first.standing < second.standing :=
    ⟨fun _ _ less more => absurd less (lt_asymm more)⟩
  have inside : (sort few).Subperm (sort many) :=
    (sort_perm few).subperm.trans (fewer.subperm.trans (sort_perm many).symm.subperm)
  exact List.sublist_of_subperm_of_pairwise inside
    (sort_strictly_ascending (fun hit member => defined hit (fewer.subset member))
      ((fewer.map _).nodup distinct))
    (sort_strictly_ascending defined distinct)

theorem standing_le_of_getElem?_sort [Host] {place : Nat} {better worse : Hit}
    (ahead : (sort many)[place]? = some better) (behind : (sort few)[place]? = some worse) :
    better.standing ≤ worse.standing := by
  -- Each hit of the part stands among all hits at its own place or later.
  obtain ⟨position, same⟩ := List.sublist_iff_exists_orderEmbedding_getElem?_eq.mp
    (sort_sublist defined distinct fewer)
  have later : place ≤ position place := StrictMono.le_apply position.strictMono
  rw [same place] at behind
  rcases later.eq_or_lt with here | after
  · rw [← here, ahead] at behind
    exact (congrArg standing (Option.some.inj behind)).le
  · obtain ⟨_, rfl⟩ := List.getElem?_eq_some_iff.mp ahead
    obtain ⟨bound, rfl⟩ := List.getElem?_eq_some_iff.mp behind
    exact (List.pairwise_iff_getElem.mp (sort_strictly_ascending defined distinct) _ _ _ bound
      after).le

theorem rank_dominates [Host] (count : Nat) : Dominates (rank many count) (rank few count) where
  length := by
    rw [length_rank, length_rank]
    exact min_le_min_left count fewer.length_le
  ranks place better worse ahead behind := by
    have betterDefined := defined better (mem_of_mem_rank (List.mem_of_getElem? ahead))
    have worseDefined :=
      defined worse (fewer.subset (mem_of_mem_rank (List.mem_of_getElem? behind)))
    rw [rank, List.getElem?_take, Option.ite_none_right_eq_some] at ahead behind
    rw [ranksNoLower_iff betterDefined worseDefined]
    exact standing_le_of_getElem?_sort defined distinct fewer ahead.2 behind.2

end

end Hit

/-- One search is as good as another or better: both refuse a query of the wrong length in the same
way, and find hits for every other one, those of the one dominating those of the other. -/
structure Store.Improves (store : Store) (query : Embedding)
    (wide narrow : Except Failure (List Hit)) : Prop where
  refused : query.size ≠ store.dimension →
    ∃ failure, narrow = .error failure ∧ wide = .error failure
  found : query.size = store.dimension →
    ∃ many few, narrow = .ok few ∧ wide = .ok many ∧ Hit.Dominates many few

theorem Store.rank_hitsOf_dominates [Host] {store : Store} {query : Embedding}
    {many few : List VectorId}
    (defined : ∀ hit ∈ store.hitsOf query many, hit.score.isNaN = false) (distinct : many.Nodup)
    (fewer : few.Sublist many) (count : Nat) :
    Hit.Dominates (Hit.rank (store.hitsOf query many) count)
      (Hit.rank (store.hitsOf query few) count) :=
  Hit.rank_dominates defined (store.nodup_map_id_hitsOf query distinct) (fewer.filterMap _) count

variable {narrow wide : Knobs}

namespace PartitionIndex

theorem probed_sublist [Host] (index : PartitionIndex) (query : Embedding) {probes more : Nat}
    (fewer : probes ≤ more) : (index.probed query probes).Sublist (index.probed query more) :=
  (List.take_sublist_take_left fewer).flatMap _

theorem Listed.search_improves [Host] {index : PartitionIndex} {recent : Finset VectorId}
    (listed : index.Listed recent) {query : Embedding}
    (fewer : index.probeCount narrow ≤ index.probeCount wide)
    (defined : ∀ hit ∈ index.store.hitsOf query (index.probed query (index.probeCount wide)),
      hit.score.isNaN = false) (count : Nat) :
    index.store.Improves query (index.search query count wide)
      (index.search query count narrow) where
  refused unfit := ⟨_, search_of_unfit unfit count narrow, search_of_unfit unfit count wide⟩
  found fits := ⟨_, _, search_of_fits fits count narrow, search_of_fits fits count wide,
    Store.rank_hitsOf_dominates defined (listed.nodup_probed query _)
      (index.probed_sublist query fewer) count⟩

end PartitionIndex

namespace CodeIndex

theorem candidates_sublist (index : CodeIndex) (query : Embedding) {limit more : Nat}
    (fewer : limit ≤ more) :
    (index.candidates query limit).Sublist (index.candidates query more) :=
  (List.take_sublist_take_left fewer).map _

theorem candidateCount_mono (index : CodeIndex) (count : Nat)
    (fewer : narrow.candidates ≤ wide.candidates) :
    index.candidateCount count narrow ≤ index.candidateCount count wide := by
  unfold candidateCount
  omega

theorem Coded.search_improves [Host] {index : CodeIndex} (coded : index.Coded) {query : Embedding}
    {count : Nat} (fewer : narrow.candidates ≤ wide.candidates)
    (defined : ∀ hit ∈ index.store.hitsOf query
      (index.candidates query (index.candidateCount count wide)), hit.score.isNaN = false) :
    index.store.Improves query (index.search query count wide)
      (index.search query count narrow) where
  refused unfit := ⟨_, search_of_unfit unfit count narrow, search_of_unfit unfit count wide⟩
  found fits := ⟨_, _, coded.search_of_fits fits count narrow,
    coded.search_of_fits fits count wide,
    Store.rank_hitsOf_dominates defined (coded.nodup_candidates query _)
      (index.candidates_sublist query (index.candidateCount_mono count fewer)) count⟩

end CodeIndex

/-- After any calls a partition index that probes more of its lists finds no fewer hits and none
that ranks lower at its place, and neither does an index of codes that rescores more vectors. -/
theorem wider_search_improves [Host] (dimension : Nat) (metric : Metric) (query : Embedding)
    (count : Nat) (narrow wide : Knobs) :
    (∀ (settings : PartitionSettings) (calls : List PartitionCall),
      let index := PartitionIndex.run dimension metric settings calls
      index.probeCount narrow ≤ index.probeCount wide →
      (∀ hit ∈ index.store.hitsOf query (index.probed query (index.probeCount wide)),
        hit.score.isNaN = false) →
      index.store.Improves query (index.search query count wide)
        (index.search query count narrow)) ∧
    (∀ (settings : CodeSettings) (calls : List (VectorId × Embedding)),
      let index := CodeIndex.run dimension metric settings calls
      narrow.candidates ≤ wide.candidates →
      (∀ hit ∈ index.store.hitsOf query
          (index.candidates query (index.candidateCount count wide)),
        hit.score.isNaN = false) →
      index.store.Improves query (index.search query count wide)
        (index.search query count narrow)) := by
  constructor
  · intro settings calls index fewer defined
    exact (PartitionIndex.listed_run dimension metric settings calls).search_improves fewer defined
      count
  · intro settings calls index fewer defined
    exact (CodeIndex.coded_run dimension metric settings calls).search_improves fewer defined

theorem wider_search_improves_two :
    let partitionCalls : List PartitionCall :=
      [.train #[0, 8], .insert 1 #[1], .insert 2 #[9], .insert 3 #[7], .insert 1 #[2]]
    let codeCalls : List (VectorId × Embedding) := [(1, #[1]), (2, #[-2]), (3, #[7]), (1, #[-2])]
    ∃ partitions codes, PartitionIndex.run 1 .euclidean { partitions := 2 } partitionCalls =
        partitions ∧
      CodeIndex.run 1 .euclidean { candidateFactor := 1 } codeCalls = codes ∧
      partitions.probeCount { probes := 1 } ≤ partitions.probeCount { probes := 2 } ∧
      partitions.store.ScoresDefined #[6] ∧ codes.store.ScoresDefined #[6] ∧
      (∃ many few, partitions.search #[6] 2 { probes := 1, candidates := 1 } = .ok few ∧
        partitions.search #[6] 2 { probes := 2, candidates := 3 } = .ok many ∧
        Hit.Dominates many few) ∧
      ∃ many few, codes.search #[6] 2 { probes := 1, candidates := 1 } = .ok few ∧
        codes.search #[6] 2 { probes := 2, candidates := 3 } = .ok many ∧
        Hit.Dominates many few := by
  intro partitionCalls codeCalls
  obtain ⟨general, generalCodes⟩ := wider_search_improves 1 .euclidean #[6] 2
    { probes := 1, candidates := 1 } { probes := 2, candidates := 3 }
  have byPartitions := general { partitions := 2 } partitionCalls
  have byCodes := generalCodes { candidateFactor := 1 } codeCalls (by decide)
  obtain ⟨partitions, same⟩ : ∃ partitions,
    PartitionIndex.run 1 .euclidean { partitions := 2 } partitionCalls = partitions := ⟨_, rfl⟩
  obtain ⟨codes, sameCodes⟩ : ∃ codes,
    CodeIndex.run 1 .euclidean { candidateFactor := 1 } codeCalls = codes := ⟨_, rfl⟩
  obtain ⟨fits, scores⟩ : (#[6] : Embedding).size = partitions.store.dimension ∧
      partitions.store.ids.all (fun id =>
        (partitions.store.score #[6] id).all fun score => !score.isNaN) = true := by
    subst same
    decide +kernel
  obtain ⟨codeFits, codeScores⟩ : (#[6] : Embedding).size = codes.store.dimension ∧
      codes.store.ids.all (fun id =>
        (codes.store.score #[6] id).all fun score => !score.isNaN) = true := by
    subst sameCodes
    decide +kernel
  rw [same] at byPartitions
  rw [sameCodes] at byCodes
  have fewer : partitions.probeCount { probes := 1 } ≤ partitions.probeCount { probes := 2 } :=
    min_le_min_right _ (max_le_max_right 1 (Nat.le_succ 1))
  have defined := Store.scoresDefined_of_all scores
  have codeDefined := Store.scoresDefined_of_all codeScores
  exact ⟨partitions, codes, same, sameCodes, fewer, defined, codeDefined,
    (byPartitions fewer fun hit member =>
      defined hit.id hit.score ((Store.mem_hitsOf _ _ _ hit).mp member).2).found fits,
    (byCodes fun hit member =>
      codeDefined hit.id hit.score ((Store.mem_hitsOf _ _ _ hit).mp member).2).found codeFits⟩

end VectorSearch

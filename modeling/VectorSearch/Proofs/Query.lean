import VectorSearch.Proofs.Families
import VectorSearch.Query
/-!
Filtered queries. A query whose plan fetches candidates and filters them afterwards finds the first
vectors of the exact ranking of those that have the tag, as far as the candidates reach.
-/

namespace VectorSearch

/-! Plans that fetch before they filter. -/

namespace Planner

theorem planFor_of_oversampleFilter [Host] {settings : PlannerSettings} {statistics : Statistics}
    {count : Nat} {filter : Option Float}
    (oversamples : (planFor settings statistics count filter).strategy = .oversampleFilter) :
    ∃ share, planFor settings statistics count filter =
      oversamplePlan settings statistics count share := by
  unfold planFor at oversamples ⊢
  split at oversamples
  · exact nomatch oversamples
  · rename_i large
    rw [if_neg large]
    cases filter with
    | none => exact nomatch oversamples
    | some share =>
        dsimp only at oversamples ⊢
        split at oversamples
        · exact ⟨share, if_pos ‹_›⟩
        · exact nomatch oversamples

theorem candidates_plan [Host] {planner : Planner} {count : Nat} {filter : Option Float}
    (oversamples : (planner.plan count filter).strategy = .oversampleFilter) :
    (planner.plan count filter).knobs.candidates = (planner.plan count filter).oversample := by
  obtain ⟨share, same⟩ := planFor_of_oversampleFilter oversamples
  rw [plan, same]
  rfl

end Planner

/-! The exact ranking. -/

namespace Store

variable {store : Store} {query : Embedding} {keep : Hit → Bool}

def ranking [Host] (store : Store) (query : Embedding) (keep : Hit → Bool) : List Hit :=
  (Hit.sort (store.hits query)).filter keep

theorem mem_ranking [Host] (hit : Hit) :
    hit ∈ store.ranking query keep ↔ store.Scored query hit ∧ keep hit = true := by
  rw [ranking, List.mem_filter, (Hit.sort_perm _).mem_iff, mem_hits]

theorem pairwise_ranking [Host] (defined : store.ScoresDefined query) :
    (store.ranking query keep).Pairwise Hit.RanksAbove := by
  have distinct : ((store.hits query).map (·.id)).Nodup := by
    rw [hits_eq_hitsOf]
    exact store.nodup_map_id_hitsOf query store.nodup_ids
  apply List.Pairwise.filter
  apply Hit.sort_ranksAbove _ distinct
  intro hit member
  exact defined hit.id hit.score ((mem_hits hit).mp member)

theorem filter_rank_prefix [Host] (fetched count : Nat) :
    ((Hit.rank (store.hits query) fetched).filter keep).take count <+: store.ranking query keep :=
  (List.take_prefix _ _).trans ((List.take_prefix _ _).filter keep)

theorem filter_rank_of_room [Host] {fetched : Nat} (room : store.size ≤ fetched) :
    (Hit.rank (store.hits query) fetched).filter keep = store.ranking query keep := by
  have all : (Hit.sort (store.hits query)).length ≤ fetched := by
    rwa [(Hit.sort_perm _).length_eq, length_hits]
  rw [Hit.rank, List.take_of_length_le all, ranking]

end Store

namespace Index

variable {index : Index}

theorem Kept.search_eq_rank [Host] (kept : index.Kept)
    (family : index.kind = .flat ∨ index.kind = .code)
    {query : Embedding} (fits : query.size = index.store.dimension)
    (defined : index.store.ScoresDefined query) {count : Nat} {knobs : Knobs}
    (room : index.kind = .code → index.store.size ≤ max knobs.candidates count) :
    index.search query count knobs = .ok (Hit.rank (index.store.hits query) count) := by
  cases index with
  | flat index => exact FlatIndex.search_of_fits fits count
  | graph index | partition index => simp [kind] at family
  | code index =>
      have coded : index.Coded := kept
      have enough : index.store.size ≤ index.candidateCount count knobs := by
        have most := room rfl
        unfold CodeIndex.candidateCount
        simp only [store] at most
        omega
      have same : index.store = (FlatIndex.mk index.store).store := rfl
      rw [search, coded.search_eq same defined enough]
      exact FlatIndex.search_of_fits fits count

end Index

namespace Query

variable {hash : Tag → UInt64}

theorem run_of_search [Host] {query : Query} {index : Index} {plan : Plan} {hits : List Hit}
    (searched : index.search query.target (plan.fetchCount query.count) plan.knobs = .ok hits)
    (tags : TagTable hash) :
    query.run index tags plan = .ok ((hits.filter (query.keeps tags)).take query.count) := by
  rw [run, searched]
  rfl

/-- A filtered query over the exact index, or over codes, whose plan fetches candidates before it
filters them. What it finds in the exact index is the beginning of the exact ranking of the vectors
that have the tag; in either index it is just the first `count` of them if the plan fetches as many
candidates as there are vectors. -/
theorem run_oversampled [Host] (kind : IndexKind) (family : kind = .flat ∨ kind = .code)
    (dimension : Nat) (settings : IndexSettings) (calls : List IndexCall) (tags : TagTable hash)
    (tag : Tag) (target : Embedding) (count : Nat) (planner : Planner) (share : Option Float)
    (oversamples : (planner.plan count share).strategy = .oversampleFilter)
    (defined : (Index.run kind dimension settings calls).store.ScoresDefined target) :
    let index := Index.run kind dimension settings calls
    let plan := planner.plan count share
    let outcome := Query.run ⟨target, count, some tag⟩ index tags plan
    (target.size ≠ dimension → outcome = .error (.dimensionMismatch dimension target.size)) ∧
    (target.size = dimension → ∃ ranking found : List Hit,
      ranking.Pairwise Hit.RanksAbove ∧
      (∀ hit, hit ∈ ranking ↔ index.store.Scored target hit ∧ tags.contains tag hit.id = true) ∧
      outcome = .ok found ∧
      (kind = .flat → found <+: ranking) ∧
      (index.store.size ≤ plan.oversample → found = ranking.take count)) := by
  intro index plan outcome
  let query : Query := ⟨target, count, some tag⟩
  have kept : index.Kept := Index.kept_run ..
  have sameDimension : index.store.dimension = dimension := Index.dimension_run ..
  have sameKind : index.kind = kind := Index.kind_run ..
  refine ⟨fun unfit => ?_, fun fits => ?_⟩
  · have refused := Index.search_of_unfit (sameDimension ▸ unfit) (plan.fetchCount count) plan.knobs
    rw [sameDimension] at refused
    change query.run index tags plan = _
    rw [run, refused]
    rfl
  · have inside : target.size = index.store.dimension := fits.trans sameDimension.symm
    obtain ⟨hits, searched, _⟩ := kept.search_answers inside (plan.fetchCount count) plan.knobs
    have ran : query.run index tags plan = .ok ((hits.filter (query.keeps tags)).take count) :=
      run_of_search searched tags
    have scan (room : kind = .code → index.store.size ≤ plan.oversample) :
        hits = Hit.rank (index.store.hits target) (plan.fetchCount count) := by
      have enough (codes : index.kind = .code) :
          index.store.size ≤ max plan.knobs.candidates (plan.fetchCount count) := by
        rw [Planner.candidates_plan oversamples]
        exact (room (sameKind.symm.trans codes)).trans (Nat.le_max_left _ _)
      have ranked := kept.search_eq_rank (sameKind.symm ▸ family) inside defined enough
      exact Except.ok.inj (searched.symm.trans ranked)
    refine ⟨index.store.ranking target (query.keeps tags), _, Store.pairwise_ranking defined,
      fun hit => Store.mem_ranking hit, ran, fun flat => ?_, fun room => ?_⟩
    · rw [scan (by simp [flat])]
      exact Store.filter_rank_prefix _ count
    · have fetched : index.store.size ≤ plan.fetchCount count := by
        rw [Plan.fetchCount, oversamples]
        exact room.trans (Nat.le_max_left _ _)
      rw [scan fun _ => room, Store.filter_rank_of_room fetched]

theorem run_oversampled_three :
    let calls : List IndexCall := [.insert 1 #[2, -1], .insert 2 #[-1, 3], .insert 3 #[1, 1]]
    let settings : IndexSettings := { metric := .dotProduct }
    let red : Tag := ⟨"color", "red"⟩
    let tags : TagIndex := ((TagTable.withBuckets 4).add red 2).add red 3
    let planner : Planner :=
      ⟨{ exactScanThreshold := 0, selectiveFilterThreshold := 0.75 }, { total := 3 }, .empty⟩
    let plan := planner.plan 1 (some 0.5)
    let flat := Index.run .flat 2 settings calls
    let code := Index.run .code 2 settings calls
    plan.strategy = .oversampleFilter ∧ flat.store.ScoresDefined #[1, -1] ∧
    code.store.ScoresDefined #[1, -1] ∧ code.store.size ≤ plan.oversample ∧
    Query.run ⟨#[1], 1, some red⟩ code tags plan = .error (.dimensionMismatch 2 1) ∧
    (∃ ranking found : List Hit, Query.run ⟨#[1, -1], 1, some red⟩ flat tags plan = .ok found ∧
      found <+: ranking) ∧
    ∃ ranking : List Hit, ranking.Pairwise Hit.RanksAbove ∧
      Query.run ⟨#[1, -1], 1, some red⟩ code tags plan = .ok (ranking.take 1) ∧
      ∀ hit, hit ∈ ranking ↔
        code.store.Scored #[1, -1] hit ∧ tags.contains red hit.id = true := by
  intro calls settings red tags planner plan flat code
  have oversamples : plan.strategy = .oversampleFilter := by decide +kernel
  have flatDefined : flat.store.ScoresDefined #[1, -1] :=
    Store.scoresDefined_of_all (by decide +kernel)
  have codeDefined : code.store.ScoresDefined #[1, -1] :=
    Store.scoresDefined_of_all (by decide +kernel)
  have shortDefined : code.store.ScoresDefined #[1] :=
    Store.scoresDefined_of_all (by decide +kernel)
  have room : code.store.size ≤ plan.oversample := by decide +kernel
  have refused := (run_oversampled .code (.inr rfl) 2 settings calls tags red #[1] 1 planner
    (some 0.5) oversamples shortDefined).1 (by decide)
  obtain ⟨whole, front, _, _, ran, start, _⟩ := (run_oversampled .flat (.inl rfl) 2 settings calls
    tags red #[1, -1] 1 planner (some 0.5) oversamples flatDefined).2 rfl
  obtain ⟨ranking, _, ordered, tagged, found, _, same⟩ := (run_oversampled .code (.inr rfl) 2
    settings calls tags red #[1, -1] 1 planner (some 0.5) oversamples codeDefined).2 rfl
  refine ⟨oversamples, flatDefined, codeDefined, room, refused, ⟨whole, front, ran, start rfl⟩,
    ranking, ordered, ?_, tagged⟩
  rw [found, same room]

end Query

end VectorSearch

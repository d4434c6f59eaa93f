import VectorSearch.Plan.Planner
import VectorSearch.Proofs.Double.Growth
import VectorSearch.Proofs.Graph.Search
import VectorSearch.Proofs.Partition.Probes
import VectorSearch.Settings.Check
/-!
Which rule plans a query, and what its knobs do. Just one rule applies, and where it searches an
index it asks for at least one node and one list: with a knob of zero the index would choose.
-/

namespace VectorSearch

/-! Accepted settings. -/

theorem PlannerSettings.caps_of_fault?_eq_none {settings : PlannerSettings}
    (faultless : settings.fault? = none) : 0 < settings.breadthCap ∧ 0 < settings.probeCap := by
  unfold fault? at faultless
  split at faultless
  · cases faultless
  split at faultless
  · cases faultless
  split at faultless
  · cases faultless
  · omega

theorem Settings.fault?_of_check {settings : Settings} (valid : settings.check = .ok ()) :
    settings.planner.fault? = none ∧ settings.migration.fault? = none ∧
      settings.index.fault? = none := by
  unfold check fault? at valid
  cases planner : settings.planner.fault? with
  | some fault => simp [planner] at valid
  | none =>
      cases migration : settings.migration.fault? with
      | some fault => simp [planner, migration] at valid
      | none =>
          cases index : settings.index.fault? with
          | some fault => simp [planner, migration, index] at valid
          | none => exact ⟨rfl, rfl, rfl⟩

namespace Planner

variable {settings : PlannerSettings} {statistics : Statistics} {count : Nat}
  {filter : Option Float}

/-! Knobs. -/

theorem breadthFor_bounds (capped : 0 < settings.breadthCap) (statistics : Statistics)
    (count : Nat) :
    1 ≤ breadthFor settings statistics count ∧
      breadthFor settings statistics count ≤ settings.breadthCap := by
  have base : 1 ≤ Count.saturate (max (Count.saturate (count * 2)) 50) := by
    simp only [Count.saturate, Count.limit]
    omega
  have wide := base.trans (Double.saturate_le_stretched _)
  simp only [breadthFor]
  split <;> split <;> omega

theorem probesFor_bounds (capped : 0 < settings.probeCap) (statistics : Statistics) :
    1 ≤ probesFor settings statistics ∧ probesFor settings statistics ≤ settings.probeCap := by
  simp only [probesFor]
  split
  · omega
  · split <;> omega

/-! Rules. -/

def Selective (settings : PlannerSettings) (filter : Option Float) : Prop :=
  ∃ share, filter = some share ∧ 0 < share ∧ share < settings.selectiveFilterThreshold

theorem planFor_cases [Host] (settings : PlannerSettings) (statistics : Statistics) (count : Nat)
    (filter : Option Float) :
    (statistics.total ≤ settings.exactScanThreshold ∧
      planFor settings statistics count filter = exactPlan settings statistics) ∨
    (settings.exactScanThreshold < statistics.total ∧ Selective settings filter ∧
      ∃ share, planFor settings statistics count filter =
        oversamplePlan settings statistics count share) ∨
    (settings.exactScanThreshold < statistics.total ∧ ¬ Selective settings filter ∧
      planFor settings statistics count filter =
        searchPlan settings statistics count filter.isSome) := by
  by_cases small : statistics.total ≤ settings.exactScanThreshold
  · exact Or.inl ⟨small, by unfold planFor; exact if_pos small⟩
  refine Or.inr ?_
  have large : settings.exactScanThreshold < statistics.total := by omega
  cases filter with
  | none =>
      refine Or.inr ⟨large, ?_, by rw [planFor, if_neg small]; rfl⟩
      rintro ⟨share, impossible, _⟩
      cases impossible
  | some share =>
      by_cases few : 0 < share ∧ share < settings.selectiveFilterThreshold
      · refine Or.inl ⟨large, ⟨share, rfl, few⟩, share, ?_⟩
        rw [planFor, if_neg small]
        exact if_pos few
      · refine Or.inr ⟨large, ?_, ?_⟩
        · rintro ⟨other, same, both⟩
          obtain rfl := Option.some.inj same
          exact few both
        · rw [planFor, if_neg small]
          exact if_neg few

theorem strategy_planFor [Host] (settings : PlannerSettings) (statistics : Statistics) (count : Nat)
    (filter : Option Float) :
    let strategy := (planFor settings statistics count filter).strategy
    (strategy = .exactScan ↔ statistics.total ≤ settings.exactScanThreshold) ∧
    (strategy = .oversampleFilter ↔
      settings.exactScanThreshold < statistics.total ∧ Selective settings filter) ∧
    (strategy = .indexSearch ↔
      settings.exactScanThreshold < statistics.total ∧ ¬ Selective settings filter) := by
  intro strategy
  rcases planFor_cases settings statistics count filter with
    ⟨small, same⟩ | ⟨large, few, share, same⟩ | ⟨large, many, same⟩
  · have exact : strategy = .exactScan := congrArg Plan.strategy same
    simp [exact, small, Nat.not_lt.mpr small]
  · have oversamples : strategy = .oversampleFilter := congrArg Plan.strategy same
    simp [oversamples, large, few, Nat.not_le.mpr large]
  · have searches : strategy = .indexSearch := congrArg Plan.strategy same
    simp [searches, large, many, Nat.not_le.mpr large]

theorem knobs_planFor [Host]
    (searches : (planFor settings statistics count filter).strategy ≠ .exactScan) :
    let plan := planFor settings statistics count filter
    plan.breadth = breadthFor settings statistics
      (if plan.strategy = .oversampleFilter then plan.oversample else count) ∧
    plan.probes = probesFor settings statistics := by
  intro plan
  rcases planFor_cases settings statistics count filter with
    ⟨_, same⟩ | ⟨_, _, share, same⟩ | ⟨_, _, same⟩
  · exact absurd (congrArg Plan.strategy same) searches
  · rw [show plan = _ from same]
    exact ⟨rfl, rfl⟩
  · rw [show plan = _ from same]
    exact ⟨rfl, rfl⟩

end Planner

/-! Searches with knobs above zero. -/

theorem Knobs.orElse_of_pos {knob : Nat} (positive : 0 < knob) (setting : Nat) :
    Knobs.orElse knob setting = knob := if_neg (by omega)

theorem GraphIndex.search_of_breadth [Host] {index : GraphIndex} {query : Embedding}
    (fits : query.size = index.store.dimension) {entry : VectorId}
    (occupied : index.entry = some entry) (knobs : Knobs) (positive : 0 < knobs.breadth)
    (count : Nat) :
    index.search query count knobs = .ok ((Beam.search (index.links.linksAt 0)
      (index.store.score query) index.store.size (max knobs.breadth count)
      (Descent.descend index.links.linksAt (index.store.score query) index.store.size 1
        index.topLevel entry)).take count) := by
  rw [search, found, (Store.checkDimension_eq_ok_iff index.store query).mpr fits, occupied, breadth,
    Knobs.orElse_of_pos positive]
  rfl

theorem PartitionIndex.search_of_probes [Host] {index : PartitionIndex} {query : Embedding}
    (fits : query.size = index.store.dimension) (knobs : Knobs) (positive : 0 < knobs.probes)
    (count : Nat) :
    index.search query count knobs = .ok (Hit.rank (index.store.hitsOf query
      (index.probed query (min knobs.probes index.lists.size))) count) := by
  rw [search_of_fits fits, probeCount, Knobs.orElse_of_pos positive, Nat.max_eq_left positive]

namespace Planner

/-- With accepted settings one rule plans each query: a collection within the threshold is scanned,
any other is searched, with more candidates if the filter is selective. A scan has no knobs. The
knobs of a search are the recommended ones, above zero and within the caps, so that a graph is
searched with the breadth of the plan, or that of the fetched results if it is greater, and as many
lists are probed as the plan says, as far as there are lists. -/
theorem plan_rules [Host] (settings : Settings) (valid : settings.check = .ok ())
    (statistics : Statistics) (feedback : Feedback Float) (count : Nat) (filter : Option Float) :
    let planner : Planner := ⟨settings.planner, statistics, feedback⟩
    let plan := planner.plan count filter
    let fetched := plan.fetchCount count
    let small := statistics.total ≤ settings.planner.exactScanThreshold
    let selective := ∃ share, filter = some share ∧ 0 < share ∧
      share < settings.planner.selectiveFilterThreshold
    (plan.strategy = .exactScan ↔ small) ∧
    (plan.strategy = .oversampleFilter ↔ ¬ small ∧ selective) ∧
    (plan.strategy = .indexSearch ↔ ¬ small ∧ ¬ selective) ∧
    (plan.strategy = .exactScan →
      plan.breadth = 0 ∧ plan.probes = 0 ∧ plan.candidates = 0 ∧ plan.oversample = 0) ∧
    (plan.strategy ≠ .exactScan →
      (1 ≤ plan.breadth ∧ plan.breadth ≤ settings.planner.breadthCap) ∧
      (1 ≤ plan.probes ∧ plan.probes ≤ settings.planner.probeCap) ∧
      plan.breadth = planner.recommendBreadth
        (if plan.strategy = .oversampleFilter then plan.oversample else count) ∧
      plan.probes = planner.recommendProbes ∧
      (∀ (graph : GraphIndex) (entry : VectorId) (target : Embedding),
        target.size = graph.store.dimension → graph.entry = some entry →
        graph.search target fetched plan.knobs = .ok ((Beam.search (graph.links.linksAt 0)
          (graph.store.score target) graph.store.size (max plan.breadth fetched)
          (Descent.descend graph.links.linksAt (graph.store.score target) graph.store.size 1
            graph.topLevel entry)).take fetched)) ∧
      ∀ (partition : PartitionIndex) (target : Embedding),
        target.size = partition.store.dimension →
        partition.search target fetched plan.knobs = .ok (Hit.rank (partition.store.hitsOf target
          (partition.probed target (min plan.probes partition.lists.size))) fetched)) := by
  intro planner plan fetched small selective
  obtain ⟨scans, oversamples, searches⟩ :=
    strategy_planFor settings.planner statistics count filter
  have capped := PlannerSettings.caps_of_fault?_eq_none (Settings.fault?_of_check valid).1
  refine ⟨scans, ?_, ?_, fun scanned => ?_, fun searched => ?_⟩
  · rw [Nat.not_le]
    exact oversamples
  · rw [Nat.not_le]
    exact searches
  · have same : plan = exactPlan settings.planner statistics := if_pos (scans.mp scanned)
    rw [same]
    exact ⟨rfl, rfl, rfl, rfl⟩
  · obtain ⟨breadth, probes⟩ := knobs_planFor searched
    have breadthBounds : 1 ≤ plan.breadth ∧ plan.breadth ≤ settings.planner.breadthCap :=
      breadth ▸ breadthFor_bounds capped.1 statistics _
    have probesBounds : 1 ≤ plan.probes ∧ plan.probes ≤ settings.planner.probeCap :=
      probes ▸ probesFor_bounds capped.2 statistics
    refine ⟨breadthBounds, probesBounds, breadth, probes,
      fun graph entry target fits occupied => ?_, fun partition target fits => ?_⟩
    · exact GraphIndex.search_of_breadth fits occupied plan.knobs breadthBounds.1 fetched
    · exact PartitionIndex.search_of_probes fits plan.knobs probesBounds.1 fetched

theorem plan_rules_capped :
    let settings : Settings := { planner := { breadthCap := 300 } }
    let planner : Planner := ⟨settings.planner, { total := 5000, dimension := 768 }, .empty⟩
    let plan := planner.plan 120 (some (0 / 0))
    let graph := GraphIndex.run (fun draw => draw % 2) 1 .dotProduct { maxLinks := 1 }
      [(1, #[2]), (7, #[1])]
    let untrained := PartitionIndex.empty 1 .euclidean {}
    let partition := settle untrained (untrained.train #[0, 5])
    settings.check = .ok () ∧ plan.strategy ≠ .exactScan ∧ graph.entry = some 1 ∧
    (#[3] : Embedding).size = graph.store.dimension ∧
    (#[3] : Embedding).size = partition.store.dimension ∧
    (1 ≤ plan.breadth ∧ plan.breadth ≤ 300) ∧ (1 ≤ plan.probes ∧ plan.probes ≤ 128) ∧
    graph.search #[3] 120 plan.knobs = .ok ((Beam.search (graph.links.linksAt 0)
      (graph.store.score #[3]) graph.store.size (max plan.breadth 120)
      (Descent.descend graph.links.linksAt (graph.store.score #[3]) graph.store.size 1
        graph.topLevel 1)).take 120) ∧
    partition.search #[3] 120 plan.knobs = .ok (Hit.rank (partition.store.hitsOf #[3]
      (partition.probed #[3] (min plan.probes partition.lists.size))) 120) := by
  intro settings planner plan graph untrained partition
  have valid : settings.check = .ok () := by decide +kernel
  have searches : plan.strategy = .indexSearch := by decide +kernel
  have occupied : graph.entry = some 1 := by decide +kernel
  have graphFits : (#[3] : Embedding).size = graph.store.dimension := by decide +kernel
  have partitionFits : (#[3] : Embedding).size = partition.store.dimension := by decide +kernel
  have fetched : plan.fetchCount 120 = 120 := by rw [Plan.fetchCount, searches]
  have scans : plan.strategy ≠ .exactScan := by rw [searches]; decide
  obtain ⟨breadth, probes, _, _, graphs, partitions⟩ :=
    (plan_rules settings valid planner.statistics planner.feedback 120 (some (0 / 0))).2.2.2.2 scans
  rw [← fetched]
  exact ⟨valid, scans, occupied, graphFits, partitionFits, breadth, probes,
    graphs graph 1 #[3] graphFits occupied, partitions partition #[3] partitionFits⟩

end Planner

end VectorSearch

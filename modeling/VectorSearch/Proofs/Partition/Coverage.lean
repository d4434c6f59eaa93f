import Mathlib.Algebra.GroupWithZero.Nat
import VectorSearch.Proofs.Partition.Lists
import VectorSearch.Proofs.Store.Hits
/-!
Which vectors a partition index covers. After any calls the lists hold the vectors inserted since
the last training, once each, and a search of all lists finds these and no others. A stored vector
is thus covered exactly if it was inserted again after the last training.
-/

namespace VectorSearch.PartitionIndex

theorem count_flatten_of_place (id : VectorId) :
    ∀ (lists : List (List VectorId)) (place : Option Nat),
      (∀ number list, lists[number]? = some list →
        list.count id = if place = some number then 1 else 0) →
      (∀ number, place = some number → number < lists.length) →
      lists.flatten.count id = if place.isSome then 1 else 0 := by
  intro lists
  induction lists with
  | nil =>
      intro place _ inside
      cases place with
      | none => rfl
      | some number => exact absurd (inside number rfl) (by simp)
  | cons first rest ih =>
      intro place held inside
      have firstCount := held 0 first rfl
      have restHeld (number : Nat) (list : List VectorId) (found : rest[number]? = some list) :=
        held (number + 1) list (by simpa using found)
      rw [List.flatten_cons, List.count_append, firstCount]
      cases place with
      | none =>
          have tail := ih none (fun number list found => by
            simpa using restHeld number list found) (by simp)
          simp [tail]
      | some number =>
          cases number with
          | zero =>
              have tail := ih none (fun number list found => by
                simpa using restHeld number list found) (by simp)
              simp [tail]
          | succ number =>
              have tail := ih (some number) (fun other list found => by
                simpa using restHeld other list found)
                (fun other same => by
                  have bound := inside (number + 1) rfl
                  rw [← Option.some.inj same]
                  simpa using bound)
              simp [tail]

theorem Listed.count_flatten {index : PartitionIndex} {recent : Finset VectorId}
    (listed : index.Listed recent) (id : VectorId) :
    index.lists.toList.flatten.count id = if id ∈ recent then 1 else 0 := by
  rw [count_flatten_of_place id _ (index.assignment.get? id), listed.assigned]
  · simp
  · intro number list found
    exact listed.held number list (by simpa using found) id
  · intro number found
    simpa using listed.inside id number found

theorem Listed.flatten_perm {index : PartitionIndex} {recent : Finset VectorId}
    (listed : index.Listed recent) : index.lists.toList.flatten.Perm recent.toList := by
  rw [List.perm_iff_count]
  intro id
  rw [listed.count_flatten, List.Nodup.count recent.nodup_toList]
  simp

theorem Listed.sum_sizes {index : PartitionIndex} {recent : Finset VectorId}
    (listed : index.Listed recent) :
    (index.lists.toList.map List.length).sum = recent.card := by
  rw [← List.length_flatten, listed.flatten_perm.length_eq, Finset.length_toList]

/-! Searching all lists. -/

theorem flatMap_range_lists (lists : Array (List VectorId)) :
    (List.range lists.size).flatMap (fun number => (lists[number]?).getD []) =
      lists.toList.flatten := by
  rw [List.flatMap_def]
  congr 1
  apply List.ext_getElem
  · simp
  · intro number bound _
    have inside : number < lists.size := by simpa using bound
    simp [inside]

theorem Listed.probed_perm [Host] {index : PartitionIndex} {recent : Finset VectorId}
    (listed : index.Listed recent) (query : Embedding) (probes : Nat)
    (all : index.lists.size ≤ probes) : (index.probed query probes).Perm recent.toList := by
  have order := Centroids.probeOrder_perm index.centroids query
  have short : (Centroids.probeOrder index.centroids query).length ≤ probes := by
    rw [order.length_eq, List.length_range, listed.aligned]
    exact all
  unfold probed
  rw [List.take_of_length_le short]
  refine (order.flatMap_right _).trans ?_
  rw [listed.aligned, flatMap_range_lists]
  exact listed.flatten_perm

theorem size_le_probeCount (index : PartitionIndex) (knobs : Knobs)
    (all : index.lists.size ≤ Knobs.orElse knobs.probes index.settings.probes) :
    index.lists.size ≤ index.probeCount knobs := by
  unfold probeCount
  omega

theorem found_of_fits [Host] {index : PartitionIndex} {query : Embedding}
    (fits : query.size = index.store.dimension) (knobs : Knobs) :
    index.found query knobs =
      .ok (index.store.hitsOf query (index.probed query (index.probeCount knobs))) := by
  rw [found, (Store.checkDimension_eq_ok_iff index.store query).mpr fits]
  rfl

theorem found_of_unfit [Host] {index : PartitionIndex} {query : Embedding}
    (unfit : query.size ≠ index.store.dimension) (knobs : Knobs) :
    index.found query knobs = .error (.dimensionMismatch index.store.dimension query.size) := by
  rw [found, Store.checkDimension_eq_error unfit]
  rfl

theorem search_of_fits [Host] {index : PartitionIndex} {query : Embedding}
    (fits : query.size = index.store.dimension) (count : Nat) (knobs : Knobs) :
    index.search query count knobs = .ok (Hit.rank (index.store.hitsOf query
      (index.probed query (index.probeCount knobs))) count) := by
  rw [search, found_of_fits fits]
  rfl

theorem search_of_unfit [Host] {index : PartitionIndex} {query : Embedding}
    (unfit : query.size ≠ index.store.dimension) (count : Nat) (knobs : Knobs) :
    index.search query count knobs =
      .error (.dimensionMismatch index.store.dimension query.size) := by
  rw [search, found_of_unfit unfit]
  rfl

theorem Listed.search_all [Host] {index : PartitionIndex} {recent : Finset VectorId}
    (listed : index.Listed recent) (query : Embedding) (count : Nat) (knobs : Knobs)
    (fits : query.size = index.store.dimension)
    (all : index.lists.size ≤ Knobs.orElse knobs.probes index.settings.probes)
    (room : index.store.size ≤ count) :
    ∃ hits, index.search query count knobs = .ok hits ∧
      (Hit.tryRank (index.found query knobs) count = .ok hits ∨
        Hit.tryRank (index.found query knobs) count = .error (.panicked Host.complaint) ∧
          ¬ index.store.ScoresDefined query) ∧
      (hits.map (·.id)).Perm recent.toList := by
  have probed := listed.probed_perm query _ (size_le_probeCount index knobs all)
  have ids := Store.map_id_hitsOf index.store query _ fun id member =>
    listed.stored id (Finset.mem_toList.mp (probed.mem_iff.mp member))
  have few : (index.store.hitsOf query (index.probed query (index.probeCount knobs))).length ≤
      count := by
    rw [← List.length_map (·.id), ids, probed.length_eq, Finset.length_toList]
    exact (index.store.card_le_size recent listed.stored).trans room
  have covered := (Hit.rank_perm few).map (·.id)
  rw [ids] at covered
  refine ⟨_, search_of_fits fits count knobs, ?_, covered.trans probed⟩
  have fetches := Store.fetches_hitsOf index.store query
    (probed.nodup_iff.mpr recent.nodup_toList)
  rw [found_of_fits fits]
  exact (fetches.tryRank_cases count).imp_right fun ⟨broken, _, undefined⟩ => ⟨broken, undefined⟩

/-! Runs. -/

theorem listed_run [Host] (dimension : Nat) (metric : Metric) (settings : PartitionSettings)
    (calls : List PartitionCall) :
    (run dimension metric settings calls).Listed
      (PartitionHistory.run dimension metric settings calls).recent := by
  have listed : (PartitionHistory.run dimension metric settings calls).index.Listed
      (PartitionHistory.run dimension metric settings calls).recent := by
    refine runCalls_induction PartitionHistory.call
      (fun history => history.index.Listed history.recent) ?_ calls _
      (Listed.empty dimension metric settings)
    intro history request after listed accepted
    unfold PartitionHistory.call at accepted
    cases outcome : history.index.call request with
    | error failure =>
        rw [outcome] at accepted
        cases accepted
    | ok index =>
        rw [outcome] at accepted
        cases request with
        | train buffer =>
            cases accepted
            exact Listed.train outcome
        | insert id row =>
            cases accepted
            exact listed.insert outcome
  rwa [PartitionHistory.run, PartitionHistory.index_runCalls] at listed

/-- After any calls a vector is in exactly one list, once, if it was inserted since the last
training, and in no list otherwise; the sizes of the lists add up to the number of such vectors,
and a search of all lists with room for every stored vector finds just these, unless its sort breaks
down over an undefined score. So the lists cover the store exactly when every stored vector was
inserted since the last training. -/
theorem run_covers_recent [Host] (dimension : Nat) (metric : Metric) (settings : PartitionSettings)
    (calls : List PartitionCall) :
    let index := run dimension metric settings calls
    let recent := (PartitionHistory.run dimension metric settings calls).recent
    (∀ id ∈ recent, (index.store.get? id).isSome) ∧
    (∀ id, index.lists.toList.flatten.count id = if id ∈ recent then 1 else 0) ∧
    (index.lists.toList.map List.length).sum = recent.card ∧
    ((index.lists.toList.map List.length).sum = index.store.size ↔
      ∀ id, (index.store.get? id).isSome → id ∈ recent) ∧
    ∀ query count knobs, query.size = index.store.dimension →
      index.lists.size ≤ Knobs.orElse knobs.probes index.settings.probes →
      index.store.size ≤ count →
      ∃ hits, index.search query count knobs = .ok hits ∧
        (Hit.tryRank (index.found query knobs) count = .ok hits ∨
          Hit.tryRank (index.found query knobs) count = .error (.panicked Host.complaint) ∧
            ¬ index.store.ScoresDefined query) ∧
        (∀ id, id ∈ hits.map (·.id) ↔ id ∈ recent) ∧
        ((∀ id, (index.store.get? id).isSome → id ∈ hits.map (·.id)) ↔
          ∀ id, (index.store.get? id).isSome → id ∈ recent) := by
  intro index recent
  have listed : index.Listed recent := listed_run dimension metric settings calls
  refine ⟨?_, listed.count_flatten, listed.sum_sizes, ?_, ?_⟩
  · intro id member
    rw [Store.isSome_get?]
    exact listed.stored id member
  · rw [listed.sum_sizes, Store.card_eq_size_iff _ _ listed.stored]
    simp only [Store.isSome_get?]
  · intro query count knobs fits all room
    obtain ⟨hits, found, tried, perm⟩ := listed.search_all query count knobs fits all room
    have members (id : VectorId) : id ∈ hits.map (·.id) ↔ id ∈ recent := by
      rw [perm.mem_iff, Finset.mem_toList]
    refine ⟨hits, found, tried, members, ?_⟩
    simp only [members]

theorem run_covers_recent_once :
    let calls : List PartitionCall := [.train #[0], .insert 1 #[0]]
    let index := run 1 .euclidean { partitions := 1 } calls
    (#[0] : Embedding).size = index.store.dimension ∧
    index.lists.size ≤ Knobs.orElse 1 index.settings.probes ∧ index.store.size ≤ 1 ∧
    ∃ hits, index.search #[0] 1 { probes := 1 } = .ok hits ∧
      (Hit.tryRank (index.found #[0] { probes := 1 }) 1 = .ok hits ∨
        Hit.tryRank (index.found #[0] { probes := 1 }) 1 = .error (.panicked Host.complaint) ∧
          ¬ index.store.ScoresDefined #[0]) ∧
      (∀ id, id ∈ hits.map (·.id) ↔ id ∈ ({1} : Finset VectorId)) ∧
      ((∀ id, (index.store.get? id).isSome → id ∈ hits.map (·.id)) ↔
        ∀ id, (index.store.get? id).isSome → id ∈ ({1} : Finset VectorId)) := by
  intro calls index
  have fits : (#[0] : Embedding).size = index.store.dimension := by decide
  have all : index.lists.size ≤ Knobs.orElse 1 index.settings.probes :=
    (size_lists_run_le 1 .euclidean { partitions := 1 } Nat.one_pos calls).1
  have room : index.store.size ≤ 1 := by decide
  exact ⟨fits, all, room, (run_covers_recent 1 .euclidean { partitions := 1 } calls).2.2.2.2
    #[0] 1 { probes := 1 } fits all room⟩

/-- A vector that was stored before a training and not since is in no list. -/
theorem not_forall_stored_listed :
    ¬ ∀ (dimension : Nat) (metric : Metric) (settings : PartitionSettings)
      (calls : List PartitionCall) (id : VectorId),
      ((run dimension metric settings calls).store.get? id).isSome →
        (run dimension metric settings calls).lists.toList.flatten.count id = 1 := by
  intro covered
  have once := covered 1 .euclidean { partitions := 1 }
    [.train #[0], .insert 1 #[0], .train #[0]] 1 (by decide)
  exact absurd once (by decide)

end VectorSearch.PartitionIndex

import Mathlib.Data.List.Flatten
import VectorSearch.Proofs.Flat
import VectorSearch.Proofs.Partition.Coverage
/-!
Which lists a search probes. The lists are ordered by the distance of their centroids to the query
and then by their numbers; a search finds the best vectors of the first lists, and those of all
lists are the best of all vectors if the index was trained before the first insert.
-/

namespace VectorSearch

/-! The order of the lists. -/

/-- The place of a centroid in the order: undefined distances have places of their own, the others
ascend, and equal ones go by the centroids' numbers. -/
def Reach.standing (places : Nat → Int) (reach : Reach) : ℤ ×ₗ Score.Place ×ₗ ℕ :=
  toLex (reach.rank places, toLex (Score.grade reach.distance, reach.centroid))

theorem Reach.rank_of_defined {reach : Reach} (defined : reach.distance.isNaN = false)
    (places : Nat → Int) : reach.rank places = 0 := by
  rw [rank, defined]
  rfl

theorem Reach.rank_ne_zero {reach : Reach} (undefined : reach.distance.isNaN = true)
    (places : Nat → Int) : reach.rank places ≠ 0 := by
  rw [rank, undefined, if_pos rfl]
  split <;> omega

theorem Reach.isNaN_eq_of_rank_eq {first second : Reach} {places : Nat → Int}
    (same : first.rank places = second.rank places) :
    first.distance.isNaN = second.distance.isNaN := by
  cases one : first.distance.isNaN <;> cases two : second.distance.isNaN
  · rfl
  · exact absurd (same.symm.trans (rank_of_defined one places)) (rank_ne_zero two places)
  · exact absurd (same.trans (rank_of_defined two places)) (rank_ne_zero one places)
  · rfl

theorem Reach.probedBefore_iff (places : Nat → Int) (first second : Reach) :
    first.probedBefore places second = true ↔ first.standing places ≤ second.standing places := by
  rw [standing, standing, Prod.Lex.toLex_le_toLex, Prod.Lex.toLex_le_toLex, probedBefore,
    Bool.or_eq_true, Bool.and_eq_true, decide_eq_true_iff, beq_iff_eq]
  refine or_congr_right (and_congr_right fun same => ?_)
  have alike := isNaN_eq_of_rank_eq same
  cases one : first.distance.isNaN with
  | true =>
      have two := alike.symm.trans one
      simp [Score.not_lt_of_isNaN (Or.inl one), Score.not_lt_of_isNaN (Or.inl two),
        Score.grade_of_isNaN one, Score.grade_of_isNaN two]
  | false =>
      have two := alike.symm.trans one
      have less := Score.lt_iff one two
      have more := Score.lt_iff two one
      simp only [Bool.or_eq_true, Bool.and_eq_true, Bool.not_eq_true', decide_eq_true_iff,
        decide_eq_false_iff_not, less, more, not_lt]
      refine or_congr_right' fun notLess => and_congr_left' ?_
      exact ⟨fun notMore => le_antisymm notMore (not_lt.mp notLess), fun same => same.le⟩

namespace Centroids

def distance (centroids : List Embedding) (query : Embedding) (number : Nat) : Float32 :=
  squaredDistance query ((centroids[number]?).getD #[])

def reach (centroids : List Embedding) (query : Embedding) (number : Nat) : Reach :=
  ⟨number, distance centroids query number⟩

/-- Whether one list comes before another: its centroid is nearer to the query, or as near and its
number is smaller. Undefined distances come before the others or after them, as the host has
them. -/
def comesBefore [Host] (centroids : List Embedding) (query : Embedding) (first second : Nat) :
    Bool :=
  let place := fun number =>
    (reach centroids query number).rank (undefinedPlace centroids query)
  let near := distance centroids query first
  let far := distance centroids query second
  decide (place first < place second) ||
    (place first == place second &&
      (decide (near < far) || ((near == far || near.isNaN) && decide (first < second))))

theorem comesBefore_iff [Host] (centroids : List Embedding) (query : Embedding)
    (first second : Nat) :
    comesBefore centroids query first second = true ↔
      (reach centroids query first).standing (undefinedPlace centroids query) <
        (reach centroids query second).standing (undefinedPlace centroids query) := by
  simp only [comesBefore, Reach.standing, Prod.Lex.toLex_lt_toLex, Bool.or_eq_true,
    Bool.and_eq_true, decide_eq_true_eq]
  rw [beq_iff_eq]
  refine or_congr_right (and_congr_right fun same => ?_)
  have alike : (reach centroids query first).distance.isNaN =
      (reach centroids query second).distance.isNaN := Reach.isNaN_eq_of_rank_eq same
  unfold reach at alike ⊢
  dsimp only at alike ⊢
  cases one : (distance centroids query first).isNaN with
  | true =>
      have two := alike.symm.trans one
      simp [Score.not_lt_of_isNaN (Or.inl one), Score.grade_of_isNaN one, Score.grade_of_isNaN two]
  | false =>
      have two := alike.symm.trans one
      simp [Score.lt_iff one two, Score.beq_iff one two]

theorem reaches_eq (centroids : List Embedding) (query : Embedding) :
    reaches centroids query = (List.range centroids.length).map (reach centroids query) := by
  apply List.ext_getElem
  · simp
  · intro number bound _
    have inside : number < centroids.length := by simpa using bound
    simp [reaches, reach, distance, inside]

theorem mem_take_probeOrder_iff [Host] (centroids : List Embedding) (query : Embedding)
    {number : Nat} (inside : number < centroids.length) (probes : Nat) :
    number ∈ (probeOrder centroids query).take probes ↔
      (List.range centroids.length).countP
        (fun other => comesBefore centroids query other number) < probes := by
  rw [probeOrder, ← List.map_take, reaches_eq, Ordered.mem_map_take_mergeSort_iff
    (Reach.probedBefore_iff _) (fun _ => rfl) (fun first second same => ?_) List.nodup_range]
  · rw [List.mem_range, and_iff_right inside]
    refine iff_of_eq (congrArg (· < probes) (List.countP_congr fun other _ => ?_))
    rw [comesBefore_iff]
    exact decide_eq_true_iff
  · exact congrArg (fun key => (ofLex (ofLex key).2).2) same

end Centroids

namespace PartitionIndex

variable {index : PartitionIndex} {recent : Finset VectorId}

/-! What a search finds. -/

def InFirstLists [Host] (index : PartitionIndex) (query : Embedding) (probes : Nat)
    (id : VectorId) : Prop :=
  ∃ number list, index.lists[number]? = some list ∧ id ∈ list ∧
    (List.range index.lists.size).countP
      (fun other => Centroids.comesBefore index.centroids query other number) < probes

theorem Listed.nodup_probed [Host] (listed : index.Listed recent) (query : Embedding)
    (probes : Nat) : (index.probed query probes).Nodup := by
  have all := listed.probed_perm query _ (Nat.le_refl index.lists.size)
  refine List.Sublist.nodup (List.Sublist.flatMap ?_ _) (all.nodup_iff.mpr recent.nodup_toList)
  rw [List.take_of_length_le (Centroids.length_probeOrder .. |>.trans listed.aligned).le]
  exact List.take_sublist _ _

theorem Listed.mem_probed [Host] (listed : index.Listed recent) (query : Embedding) (probes : Nat)
    (id : VectorId) :
    id ∈ index.probed query probes ↔ index.InFirstLists query probes id := by
  rw [probed, List.mem_flatMap]
  constructor
  · rintro ⟨number, taken, member⟩
    cases found : index.lists[number]? with
    | none => rw [found] at member; exact absurd member List.not_mem_nil
    | some list =>
        have inside := (Array.getElem?_eq_some_iff.mp found).1
        rw [Centroids.mem_take_probeOrder_iff _ _ (listed.aligned ▸ inside), listed.aligned]
          at taken
        rw [found] at member
        exact ⟨number, list, found, member, taken⟩
  · rintro ⟨number, list, found, member, few⟩
    have inside := (Array.getElem?_eq_some_iff.mp found).1
    refine ⟨number, ?_, by rw [found]; exact member⟩
    rw [Centroids.mem_take_probeOrder_iff _ _ (listed.aligned ▸ inside), listed.aligned]
    exact few

theorem Listed.mem_list_iff (listed : index.Listed recent) {number : Nat} {list : List VectorId}
    (found : index.lists[number]? = some list) (id : VectorId) :
    id ∈ list ↔ index.assignment.get? id = some number := by
  rw [← List.count_pos_iff, listed.held number list found]
  split
  · exact iff_of_true Nat.one_pos ‹_›
  · exact iff_of_false (lt_irrefl 0) ‹_›

theorem Listed.existsUnique_list (listed : index.Listed recent) {id : VectorId}
    (member : id ∈ recent) :
    ∃! number : Nat, ∃ list, index.lists[number]? = some list ∧ id ∈ list := by
  obtain ⟨number, assigned⟩ := Option.isSome_iff_exists.mp
    ((listed.assigned id).trans (decide_eq_true member))
  have found := Array.getElem?_eq_getElem (listed.inside id number assigned)
  refine ⟨number, ⟨_, found, (listed.mem_list_iff found id).mpr assigned⟩, ?_⟩
  rintro other ⟨list, otherFound, held⟩
  have elsewhere := (listed.mem_list_iff otherFound id).mp held
  exact Option.some.inj (elsewhere.symm.trans assigned)

theorem Listed.search_answers [Host] (listed : index.Listed recent) {query : Embedding}
    (fits : query.size = index.store.dimension) (count : Nat) (knobs : Knobs) :
    ∃ hits, index.search query count knobs = .ok hits ∧ index.store.Answers query count hits :=
  ⟨_, search_of_fits fits count knobs,
    (Store.fetches_hitsOf _ _ (listed.nodup_probed query _)).answers count⟩

theorem Listed.search_isBest [Host] (listed : index.Listed recent) {query : Embedding}
    (fits : query.size = index.store.dimension) (defined : index.store.ScoresDefined query)
    (count : Nat) (knobs : Knobs) :
    ∃ hits, index.search query count knobs = .ok hits ∧
      Hit.IsBest (fun hit => index.store.Scored query hit ∧
        index.InFirstLists query (index.probeCount knobs) hit.id) count hits := by
  refine ⟨_, search_of_fits fits count knobs, ?_⟩
  refine (Store.isBest_rank_hitsOf defined (listed.nodup_probed query _) count).congr fun hit => ?_
  rw [listed.mem_probed]
  exact and_comm

/-! Training before all inserts. -/

def insertAll (index : PartitionIndex) (calls : List (VectorId × Embedding)) : PartitionIndex :=
  runCalls (fun index call => index.insert call.1 call.2) index calls

structure Covers (index : PartitionIndex) (flat : FlatIndex) : Prop where
  store : index.store = flat.store
  trained : 0 < index.lists.size
  listed : ∃ recent, index.Listed recent ∧ ∀ id, index.store.contains id = true → id ∈ recent

theorem Covers.search_eq [Host] {flat : FlatIndex} (covers : index.Covers flat) {query : Embedding}
    (defined : index.store.ScoresDefined query) (count : Nat) {knobs : Knobs}
    (all : index.probeCount knobs = index.lists.size) :
    index.search query count knobs = flat.search query count := by
  by_cases fits : query.size = index.store.dimension
  · obtain ⟨recent, listed, recentOfStored⟩ := covers.listed
    -- The lists hold every vector once, and all of them are probed.
    rw [search_of_fits fits, covers.store]
    symm
    refine FlatIndex.search_eq_rank (covers.store ▸ fits) (covers.store ▸ defined)
      (listed.nodup_probed query _) (fun id stored => ?_) count
    rw [(listed.probed_perm query _ all.ge).mem_iff, Finset.mem_toList]
    exact recentOfStored id (covers.store ▸ stored)
  · rw [search_of_unfit fits, covers.store, FlatIndex.search_of_unfit (covers.store ▸ fits)]

theorem Covers.insert {flat : FlatIndex} (covers : index.Covers flat) (id : VectorId)
    (row : Embedding) :
    (settle index (index.insert id row)).Covers (settle flat (flat.insert id row)) ∧
      (settle index (index.insert id row)).settings = index.settings ∧
      (settle index (index.insert id row)).lists.size = index.lists.size := by
  by_cases fits : row.size = index.store.dimension
  · obtain ⟨recent, listed, all⟩ := covers.listed
    have inserted := insert_of_fits covers.trained fits id
    have next := listed.insert inserted
    rw [inserted, FlatIndex.insert_of_fits (covers.store ▸ fits)]
    refine ⟨⟨congrArg (·.put id row) covers.store, ?_, _, next, fun other known => ?_⟩, rfl, ?_⟩
    · simpa [settle] using covers.trained
    · rw [Finset.mem_insert]
      exact ((Store.contains_put _ _ _ _).mp known).imp_right (all other)
    · simp [settle]
  · rw [insert_of_unfit covers.trained fits, FlatIndex.insert_of_unfit (covers.store ▸ fits)]
    exact ⟨covers, rfl, rfl⟩

theorem Covers.insertAll {flat : FlatIndex} (covers : index.Covers flat)
    (calls : List (VectorId × Embedding)) :
    (index.insertAll calls).Covers
        (runCalls (fun index call => index.insert call.1 call.2) flat calls) ∧
      (index.insertAll calls).settings = index.settings ∧
      (index.insertAll calls).lists.size = index.lists.size := by
  refine runCalls_agree _ _ (fun (after : PartitionIndex) (flat : FlatIndex) =>
    after.Covers flat ∧ after.settings = index.settings ∧
      after.lists.size = index.lists.size) ?_ calls index flat ⟨covers, rfl, rfl⟩
  rintro after flat call ⟨covers, settings, size⟩
  obtain ⟨next, sameSettings, sameSize⟩ := covers.insert call.1 call.2
  exact ⟨next, sameSettings.trans settings, sameSize.trans size⟩

theorem Covers.train [Host] {dimension : Nat} {metric : Metric} {settings : PartitionSettings}
    {trained : PartitionIndex} {buffer : Array Float32}
    (accepted : (PartitionIndex.empty dimension metric settings).train buffer = .ok trained)
    (rows : dimension ≤ buffer.size) :
    trained.Covers (FlatIndex.empty dimension metric) ∧ trained.settings = settings := by
  have listed := Listed.train accepted
  obtain ⟨positive, count, centroids, same, _, rfl⟩ := train_eq_ok accepted
  refine ⟨⟨rfl, ?_, ∅, listed, fun id known => ?_⟩, rfl⟩
  · rw [Array.size_replicate]
    exact partitionCount_pos _ (same ▸ Nat.div_pos rows positive)
  · exact absurd known (by simp [PartitionIndex.empty, Store.empty, Store.contains])

/-- An index that was trained on at least one row before its inserts has each of its vectors in
one list. A search finds the best vectors of the first lists in the order of their centroids, and
one that probes all lists finds just what the exact index finds. -/
theorem search_isBest_probed [Host] (dimension : Nat) (metric : Metric)
    (settings : PartitionSettings) (buffer : Array Float32) (trained : PartitionIndex)
    (accepted : (empty dimension metric settings).train buffer = .ok trained)
    (rows : dimension ≤ buffer.size) (calls : List (VectorId × Embedding)) (query : Embedding)
    (count : Nat) (knobs : Knobs)
    (defined : (trained.insertAll calls).store.ScoresDefined query) :
    let index := trained.insertAll calls
    let probes := min (max (if knobs.probes = 0 then settings.probes else knobs.probes) 1)
      index.lists.size
    (∀ id, index.store.contains id = true →
      ∃! number : Nat, ∃ list, index.lists[number]? = some list ∧ id ∈ list) ∧
    (query.size = dimension → ∃ hits, index.search query count knobs = .ok hits ∧
      Hit.IsBest (fun hit => index.store.Scored query hit ∧
        index.InFirstLists query probes hit.id) count hits) ∧
    (probes = index.lists.size →
      index.search query count knobs =
        (FlatIndex.run dimension metric calls).search query count) := by
  intro index probes
  obtain ⟨start, sameSettings⟩ := Covers.train accepted rows
  obtain ⟨covers, settingsKept, _⟩ := start.insertAll calls
  obtain ⟨recent, listed, recentOfStored⟩ := covers.listed
  have count_eq : index.probeCount knobs = probes := by
    rw [probeCount, settingsKept, sameSettings, Knobs.orElse]
  refine ⟨fun id stored => listed.existsUnique_list (recentOfStored id stored), ?_, ?_⟩
  · intro fits
    rw [← count_eq]
    refine listed.search_isBest ?_ defined count knobs
    rw [fits, covers.store]
    exact (FlatIndex.dimension_run dimension metric calls).symm
  · intro all
    exact covers.search_eq defined count (count_eq.trans all)

theorem search_isBest_probed_two :
    let calls : List (VectorId × Embedding) := [(1, #[1]), (2, #[5]), (1, #[4])]
    ∃ trained, (empty 1 .euclidean { partitions := 2 }).train #[0, 4] = .ok trained ∧ 1 ≤ 2 ∧
      (trained.insertAll calls).store.ScoresDefined #[1] ∧ (#[1] : Embedding).size = 1 ∧
      min (max 2 1) (trained.insertAll calls).lists.size = (trained.insertAll calls).lists.size ∧
      (∃ hits, (trained.insertAll calls).search #[1] 1 { probes := 2 } = .ok hits ∧
        Hit.IsBest (fun hit => (trained.insertAll calls).store.Scored #[1] hit ∧
          (trained.insertAll calls).InFirstLists #[1]
            (min (max 2 1) (trained.insertAll calls).lists.size) hit.id) 1 hits) ∧
      (trained.insertAll calls).search #[1] 1 { probes := 2 } =
        (FlatIndex.run 1 .euclidean calls).search #[1] 1 := by
  intro calls
  obtain ⟨trained, accepted⟩ :
      ∃ trained, (empty 1 .euclidean { partitions := 2 }).train #[0, 4] = .ok trained := ⟨_, rfl⟩
  have two : trained.lists.size = 2 := by
    obtain ⟨_, rows, centroids, count, _, rfl⟩ := train_eq_ok accepted
    rw [Array.size_replicate, count]
    rfl
  obtain ⟨covers, _, size⟩ := (Covers.train accepted (by decide)).1.insertAll calls
  have defined : (trained.insertAll calls).store.ScoresDefined #[1] := by
    rw [covers.store]
    exact Store.scoresDefined_of_all (by decide +kernel)
  have all : min (max 2 1) (trained.insertAll calls).lists.size =
      (trained.insertAll calls).lists.size := by
    rw [size, two]
    rfl
  obtain ⟨_, best, same⟩ := search_isBest_probed 1 .euclidean { partitions := 2 } #[0, 4] trained
    accepted (by decide) calls #[1] 1 { probes := 2 } defined
  exact ⟨trained, accepted, by decide, defined, rfl, all, best rfl, same all⟩

end PartitionIndex

end VectorSearch

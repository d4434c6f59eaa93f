import VectorSearch.Proofs.Code.Slots
import VectorSearch.Proofs.Flat
import VectorSearch.Proofs.Ordered
/-!
The candidates of a search by codes. A search finds the best of the vectors whose signs are nearest
to those of the query, and the best of all vectors when all are candidates.
-/

namespace VectorSearch

namespace Store

def signDistance (store : Store) (query : Embedding) (id : VectorId) : Nat :=
  SignCode.signDistance query ((store.get? id).getD #[])

def signsPrecede (store : Store) (query : Embedding) (first second : VectorId) : Bool :=
  decide (store.signDistance query first < store.signDistance query second) ||
    store.signDistance query first == store.signDistance query second && decide (first < second)

def IsCandidate (store : Store) (query : Embedding) (limit : Nat) (id : VectorId) : Prop :=
  store.contains id = true ∧
    store.ids.countP (fun other => store.signsPrecede query other id) < limit

end Store

namespace CodeIndex

variable {index : CodeIndex} {query : Embedding}

/-! The owners of the slots. -/

theorem Coded.nodup_owners (coded : index.Coded) : index.owners.toList.Nodup := by
  rw [List.nodup_iff_getElem?_ne_getElem?]
  intro slot other less bound same
  have found := List.getElem?_eq_getElem bound
  have later := (coded.owned _ other).mpr (Array.getElem?_toList.symm.trans found)
  have early := (coded.owned _ slot).mpr (Array.getElem?_toList.symm.trans (same.trans found))
  exact Nat.ne_of_lt less (Option.some.inj (early.symm.trans later))

theorem Coded.mem_owners (coded : index.Coded) (id : VectorId) :
    id ∈ index.owners.toList ↔ index.store.contains id = true := by
  rw [List.mem_iff_getElem?, ← coded.stored, Option.isSome_iff_exists]
  refine exists_congr fun slot => ?_
  rw [Array.getElem?_toList, coded.owned]

theorem Coded.owners_perm (coded : index.Coded) : index.owners.toList.Perm index.store.ids := by
  rw [List.perm_ext_iff_of_nodup coded.nodup_owners index.store.nodup_ids]
  intro id
  rw [coded.mem_owners, Store.mem_ids]

/-! The order of the candidates. -/

def signDistances (index : CodeIndex) (query : Embedding) : List (Nat × VectorId) :=
  index.owners.toList.map fun id => (index.store.signDistance query id, id)

theorem Coded.distance_ok (coded : index.Coded) (positive : 0 < index.store.dimension)
    (fits : query.size = index.store.dimension) {id : VectorId} {slot : Nat}
    (owner : index.owners[slot]? = some id) :
    ∃ code, SignCode.wrap (index.slotBytes slot) index.store.dimension = .ok code ∧
      (SignCode.ofRow query).hammingWide code = .ok (index.store.signDistance query id) := by
  obtain ⟨row, stored, size, bytes⟩ := coded.exists_row ((coded.owned id slot).mpr owner)
  rw [bytes, Store.signDistance, stored]
  exact ⟨_, SignCode.wrap_bytes (SignCode.ofRow row) size positive,
    SignCode.hammingWide_ofRow (fits.trans size.symm) true⟩

theorem Coded.distances_eq (coded : index.Coded) (positive : 0 < index.store.dimension)
    (fits : query.size = index.store.dimension) :
    index.distances (SignCode.ofRow query) = .ok (index.signDistances query) := by
  have each (entry : VectorId × Nat) (member : entry ∈ index.owners.toList.zipIdx) :
      (do
        let code ← SignCode.wrap (index.slotBytes entry.2) index.store.dimension
        return (← (SignCode.ofRow query).hammingWide code, entry.1)) =
      (.ok (index.store.signDistance query entry.1, entry.1) :
        Except Failure (Nat × VectorId)) := by
    obtain ⟨id, slot⟩ := entry
    rw [List.mk_mem_zipIdx_iff_getElem?, Array.getElem?_toList] at member
    obtain ⟨code, wrapped, counted⟩ := coded.distance_ok positive fits member
    rw [wrapped]
    exact congrArg (·.map fun distance => (distance, id)) counted
  rw [distances, mapM_ok each, signDistances]
  congr 1
  conv => rhs; rw [← List.zipIdx_map_fst 0 index.owners.toList, List.map_map]
  rfl

def candidates (index : CodeIndex) (query : Embedding) (limit : Nat) : List VectorId :=
  (((index.signDistances query).mergeSort comesBefore).take limit).map (·.2)

theorem comesBefore_iff (first second : Nat × VectorId) :
    comesBefore first second = true ↔ toLex first ≤ toLex second := by
  simp [comesBefore, Prod.Lex.toLex_le_toLex]

theorem signDistances_sorted_perm (index : CodeIndex) (query : Embedding) :
    (((index.signDistances query).mergeSort comesBefore).map (·.2)).Perm index.owners.toList := by
  have named : (index.signDistances query).map (·.2) = index.owners.toList := by
    rw [signDistances, List.map_map]
    exact List.map_id _
  exact ((List.mergeSort_perm _ _).map _).trans (named ▸ List.Perm.refl _)

theorem Coded.nodup_candidates (coded : index.Coded) (query : Embedding) (limit : Nat) :
    (index.candidates query limit).Nodup := by
  rw [candidates, List.map_take]
  exact ((index.signDistances_sorted_perm query).nodup_iff.mpr coded.nodup_owners).take

theorem Coded.candidates_perm (coded : index.Coded) (query : Embedding) {limit : Nat}
    (room : index.store.size ≤ limit) :
    (index.candidates query limit).Perm index.store.ids := by
  have perm := (index.signDistances_sorted_perm query).trans coded.owners_perm
  rw [candidates, List.map_take, List.take_of_length_le]
  · exact perm
  · rwa [perm.length_eq, Store.length_ids]

theorem Coded.mem_candidates (coded : index.Coded) (query : Embedding) (limit : Nat)
    (id : VectorId) :
    id ∈ index.candidates query limit ↔ index.store.IsCandidate query limit id := by
  rw [candidates, signDistances, Ordered.mem_map_take_mergeSort_iff comesBefore_iff (fun _ => rfl)
    (fun first second same => congrArg (fun key => (ofLex key).2) same) coded.nodup_owners,
    coded.mem_owners, Store.IsCandidate, coded.owners_perm.countP_eq]
  refine and_congr_right fun _ => iff_of_eq (congrArg (· < limit) ?_)
  refine List.countP_congr fun other _ => ?_
  simp [Store.signsPrecede, Prod.Lex.toLex_lt_toLex]

/-! Searches. -/

theorem found_of_unfit (unfit : query.size ≠ index.store.dimension) (count : Nat)
    (knobs : Knobs) :
    index.found query count knobs =
      .error (.dimensionMismatch index.store.dimension query.size) := by
  rw [found, Store.checkDimension_eq_error unfit]
  rfl

theorem search_of_unfit [Host] (unfit : query.size ≠ index.store.dimension) (count : Nat)
    (knobs : Knobs) :
    index.search query count knobs =
      .error (.dimensionMismatch index.store.dimension query.size) := by
  rw [search, found_of_unfit unfit]
  rfl

theorem Coded.candidates_of_empty (coded : index.Coded) (vacant : index.store.isEmpty = true)
    (query : Embedding) (limit : Nat) : index.candidates query limit = [] := by
  rw [List.eq_nil_iff_forall_not_mem]
  intro id member
  have known := ((coded.mem_candidates query limit id).mp member).1
  rw [(Store.isEmpty_iff index.store).mp vacant] at known
  exact Bool.false_ne_true known

theorem Coded.positive (coded : index.Coded) (some : index.store.isEmpty = false) :
    0 < index.store.dimension := by
  by_contra none
  refine Bool.false_ne_true (some.symm.trans ((Store.isEmpty_iff index.store).mpr fun id => ?_))
  exact eq_false_of_ne_true fun known => none (coded.proper id known)

theorem Coded.found_of_fits (coded : index.Coded) (fits : query.size = index.store.dimension)
    (count : Nat) (knobs : Knobs) :
    index.found query count knobs = .ok (if count = 0 then [] else index.store.hitsOf query
      (index.candidates query (index.candidateCount count knobs))) := by
  have checked := (Store.checkDimension_eq_ok_iff index.store query).mpr fits
  cases vacant : index.store.isEmpty with
  | true =>
      rw [found, checked, vacant, Bool.or_true, coded.candidates_of_empty vacant]
      exact congrArg Except.ok (ite_self _).symm
  | false =>
      have positive := coded.positive vacant
      rw [found, checked, vacant, Bool.or_false, SignCode.quantize_of_pos (fits ▸ positive)]
      cases count with
      | zero => rfl
      | succ count =>
          change (index.distances (SignCode.ofRow query)).bind _ = _
          rw [coded.distances_eq positive fits]
          rfl

theorem Coded.search_of_fits [Host] (coded : index.Coded)
    (fits : query.size = index.store.dimension) (count : Nat) (knobs : Knobs) :
    index.search query count knobs = .ok (Hit.rank (index.store.hitsOf query
      (index.candidates query (index.candidateCount count knobs))) count) := by
  rw [search, coded.found_of_fits fits]
  cases count with
  | zero => exact congrArg Except.ok (List.take_zero.trans List.take_zero.symm)
  | succ count => rfl

theorem Coded.search_answers [Host] (coded : index.Coded)
    (fits : query.size = index.store.dimension) (count : Nat) (knobs : Knobs) :
    ∃ hits, index.search query count knobs = .ok hits ∧ index.store.Answers query count hits :=
  ⟨_, coded.search_of_fits fits count knobs,
    (Store.fetches_hitsOf _ _ (coded.nodup_candidates query _)).answers count⟩

theorem Coded.search_isBest [Host] (coded : index.Coded) (fits : query.size = index.store.dimension)
    (defined : index.store.ScoresDefined query) (count : Nat) (knobs : Knobs) :
    ∃ hits, index.search query count knobs = .ok hits ∧
      Hit.IsBest (fun hit => index.store.Scored query hit ∧
        index.store.IsCandidate query (index.candidateCount count knobs) hit.id) count hits := by
  refine ⟨_, coded.search_of_fits fits count knobs, ?_⟩
  refine (Store.isBest_rank_hitsOf defined (coded.nodup_candidates query _) count).congr ?_
  intro hit
  rw [coded.mem_candidates]
  exact and_comm

theorem Coded.search_eq [Host] (coded : index.Coded) {flat : FlatIndex}
    (store : index.store = flat.store)
    (defined : index.store.ScoresDefined query) {count : Nat} {knobs : Knobs}
    (room : index.store.size ≤ index.candidateCount count knobs) :
    index.search query count knobs = flat.search query count := by
  by_cases fits : query.size = index.store.dimension
  · rw [coded.search_of_fits fits, store]
    symm
    refine FlatIndex.search_eq_rank (store ▸ fits) (store ▸ defined)
      (coded.nodup_candidates query _) (fun id stored => ?_) count
    rw [(coded.candidates_perm query room).mem_iff, Store.mem_ids, store]
    exact stored
  · rw [search_of_unfit fits, store, FlatIndex.search_of_unfit (store ▸ fits)]

/-! Runs. -/

theorem settings_run (dimension : Nat) (metric : Metric) (settings : CodeSettings)
    (calls : List (VectorId × Embedding)) :
    (run dimension metric settings calls).settings = settings ∧
      (run dimension metric settings calls).store.dimension = dimension := by
  refine runCalls_induction _ (fun index : CodeIndex =>
    index.settings = settings ∧ index.store.dimension = dimension) ?_ calls _ ⟨rfl, rfl⟩
  rintro index call after ⟨sameSettings, sameDimension⟩ accepted
  obtain ⟨_, _, rfl⟩ := insert_eq_ok accepted
  simpa using ⟨sameSettings, sameDimension⟩

theorem store_run {dimension : Nat} (positive : 0 < dimension) (metric : Metric)
    (settings : CodeSettings) (calls : List (VectorId × Embedding)) :
    (run dimension metric settings calls).store =
      (FlatIndex.run dimension metric calls).store := by
  refine (runCalls_agree _ _ (fun (index : CodeIndex) (flat : FlatIndex) =>
    index.store = flat.store ∧ 0 < index.store.dimension) ?_ calls _ _ ⟨rfl, positive⟩).1
  rintro index flat call ⟨store, some⟩
  by_cases fits : call.2.size = index.store.dimension
  · have coordinates : call.2.isEmpty = false :=
      Array.isEmpty_eq_false_iff.mpr (Array.size_pos_iff.mp (fits ▸ some))
    rw [insert_of_fits coordinates fits, FlatIndex.insert_of_fits (store ▸ fits)]
    simpa [settle] using ⟨congrArg (·.put call.1 call.2) store, some⟩
  · rw [FlatIndex.insert_of_unfit (store ▸ fits)]
    cases vacant : call.2.isEmpty with
    | true => exact insert_of_empty vacant call.1 ▸ ⟨store, some⟩
    | false => exact insert_of_unfit vacant fits call.1 ▸ ⟨store, some⟩

/-- After any inserts a search finds the best of the vectors whose signs are nearest to those of
the query, and just what the exact index finds when all vectors are candidates. Without coordinates
there are no signs: every insert is refused and nothing is found. -/
theorem search_isBest_candidates [Host] (dimension : Nat) (metric : Metric)
    (settings : CodeSettings)
    (calls : List (VectorId × Embedding)) (query : Embedding) (count : Nat) (knobs : Knobs)
    (defined : (run dimension metric settings calls).store.ScoresDefined query) :
    let index := run dimension metric settings calls
    let limit := max (max knobs.candidates
      (min (count * settings.candidateFactor) (2 ^ 64 - 1))) count
    (query.size = dimension → ∃ hits, index.search query count knobs = .ok hits ∧
      Hit.IsBest (fun hit => index.store.Scored query hit ∧
        index.store.IsCandidate query limit hit.id) count hits) ∧
    (0 < dimension → index.store.size ≤ limit →
      index.search query count knobs =
        (FlatIndex.run dimension metric calls).search query count) ∧
    (dimension = 0 → index.store.isEmpty = true) := by
  intro index limit
  have coded : index.Coded := coded_run dimension metric settings calls
  obtain ⟨sameSettings, sameDimension⟩ := settings_run dimension metric settings calls
  have limit_eq : index.candidateCount count knobs = limit := by
    rw [candidateCount, sameSettings]
    rfl
  refine ⟨fun fits => ?_, fun positive room => ?_, fun none => ?_⟩
  · rw [← limit_eq]
    exact coded.search_isBest (fits.trans sameDimension.symm) defined count knobs
  · exact coded.search_eq (store_run positive metric settings calls) defined (limit_eq ▸ room)
  · by_contra some
    have positive := coded.positive (eq_false_of_ne_true some)
    rw [sameDimension, none] at positive
    exact lt_irrefl 0 positive

theorem search_isBest_candidates_two :
    let calls : List (VectorId × Embedding) := [(1, #[2, -1]), (2, #[-1, 3]), (1, #[1, 1])]
    let index := run 2 .dotProduct { candidateFactor := 1 } calls
    index.store.ScoresDefined #[1, -1] ∧ (#[1, -1] : Embedding).size = 2 ∧ 0 < 2 ∧
    index.store.size ≤ max (max 2 (min (1 * 1) (2 ^ 64 - 1))) 1 ∧
    (∃ hits, index.search #[1, -1] 1 { candidates := 2 } = .ok hits ∧
      Hit.IsBest (fun hit => index.store.Scored #[1, -1] hit ∧
        index.store.IsCandidate #[1, -1] (max (max 2 (min (1 * 1) (2 ^ 64 - 1))) 1) hit.id)
        1 hits) ∧
    index.search #[1, -1] 1 { candidates := 2 } =
      (FlatIndex.run 2 .dotProduct calls).search #[1, -1] 1 := by
  intro calls index
  have defined : index.store.ScoresDefined #[1, -1] :=
    Store.scoresDefined_of_all (by decide +kernel)
  have room : index.store.size ≤ max (max 2 (min (1 * 1) (2 ^ 64 - 1))) 1 := by decide +kernel
  obtain ⟨best, same, _⟩ := search_isBest_candidates 2 .dotProduct { candidateFactor := 1 } calls
    #[1, -1] 1 { candidates := 2 } defined
  exact ⟨defined, rfl, Nat.two_pos, room, best rfl, same Nat.two_pos room⟩

/-- An embedding without coordinates is stored by the exact index only. -/
theorem not_forall_search_eq_flat :
    ¬ ∀ (dimension : Nat) (metric : Metric) (settings : CodeSettings)
      (calls : List (VectorId × Embedding)) (query : Embedding) (count : Nat) (knobs : Knobs),
      1 ≤ count → (run dimension metric settings calls).store.ScoresDefined query →
      (FlatIndex.run dimension metric calls).store.ScoresDefined query →
      (run dimension metric settings calls).store.size ≤ max (max knobs.candidates
        (min (count * settings.candidateFactor) (2 ^ 64 - 1))) count →
      (run dimension metric settings calls).search query count knobs =
        (FlatIndex.run dimension metric calls).search query count := by
  intro same
  have found := same 0 .cosine {} [(1, #[])] #[] 1 {} (Nat.le_refl 1)
    (Store.scoresDefined_of_all (by decide +kernel))
    (Store.scoresDefined_of_all (by decide +kernel)) (by decide +kernel)
  have lengths := congrArg (fun result => result.toOption.map List.length) found
  revert lengths
  decide +kernel

end CodeIndex

end VectorSearch

import VectorSearch.Proofs.Best
import VectorSearch.Proofs.Store
/-!
The best stored vectors. Ranking the hits of some stored vectors gives the best of these, and an
exact scan gives the best of all.
-/

namespace VectorSearch.Store

def Scored (store : Store) (query : Embedding) (hit : Hit) : Prop :=
  store.score query hit.id = some hit.score

def ScoresDefined (store : Store) (query : Embedding) : Prop :=
  ∀ id score, store.score query id = some score → score.isNaN = false

theorem scoresDefined_of_all {store : Store} {query : Embedding}
    (defined : store.ids.all (fun id =>
      (store.score query id).all fun score => !score.isNaN) = true) :
    store.ScoresDefined query := by
  intro id score scored
  have member : id ∈ store.ids := by
    rw [mem_ids, ← isSome_score store query, scored]
    rfl
  simpa [scored] using List.all_eq_true.mp defined id member

theorem contains_of_scored {store : Store} {query : Embedding} {hit : Hit}
    (scored : store.Scored query hit) : store.contains hit.id = true := by
  rw [← isSome_score store query, scored]
  rfl

theorem scored_iff (store : Store) (query : Embedding) (hit : Hit) :
    store.Scored query hit ↔
      ∃ row, store.get? hit.id = some row ∧ hit.score = similarity store.metric query row := by
  rw [Scored, score, Option.map_eq_some_iff]
  exact exists_congr fun row => and_congr_right fun _ => eq_comm

theorem isBest_rank_hitsOf_of_defined [Host] {store : Store} {query : Embedding}
    {ids : List VectorId}
    (defined : ∀ id ∈ ids, ∀ score, store.score query id = some score → score.isNaN = false)
    (distinct : ids.Nodup) (count : Nat) :
    Hit.IsBest (fun hit => hit.id ∈ ids ∧ store.Scored query hit) count
      (Hit.rank (store.hitsOf query ids) count) := by
  have proper (hit : Hit) (member : hit ∈ store.hitsOf query ids) : hit.score.isNaN = false := by
    obtain ⟨among, scored⟩ := (mem_hitsOf store query ids hit).mp member
    exact defined hit.id among hit.score scored
  exact (Hit.isBest_rank proper (store.nodup_map_id_hitsOf query distinct) count).congr fun hit =>
    (mem_hitsOf store query ids hit).symm

theorem isBest_rank_hitsOf [Host] {store : Store} {query : Embedding} {ids : List VectorId}
    (defined : store.ScoresDefined query) (distinct : ids.Nodup) (count : Nat) :
    Hit.IsBest (fun hit => hit.id ∈ ids ∧ store.Scored query hit) count
      (Hit.rank (store.hitsOf query ids) count) :=
  isBest_rank_hitsOf_of_defined (fun id _ => defined id) distinct count

/-- What any search gives: hits of stored vectors, none of them twice and no more than asked for,
in order unless a score is undefined. -/
structure Answers (store : Store) (query : Embedding) (count : Nat) (hits : List Hit) : Prop where
  distinct : (hits.map (·.id)).Nodup
  scored : ∀ hit ∈ hits, store.Scored query hit
  few : hits.length ≤ count
  ordered : store.ScoresDefined query → hits.Pairwise Hit.RanksAbove

theorem Answers.nil (store : Store) (query : Embedding) (count : Nat) :
    store.Answers query count [] :=
  ⟨List.nodup_nil, nofun, Nat.zero_le _, fun _ => List.Pairwise.nil⟩

structure Fetches (store : Store) (query : Embedding) (hits : List Hit) : Prop where
  distinct : (hits.map (·.id)).Nodup
  scored : ∀ hit ∈ hits, store.Scored query hit

theorem Fetches.nil (store : Store) (query : Embedding) : store.Fetches query [] :=
  ⟨List.nodup_nil, List.forall_mem_nil _⟩

theorem Fetches.length_le_size {store : Store} {query : Embedding} {hits : List Hit}
    (fetches : store.Fetches query hits) : hits.length ≤ store.size := by
  rw [← List.length_map (·.id), ← List.toFinset_card_of_nodup fetches.distinct]
  refine store.card_le_size _ fun id member => ?_
  obtain ⟨hit, found, rfl⟩ := List.mem_map.mp (List.mem_toFinset.mp member)
  exact contains_of_scored (fetches.scored hit found)

theorem Answers.length_le_size {store : Store} {query : Embedding} {count : Nat} {hits : List Hit}
    (answers : store.Answers query count hits) : hits.length ≤ store.size :=
  Fetches.length_le_size ⟨answers.distinct, answers.scored⟩

theorem fetches_hitsOf (store : Store) (query : Embedding) {ids : List VectorId}
    (distinct : ids.Nodup) : store.Fetches query (store.hitsOf query ids) :=
  ⟨store.nodup_map_id_hitsOf query distinct,
    fun hit member => ((mem_hitsOf store query ids hit).mp member).2⟩

theorem Fetches.defined {store : Store} {query : Embedding} {hits : List Hit}
    (fetches : store.Fetches query hits) (defined : store.ScoresDefined query) :
    ∀ hit ∈ hits, hit.score.isNaN = false :=
  fun hit member => defined hit.id hit.score (fetches.scored hit member)

theorem Fetches.answers [Host] {store : Store} {query : Embedding} {hits : List Hit}
    (fetches : store.Fetches query hits) (count : Nat) :
    store.Answers query count (Hit.rank hits count) where
  distinct := by
    rw [Hit.rank, List.map_take]
    exact (((Hit.sort_perm hits).map (·.id)).nodup_iff.mpr fetches.distinct).take
  scored hit member := fetches.scored hit (Hit.mem_of_mem_rank member)
  few := List.length_take_le _ _
  ordered defined := (Hit.isBest_rank (fetches.defined defined) fetches.distinct count).ordered

/-- What was fetched is ranked, or more than twenty vectors are stored and one of their scores is
undefined. -/
theorem Fetches.tryRank_cases [Host] {store : Store} {query : Embedding} {hits : List Hit}
    (fetches : store.Fetches query hits) (count : Nat) :
    Hit.tryRank (.ok hits) count = .ok (Hit.rank hits count) ∨
      Hit.tryRank (.ok hits) count = .error (.panicked Host.complaint) ∧
        20 < store.size ∧ ¬ store.ScoresDefined query := by
  refine (Hit.tryRank_cases hits count).imp_right ?_
  rintro ⟨many, ⟨hit, member, undefined⟩, broken⟩
  refine ⟨broken, many.trans_le fetches.length_le_size, fun defined => ?_⟩
  rw [fetches.defined defined hit member] at undefined
  exact Bool.false_ne_true undefined

theorem get?_of_mem_toList {store : Store} {id offset : Nat}
    (member : (id, offset) ∈ store.offsets.toList) : store.offsets.get? id = some offset := by
  rw [Std.TreeMap.get?_eq_getElem?]
  exact Std.TreeMap.mem_toList_iff_getElem?_eq_some.mp member

theorem hits_eq_hitsOf (store : Store) (query : Embedding) :
    store.hits query = store.hitsOf query store.ids := by
  have scan : ∀ entries : List (VectorId × Nat), (∀ entry ∈ entries, entry ∈ store.offsets.toList) →
      entries.map (fun entry => Hit.mk entry.1 (similarity store.metric query
        (Embedding.rowAt store.data store.dimension entry.2))) =
      store.hitsOf query (entries.map Prod.fst) := by
    intro entries
    induction entries with
    | nil => intro _; rfl
    | cons first rest ih =>
        intro inside
        have scored : store.score query first.1 = some (similarity store.metric query
            (Embedding.rowAt store.data store.dimension first.2)) := by
          rw [score, get?, get?_of_mem_toList (inside first (by simp))]
          rfl
        rw [List.map_cons, List.map_cons, hitsOf_cons store query scored,
          ih fun entry member => inside entry (by simp [member])]
  rw [ids, ← Std.TreeMap.map_fst_toList_eq_keys, ← scan _ fun entry member => member, hits, entries,
    List.map_map]
  rfl

theorem mem_hits {store : Store} {query : Embedding} (hit : Hit) :
    hit ∈ store.hits query ↔ store.Scored query hit := by
  rw [hits_eq_hitsOf, mem_hitsOf, and_iff_right_of_imp]
  · exact Iff.rfl
  · intro scored
    exact (mem_ids store hit.id).mpr (contains_of_scored scored)

theorem length_hits (store : Store) (query : Embedding) :
    (store.hits query).length = store.size := by
  have stored (id : VectorId) (member : id ∈ store.ids) := (mem_ids store id).mp member
  rw [← length_ids, hits_eq_hitsOf, ← congrArg List.length (map_id_hitsOf store query _ stored),
    List.length_map]

theorem isBest_rank_hits [Host] {store : Store} {query : Embedding}
    (defined : store.ScoresDefined query)
    (count : Nat) : Hit.IsBest (store.Scored query) count (Hit.rank (store.hits query) count) := by
  rw [hits_eq_hitsOf]
  refine (isBest_rank_hitsOf defined store.nodup_ids count).congr fun hit => ?_
  rw [and_iff_right_of_imp]
  exact fun scored => (mem_ids store hit.id).mpr (contains_of_scored scored)

end VectorSearch.Store

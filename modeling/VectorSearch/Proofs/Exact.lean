import Mathlib.Data.Set.Card
import VectorSearch.Proofs.Flat
import VectorSearch.Proofs.Store.Layout
/-!
What the exact index finds, told from its inserts alone: the best of the embeddings that were last
accepted, each of them once. Ranking is the same for every order in which hits are given, so these
results are the only ones.
-/

namespace VectorSearch

theorem Store.size_eq_ncard (store : Store) :
    store.size = {id | (store.get? id).isSome = true}.ncard := by
  have same : {id | (store.get? id).isSome = true} = ↑store.ids.toFinset := by
    ext id
    simp [isSome_get?, mem_ids]
  rw [same, Set.ncard_coe_finset, List.toFinset_card_of_nodup store.nodup_ids, length_ids]

namespace FlatIndex

/-- The embedding that some inserts leave for an identifier: the last one of the right length. -/
def latest (dimension : Nat) (calls : List (VectorId × Embedding)) (id : VectorId) :
    Option Embedding :=
  ((calls.filter fun call => call.1 = id ∧ call.2.size = dimension).getLast?).map (·.2)

def Current (dimension : Nat) (metric : Metric) (calls : List (VectorId × Embedding))
    (query : Embedding) (hit : Hit) : Prop :=
  ∃ row, latest dimension calls hit.id = some row ∧ hit.score = similarity metric query row

theorem latest_concat (dimension : Nat) (front : List (VectorId × Embedding))
    (call : VectorId × Embedding) (id : VectorId) :
    latest dimension (front ++ [call]) id =
      if call.1 = id ∧ call.2.size = dimension then some call.2 else latest dimension front id := by
  by_cases taken : call.1 = id ∧ call.2.size = dimension
  · simp [latest, taken]
  · simp [latest, taken]

theorem run_concat (dimension : Nat) (metric : Metric) (front : List (VectorId × Embedding))
    (call : VectorId × Embedding) :
    run dimension metric (front ++ [call]) =
      settle (run dimension metric front)
        ((run dimension metric front).insert call.1 call.2) := by
  simp [run, runCalls]

theorem get?_run (dimension : Nat) (metric : Metric) (calls : List (VectorId × Embedding)) :
    (run dimension metric calls).store.Packed ∧
      (run dimension metric calls).store.metric = metric ∧
      ∀ id, (run dimension metric calls).store.get? id = latest dimension calls id := by
  induction calls using List.reverseRecOn with
  | nil =>
      refine ⟨Store.Packed.empty dimension metric, rfl, fun id => ?_⟩
      simp [run, runCalls, empty, Store.empty, Store.get?, latest]
  | append_singleton front call ih =>
      obtain ⟨packed, sameMetric, known⟩ := ih
      have sameDimension := dimension_run dimension metric front
      rw [run_concat]
      by_cases fits : call.2.size = dimension
      · have inside := fits.trans sameDimension.symm
        rw [insert_of_fits inside]
        refine ⟨packed.put inside, (Store.metric_put ..).trans sameMetric, fun id => ?_⟩
        rw [latest_concat, ← known]
        simp only [settle, packed.get?_put inside, fits, and_true, eq_comm]
      · rw [insert_of_unfit (by rwa [sameDimension])]
        refine ⟨packed, sameMetric, fun id => ?_⟩
        simp [settle, latest_concat, fits, known]

theorem scored_run_iff (dimension : Nat) (metric : Metric) (calls : List (VectorId × Embedding))
    (query : Embedding) (hit : Hit) :
    (run dimension metric calls).store.Scored query hit ↔
      Current dimension metric calls query hit := by
  obtain ⟨_, sameMetric, known⟩ := get?_run dimension metric calls
  rw [Store.scored_iff, known, sameMetric]
  rfl

/-- After any inserts a search finds as many vectors as are asked for and stored, the best of the
embeddings last accepted: no other one ranks above one of these. Ranking gives the same for every
order of its hits, and fewer results are the first ones of more. -/
theorem search_run_best [Host] (dimension : Nat) (metric : Metric)
    (calls : List (VectorId × Embedding)) (query : Embedding) (count : Nat) :
    let index := run dimension metric calls
    index.store.size = {id | (latest dimension calls id).isSome = true}.ncard ∧
    (query.size ≠ dimension →
      index.search query count = .error (.dimensionMismatch dimension query.size)) ∧
    (query.size = dimension →
      (∀ hit, Current dimension metric calls query hit → hit.score.isNaN = false) →
      ∃ hits, index.search query count = .ok hits ∧
        hits.length = min count index.store.size ∧ (hits.map (·.id)).Nodup ∧
        Hit.IsBest (Current dimension metric calls query) count hits ∧
        ∀ other, Current dimension metric calls query other → other ∉ hits →
          ∀ hit ∈ hits, ¬ other.RanksAbove hit) ∧
    ∀ hits : List Hit, (hits.map (·.id)).Nodup → (∀ hit ∈ hits, hit.score.isNaN = false) →
      (∀ others, others.Perm hits → Hit.rank others count = Hit.rank hits count) ∧
      ∀ larger, count ≤ larger → Hit.rank hits count = (Hit.rank hits larger).take count := by
  intro index
  obtain ⟨_, _, known⟩ := get?_run dimension metric calls
  have sameDimension : index.store.dimension = dimension := dimension_run dimension metric calls
  refine ⟨?_, fun unfit => ?_, fun fits defined => ?_, fun hits distinct defined => ⟨?_, ?_⟩⟩
  · simp only [← known]
    exact index.store.size_eq_ncard
  · rw [search_of_unfit (sameDimension ▸ unfit), sameDimension]
  · have inside : query.size = index.store.dimension := fits.trans sameDimension.symm
    have proper : index.store.ScoresDefined query := fun id score scored =>
      defined ⟨id, score⟩ ((scored_run_iff dimension metric calls query ⟨id, score⟩).mp scored)
    have best := (Store.isBest_rank_hits proper count).congr fun hit =>
      (scored_run_iff dimension metric calls query hit).symm
    obtain ⟨hits, found, answers⟩ := search_answers inside count
    obtain rfl : Hit.rank (index.store.hits query) count = hits :=
      Except.ok.inj ((search_of_fits inside count).symm.trans found)
    refine ⟨_, found, ?_, answers.distinct, best, fun other left missing hit member above => ?_⟩
    · rw [Hit.length_rank, Store.length_hits]
    · have ahead := ((best.complete other left).resolve_left missing).2 hit member
      have otherDefined := defined other left
      have hitDefined := defined hit (best.sound hit member)
      rw [Hit.ranksAbove_iff hitDefined otherDefined] at ahead
      rw [Hit.ranksAbove_iff otherDefined hitDefined] at above
      exact lt_asymm ahead above
  · exact fun others perm => Hit.rank_eq_of_perm perm defined distinct count
  · exact fun larger fewer => (Hit.take_rank hits fewer).symm

theorem search_run_best_three :
    let calls : List (VectorId × Embedding) :=
      [(3, #[1]), (1, #[2]), (3, #[5]), (2, #[0, 0]), (2, #[5])]
    let index := run 1 .dotProduct calls
    let ranked : List Hit := [⟨4, 0.5⟩, ⟨1, 0⟩, ⟨2, -0⟩]
    (#[1, 1] : Embedding).size ≠ 1 ∧
    index.search #[1, 1] 2 = .error (.dimensionMismatch 1 2) ∧
    (#[1] : Embedding).size = 1 ∧
    (∀ hit, Current 1 .dotProduct calls #[1] hit → hit.score.isNaN = false) ∧
    (∃ hits, index.search #[1] 2 = .ok hits ∧ hits.length = min 2 index.store.size ∧
      Hit.IsBest (Current 1 .dotProduct calls #[1]) 2 hits) ∧
    (ranked.map (·.id)).Nodup ∧ (∀ hit ∈ ranked, hit.score.isNaN = false) ∧
    ranked.reverse.Perm ranked ∧ Hit.rank ranked.reverse 2 = Hit.rank ranked 2 ∧
    2 ≤ 3 ∧ Hit.rank ranked 2 = (Hit.rank ranked 3).take 2 := by
  intro calls index ranked
  obtain ⟨_, refused, _, _⟩ := search_run_best 1 .dotProduct calls #[1, 1] 2
  obtain ⟨_, _, searched, ranking⟩ := search_run_best 1 .dotProduct calls #[1] 2
  have stored : index.store.ScoresDefined #[1] := Store.scoresDefined_of_all (by decide +kernel)
  have defined (hit : Hit) (current : Current 1 .dotProduct calls #[1] hit) :
      hit.score.isNaN = false :=
    stored hit.id hit.score ((scored_run_iff 1 .dotProduct calls #[1] hit).mpr current)
  obtain ⟨hits, found, size, _, best, _⟩ := searched rfl defined
  have distinct : (ranked.map (·.id)).Nodup := by decide
  have proper : ∀ hit ∈ ranked, hit.score.isNaN = false := by decide +kernel
  have perm : ranked.reverse.Perm ranked := ranked.reverse_perm
  obtain ⟨same, first⟩ := ranking ranked distinct proper
  exact ⟨by decide, refused (by decide), rfl, defined, ⟨hits, found, size, best⟩, distinct, proper,
    perm, same _ perm, by decide, first 3 (by decide)⟩

end FlatIndex

end VectorSearch

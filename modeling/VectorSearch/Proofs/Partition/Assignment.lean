import VectorSearch.Proofs.Partition.Probes
import VectorSearch.Proofs.Store.Layout
/-!
Which list a vector is assigned to. Inserts pick the first of the nearest centroids and searches
put all centroids in order; the two agree, so that a search for the embedding of an assigned vector
probes the list of that vector first.
-/

namespace VectorSearch

namespace Reach

variable (places : Nat → Int)

theorem standing_le_iff {first second : Reach} (firstDefined : first.distance.isNaN = false)
    (secondDefined : second.distance.isNaN = false) :
    first.standing places ≤ second.standing places ↔
      Score.grade first.distance < Score.grade second.distance ∨
        Score.grade first.distance = Score.grade second.distance ∧
          first.centroid ≤ second.centroid := by
  rw [standing, standing, rank_of_defined firstDefined, rank_of_defined secondDefined,
    Prod.Lex.toLex_le_toLex, Prod.Lex.toLex_le_toLex]
  simp

theorem nearer_standing_le {best other : Reach} (bestDefined : best.distance.isNaN = false)
    (otherDefined : other.distance.isNaN = false) (later : best.centroid ≤ other.centroid) :
    (nearer best other).distance.isNaN = false ∧
      (nearer best other).standing places ≤ best.standing places ∧
      (nearer best other).standing places ≤ other.standing places := by
  have less := Score.lt_iff otherDefined bestDefined
  unfold nearer
  split
  · rename_i closer
    exact ⟨otherDefined,
      (standing_le_iff places otherDefined bestDefined).mpr (Or.inl (less.mp closer)), le_refl _⟩
  · rename_i farther
    rw [less, not_lt] at farther
    refine ⟨bestDefined, le_refl _, (standing_le_iff places bestDefined otherDefined).mpr ?_⟩
    exact farther.lt_or_eq.imp_right fun same => ⟨same, later⟩

theorem foldl_nearer_standing_le (reaches : List Reach) :
    ∀ best : Reach, best.distance.isNaN = false →
      (∀ reach ∈ reaches, reach.distance.isNaN = false ∧ best.centroid ≤ reach.centroid) →
      (reaches.Pairwise fun first second => first.centroid ≤ second.centroid) →
      let nearest := reaches.foldl nearer best
      (nearest = best ∨ nearest ∈ reaches) ∧ nearest.standing places ≤ best.standing places ∧
        ∀ reach ∈ reaches, nearest.standing places ≤ reach.standing places := by
  induction reaches with
  | nil => intro best _ _ _; exact ⟨Or.inl rfl, le_refl _, by simp⟩
  | cons first rest ih =>
      intro best bestDefined proper ascending
      obtain ⟨behind, tail⟩ := List.pairwise_cons.mp ascending
      obtain ⟨firstDefined, later⟩ := proper first (by simp)
      obtain ⟨defined, beforeBest, beforeFirst⟩ :=
        nearer_standing_le places bestDefined firstDefined later
      have either : nearer best first = first ∨ nearer best first = best := ite_eq_or_eq ..
      have after (reach : Reach) (member : reach ∈ rest) :
          reach.distance.isNaN = false ∧ (nearer best first).centroid ≤ reach.centroid := by
        obtain ⟨reachDefined, above⟩ := proper reach (by simp [member])
        refine ⟨reachDefined, ?_⟩
        rcases either with new | old
        · rw [new]
          exact behind reach member
        · rw [old]
          exact above
      obtain ⟨found, ahead, below⟩ := ih (nearer best first) defined after tail
      refine ⟨?_, ahead.trans beforeBest, fun reach member => ?_⟩
      · rcases found with same | inside
        · rcases either with new | old
          · exact Or.inr (List.mem_cons.mpr (Or.inl (same.trans new)))
          · exact Or.inl (same.trans old)
        · exact Or.inr (List.mem_cons_of_mem _ inside)
      · rcases List.mem_cons.mp member with rfl | inside
        · exact ahead.trans beforeFirst
        · exact below reach inside

end Reach

namespace Centroids

variable {centroids : List Embedding} {row : Embedding}

def DistancesDefined (centroids : List Embedding) (row : Embedding) : Prop :=
  ∀ centroid ∈ centroids, (squaredDistance row centroid).isNaN = false

instance : Decidable (DistancesDefined centroids row) :=
  inferInstanceAs (Decidable (∀ centroid ∈ centroids, _))

section

variable (defined : DistancesDefined centroids row)
include defined

theorem foldl_nearer_first {limit : Float32} (limitDefined : limit.isNaN = false)
    (top : ∀ score, Score.grade score ≤ Score.grade limit) (places : Nat → Int) {other : Nat}
    (inside : other < centroids.length) :
    let first := (reaches centroids row).foldl Reach.nearer ⟨0, limit⟩
    (reach centroids row first.centroid).standing places ≤
      (reach centroids row other).standing places := by
  intro first
  have proper (number : Nat) (bound : number < centroids.length) :
      (reach centroids row number).distance.isNaN = false := by
    rw [reach, distance, List.getElem?_eq_getElem bound]
    exact defined _ (List.getElem_mem bound)
  obtain ⟨found, _, below⟩ := Reach.foldl_nearer_standing_le places
    ((List.range centroids.length).map (reach centroids row)) ⟨0, limit⟩ limitDefined
    (by
      intro reach member
      obtain ⟨number, bound, rfl⟩ := List.mem_map.mp member
      exact ⟨proper number (List.mem_range.mp bound), Nat.zero_le _⟩)
    (List.pairwise_map.mpr List.pairwise_le_range)
  unfold first
  rw [reaches_eq]
  generalize ((List.range centroids.length).map (reach centroids row)).foldl Reach.nearer ⟨0, limit⟩
    = first at found below ⊢
  refine le_trans ?_ (below _ (List.mem_map_of_mem (List.mem_range.mpr inside)))
  rcases found with rfl | member
  · -- Nothing is nearer than the limit, and the first centroid is as near as that.
    have near := @Reach.standing_le_iff places (reach centroids row 0) ⟨0, limit⟩
      (proper 0 (Nat.zero_lt_of_lt inside)) limitDefined
    exact near.mpr ((top (distance centroids row 0)).lt_or_eq.imp_right fun same =>
      ⟨same, Nat.le_refl 0⟩)
  · obtain ⟨number, _, rfl⟩ := List.mem_map.mp member
    exact le_refl _

theorem comesBefore_nearest [Host] {other : Nat} (inside : other < centroids.length) :
    comesBefore centroids row other (nearest centroids row) = false := by
  rw [← Bool.not_eq_true, comesBefore_iff, not_lt]
  exact foldl_nearer_first defined (by decide +kernel) Score.grade_le_infinity _ inside

theorem countP_comesBefore_nearest [Host] :
    (List.range centroids.length).countP
      (fun other => comesBefore centroids row other (nearest centroids row)) = 0 := by
  rw [List.countP_eq_zero]
  intro other bound
  rw [comesBefore_nearest defined (List.mem_range.mp bound)]
  exact Bool.false_ne_true

theorem head?_probeOrder [Host] (nonempty : 0 < centroids.length) :
    (probeOrder centroids row).head? = some (nearest centroids row) := by
  have first := (mem_take_probeOrder_iff centroids row (nearest_lt centroids row nonempty) 1).mpr
    (countP_comesBefore_nearest defined ▸ Nat.one_pos)
  cases order : probeOrder centroids row with
  | nil => simp [order] at first
  | cons number rest => simpa [order, eq_comm] using first

end

end Centroids

namespace PartitionIndex

/-- Every assigned vector is stored, and assigned to the centroid nearest to its embedding. -/
structure Assigned (index : PartitionIndex) : Prop where
  packed : index.store.Packed
  listed : ∃ recent, index.Listed recent
  nearest : ∀ id number, index.assignment.get? id = some number →
    ∃ row, index.store.get? id = some row ∧ number = Centroids.nearest index.centroids row

theorem Assigned.empty (dimension : Nat) (metric : Metric) (settings : PartitionSettings) :
    (empty dimension metric settings).Assigned where
  packed := Store.Packed.empty dimension metric
  listed := ⟨∅, Listed.empty dimension metric settings⟩
  nearest id number found := by simp [PartitionIndex.empty] at found

variable {index after : PartitionIndex}

theorem Assigned.train [Host] (assigned : index.Assigned) {buffer : Array Float32}
    (accepted : index.train buffer = .ok after) : after.Assigned := by
  have listed := Listed.train accepted
  obtain ⟨_, rows, centroids, _, _, rfl⟩ := train_eq_ok accepted
  exact ⟨assigned.packed, ⟨∅, listed⟩, fun id number found => by simp at found⟩

theorem get?_of_insert (packed : index.store.Packed) {id : VectorId} {row : Embedding}
    (accepted : index.insert id row = .ok after) :
    after.store.Packed ∧ after.centroids = index.centroids ∧ ∀ other,
      after.store.get? other = (if other = id then some row else index.store.get? other) ∧
      after.assignment.get? other =
        if other = id then some (Centroids.nearest index.centroids row)
        else index.assignment.get? other := by
  obtain ⟨_, fits, rfl⟩ := insert_eq_ok accepted
  refine ⟨packed.put fits, rfl, fun other => ⟨packed.get?_put fits other, ?_⟩⟩
  simp only [get?_insert, eq_comm]

theorem Assigned.insert (assigned : index.Assigned) {id : VectorId} {row : Embedding}
    (accepted : index.insert id row = .ok after) : after.Assigned := by
  obtain ⟨recent, listed⟩ := assigned.listed
  obtain ⟨packed, same, lookup⟩ := get?_of_insert assigned.packed accepted
  refine ⟨packed, ⟨_, listed.insert accepted⟩, fun other number found => ?_⟩
  obtain ⟨stored, place⟩ := lookup other
  rw [place] at found
  rw [stored, same]
  split at found
  · exact ⟨row, if_pos ‹_›, (Option.some.inj found).symm⟩
  · rw [if_neg ‹_›]
    exact assigned.nearest other number found

theorem assigned_run [Host] (dimension : Nat) (metric : Metric) (settings : PartitionSettings)
    (calls : List PartitionCall) : (run dimension metric settings calls).Assigned := by
  refine runCalls_induction _ Assigned ?_ calls _ (Assigned.empty dimension metric settings)
  intro index request after assigned accepted
  cases request with
  | train buffer => exact assigned.train accepted
  | insert id row => exact assigned.insert accepted

theorem Listed.mem_probed_of_nearest [Host] {recent : Finset VectorId}
    (listed : index.Listed recent) {id : VectorId} {row : Embedding}
    (found : index.assignment.get? id = some (Centroids.nearest index.centroids row))
    (defined : Centroids.DistancesDefined index.centroids row) (knobs : Knobs) :
    id ∈ index.probed row (index.probeCount knobs) := by
  have inside := listed.inside id _ found
  have list := Array.getElem?_eq_getElem inside
  have some : 0 < index.probeCount knobs :=
    Nat.lt_min.mpr ⟨Nat.lt_of_lt_of_le Nat.one_pos (Nat.le_max_right _ _), Nat.zero_lt_of_lt inside⟩
  refine (listed.mem_probed row _ id).mpr ⟨_, _, list, (listed.mem_list_iff list id).mpr found, ?_⟩
  rw [← listed.aligned, Centroids.countP_comesBefore_nearest defined]
  exact some

/-- After any trainings and inserts the list that holds a vector is the one it is assigned to, that
of the centroid nearest to its present embedding. A search for this embedding probes that list
first, so the vector is among the candidates and the first result scores no lower than it does. -/
theorem run_assigned [Host] (dimension : Nat) (metric : Metric) (settings : PartitionSettings)
    (calls : List PartitionCall) :
    let index := run dimension metric settings calls
    (∀ number list, index.lists[number]? = some list → ∀ id,
      (id ∈ list ↔ index.assignment.get? id = some number) ∧ list.count id ≤ 1) ∧
    ∀ id number, index.assignment.get? id = some number →
      number < index.lists.size ∧ ∃ row, index.store.get? id = some row ∧
        number = Centroids.nearest index.centroids row ∧
        (Centroids.DistancesDefined index.centroids row →
          (Centroids.probeOrder index.centroids row).head? = some number ∧
          ∀ knobs, let candidates :=
              index.store.hitsOf row (index.probed row (index.probeCount knobs))
            ∃ score, index.store.score row id = some score ∧ ⟨id, score⟩ ∈ candidates ∧
              ∀ count, 1 ≤ count → (∀ hit ∈ candidates, hit.score.isNaN = false) →
                ∃ first rest, index.search row count knobs = .ok (first :: rest) ∧
                  score ≤ first.score) := by
  intro index
  obtain ⟨packed, ⟨recent, listed⟩, nearest⟩ : index.Assigned :=
    assigned_run dimension metric settings calls
  refine ⟨fun number list found id => ⟨listed.mem_list_iff found id, ?_⟩, ?_⟩
  · rw [listed.held number list found]
    split <;> decide
  · intro id number found
    obtain ⟨row, stored, rfl⟩ := nearest id number found
    have inside := listed.inside id _ found
    refine ⟨inside, row, stored, rfl, fun defined => ⟨?_, fun knobs => ?_⟩⟩
    · exact Centroids.head?_probeOrder defined (listed.aligned ▸ Nat.zero_lt_of_lt inside)
    · have probed := listed.mem_probed_of_nearest found defined knobs
      have scored : index.store.score row id = some (similarity index.store.metric row row) := by
        rw [Store.score, stored]
        rfl
      have candidate := (Store.mem_hitsOf index.store row _ ⟨id, _⟩).mpr ⟨probed, scored⟩
      refine ⟨_, scored, candidate, fun count some proper => ?_⟩
      rw [search_of_fits (packed.size_of_get? stored)]
      obtain ⟨first, rest, ranked, above⟩ := Hit.exists_first_of_mem proper
        (index.store.nodup_map_id_hitsOf row (listed.nodup_probed row _)) candidate some
      exact ⟨first, rest, congrArg Except.ok ranked, above⟩

theorem run_assigned_two :
    let calls : List PartitionCall := [.train #[0, 8], .insert 5 #[9], .train #[3, 3],
      .insert 6 #[1e30], .insert 5 #[4], .insert 5 #[2]]
    ∃ index, run 1 .euclidean { partitions := 2, probes := 1 } calls = index ∧
      index.lists = #[[6, 5], []] ∧ index.assignment.get? 6 = some 0 ∧
      index.store.get? 6 = some #[1e30] ∧
      Centroids.DistancesDefined index.centroids #[1e30] ∧
      (Centroids.probeOrder index.centroids #[1e30]).head? = some 0 ∧
      ∃ score first rest, index.store.score #[1e30] 6 = some score ∧
        index.search #[1e30] 1 {} = .ok (first :: rest) ∧ score ≤ first.score := by
  intro calls
  have general := run_assigned 1 .euclidean { partitions := 2, probes := 1 } calls
  obtain ⟨index, same⟩ : ∃ index, run 1 .euclidean { partitions := 2, probes := 1 } calls = index :=
    ⟨_, rfl⟩
  obtain ⟨lists, assigned, stored, distances, scores⟩ :
      index.lists = #[[6, 5], []] ∧ index.assignment.get? 6 = some 0 ∧
        index.store.get? 6 = some #[1e30] ∧
        Centroids.DistancesDefined index.centroids #[1e30] ∧
        index.store.ids.all (fun id =>
          (index.store.score #[1e30] id).all fun score => !score.isNaN) = true := by
    subst same
    decide +kernel
  rw [same] at general
  obtain ⟨_, row, found, _, searched⟩ := general.2 6 0 assigned
  obtain rfl : row = #[1e30] := Option.some.inj (found.symm.trans stored)
  obtain ⟨order, answers⟩ := searched distances
  obtain ⟨score, scored, _, best⟩ := answers {}
  obtain ⟨first, rest, result, above⟩ := best 1 (le_refl 1) fun hit member =>
    Store.scoresDefined_of_all scores hit.id hit.score ((Store.mem_hitsOf _ _ _ hit).mp member).2
  exact ⟨index, same, lists, assigned, stored, distances, order, score, first, rest, scored, result,
    above⟩

end PartitionIndex

end VectorSearch

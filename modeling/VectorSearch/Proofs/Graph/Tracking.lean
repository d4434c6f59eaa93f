import VectorSearch.Proofs.Graph.Exhaustion
import VectorSearch.Proofs.Queue.Order
/-!
Full beams. The worst node of a beam never gets worse once the beam is full, so a node that is left
out or dropped is at most as good as every node that the beam keeps, now and later.
-/

namespace VectorSearch

/-! The order of hits in the two queues. -/

namespace Hit

theorem grade_le_of_standing {first second : Hit} (before : first.standing ≤ second.standing) :
    Score.grade second.score ≤ Score.grade first.score := by
  rw [standing, standing, Prod.Lex.toLex_le_toLex, OrderDual.toDual_lt_toDual] at before
  rcases before with higher | ⟨same, _⟩
  · exact higher.le
  · exact (OrderDual.toDual_inj.mp same).ge

def reverseStanding (hit : Hit) : (Score.Placeᵒᵈ ×ₗ ℕ)ᵒᵈ := OrderDual.toDual hit.standing

theorem ranks_bestFirst {items : Array Hit} (defined : ∀ hit ∈ items, hit.score.isNaN = false) :
    PriorityQueue.Ranks Beam.bestFirst standing items :=
  fun first firstIn second secondIn =>
    precedes_iff (defined first firstIn) (defined second secondIn)

theorem ranks_worstFirst {items : Array Hit} (defined : ∀ hit ∈ items, hit.score.isNaN = false) :
    PriorityQueue.Ranks Beam.worstFirst reverseStanding items :=
  fun first firstIn second secondIn => by
    rw [Beam.worstFirst, precedes_iff (defined second secondIn) (defined first firstIn),
      reverseStanding, reverseStanding, OrderDual.toDual_lt_toDual]

end Hit

namespace Beam

variable {score : VectorId → Option Float32} {width : Nat} {beam : Beam}

def room (width : Nat) : Nat := max width 1

/-- Whether a node with this value is kept, or the beam is full of nodes that are as good. -/
def Placed (width : Nat) (beam : Beam) (id : VectorId) (value : Float32) : Prop :=
  id ∈ beam.results.items.toList.map (·.id) ∨ beam.results.size = room width ∧
    ∀ hit ∈ beam.results.items.toList, Score.grade value ≤ Score.grade hit.score

/-- A beam over nodes with defined scores: the queues are in order, and a node that was seen is kept
unless the beam is full of nodes that are as good. -/
structure Tracks (reached : VectorId → Prop) (score : VectorId → Option Float32) (width : Nat)
    (beam : Beam) : Prop extends Sound reached score beam where
  scored : ∀ hit ∈ beam.candidates.items.toList, score hit.id = some hit.score
  bestAhead : PriorityQueue.Heaped Hit.standing beam.candidates.items
  worstAhead : PriorityQueue.Heaped Hit.reverseStanding beam.results.items
  few : beam.results.size ≤ room width
  leftOut : ∀ id value, beam.seen.contains id = true → score id = some value →
    beam.Placed width id value

variable {reached : VectorId → Prop}
  (defined : ∀ id value, reached id → score id = some value → value.isNaN = false)

/-! Keeping a hit. -/

theorem heaped_candidates_keep {hit : Hit}
    (ordered : PriorityQueue.Heaped Hit.standing beam.candidates.items)
    (proper : ∀ other ∈ hit :: beam.candidates.items.toList, other.score.isNaN = false) :
    PriorityQueue.Heaped Hit.standing (beam.keep width hit).candidates.items := by
  refine ordered.push (Hit.ranks_bestFirst fun other member => proper other ?_)
  rw [Array.mem_push, ← Array.mem_toList_iff] at member
  exact List.mem_cons.mpr member.symm

theorem results_keep (width : Nat) (hit : Hit)
    (ordered : PriorityQueue.Heaped Hit.reverseStanding beam.results.items)
    (proper : ∀ other ∈ hit :: beam.results.items.toList, other.score.isNaN = false) :
    PriorityQueue.Heaped Hit.reverseStanding (beam.keep width hit).results.items ∧
      ((beam.results.size < width ∧ (beam.keep width hit).results.items.toList.Perm
          (hit :: beam.results.items.toList)) ∨
        width ≤ beam.results.size ∧ ∃ dropped,
          (dropped :: (beam.keep width hit).results.items.toList).Perm
            (hit :: beam.results.items.toList) ∧
          ∀ other ∈ hit :: beam.results.items.toList,
            Score.grade dropped.score ≤ Score.grade other.score) := by
  have perm := PriorityQueue.push_perm worstFirst beam.results hit
  have size := PriorityQueue.size_push worstFirst beam.results hit
  have pushed : PriorityQueue.Heaped Hit.reverseStanding
      (beam.results.push worstFirst hit).items := by
    refine ordered.push (Hit.ranks_worstFirst fun other member => proper other ?_)
    rw [Array.mem_push, ← Array.mem_toList_iff] at member
    exact List.mem_cons.mpr member.symm
  simp only [keep, size]
  split
  · rename_i full
    cases popped : (beam.results.push worstFirst hit).pop? worstFirst with
    | none =>
        have length := perm.length_eq
        rw [PriorityQueue.toList_of_pop?_eq_none popped] at length
        simp at length
    | some answer =>
        obtain ⟨dropped, rest⟩ := answer
        have ranks : PriorityQueue.Ranks worstFirst Hit.reverseStanding
            (beam.results.push worstFirst hit).items :=
          Hit.ranks_worstFirst fun other member =>
            proper other (perm.mem_iff.mp (Array.mem_toList_iff.mpr member))
        obtain ⟨heaped, least⟩ := pushed.pop? ranks popped
        refine ⟨heaped, Or.inr ⟨by omega, dropped,
          (PriorityQueue.pop?_perm popped).symm.trans perm, fun other member => ?_⟩⟩
        have behind := least other (perm.mem_iff.mpr member)
        exact Hit.grade_le_of_standing (OrderDual.toDual_le_toDual.mp behind)
  · exact ⟨pushed, Or.inl ⟨by omega, perm⟩⟩

theorem Tracks.worst_le (tracks : beam.Tracks reached score width) {worst hit : Hit}
    (begins : beam.results.peek? = some worst) (member : hit ∈ beam.results.items.toList) :
    Score.grade worst.score ≤ Score.grade hit.score :=
  Hit.grade_le_of_standing
    (OrderDual.toDual_le_toDual.mp (tracks.worstAhead.peek?_le begins member))

theorem Tracks.exists_worst (tracks : beam.Tracks reached score width) :
    ∃ worst, beam.results.peek? = some worst ∧ worst ∈ beam.results.items.toList := by
  have occupied := tracks.occupied
  rw [PriorityQueue.size] at occupied
  exact ⟨beam.results.items[0], Array.getElem?_eq_getElem occupied, by simp⟩

include defined in
theorem Tracks.full_of_refused (tracks : beam.Tracks reached score width) {id : VectorId}
    {value : Float32} (inside : reached id) (found : score id = some value)
    (refused : beam.accepts width value = false) :
    beam.results.size = room width ∧
      ∀ hit ∈ beam.results.items.toList, Score.grade value ≤ Score.grade hit.score := by
  obtain ⟨worst, begins, worstIn⟩ := tracks.exists_worst
  rw [accepts, begins, Bool.or_eq_false_iff, decide_eq_false_iff_not, decide_eq_false_iff_not]
    at refused
  obtain ⟨full, notBetter⟩ := refused
  refine ⟨?_, fun hit member => le_trans ?_ (tracks.worst_le begins member)⟩
  · have few := tracks.few
    have occupied := tracks.occupied
    rw [room] at few ⊢
    omega
  · obtain ⟨worstReached, worstScored⟩ := tracks.results worst worstIn
    rw [Score.lt_iff (defined _ _ worstReached worstScored) (defined _ _ inside found)] at notBetter
    exact not_lt.mp notBetter

include defined in
theorem Tracks.better_of_accepted (tracks : beam.Tracks reached score width) {id : VectorId}
    {value : Float32} (inside : reached id) (found : score id = some value)
    (accepted : beam.accepts width value = true) (full : width ≤ beam.results.size) :
    ∃ worst ∈ beam.results.items.toList, Score.grade worst.score < Score.grade value := by
  obtain ⟨worst, begins, worstIn⟩ := tracks.exists_worst
  rw [accepts, begins, Bool.or_eq_true, decide_eq_true_iff, decide_eq_true_iff] at accepted
  have better := accepted.resolve_left (by omega)
  obtain ⟨worstReached, worstScored⟩ := tracks.results worst worstIn
  rw [Score.lt_iff (defined _ _ worstReached worstScored) (defined _ _ inside found)] at better
  exact ⟨worst, worstIn, better⟩

/-! Visiting a neighbor. -/

theorem visit_cases (width : Nat) (beam : Beam) {neighbor : VectorId} {value : Float32}
    (found : score neighbor = some value) :
    (beam.seen.contains neighbor = true ∧ beam.visit width score neighbor = beam) ∨
    beam.seen.contains neighbor = false ∧
      let marked : Beam := { beam with seen := beam.seen.insert neighbor }
      (beam.accepts width value = true ∧
        beam.visit width score neighbor = marked.keep width ⟨neighbor, value⟩) ∨
      beam.accepts width value = false ∧ beam.visit width score neighbor = marked := by
  unfold visit
  cases old : beam.seen.contains neighbor with
  | true => exact Or.inl ⟨rfl, if_pos rfl⟩
  | false =>
      refine Or.inr ⟨rfl, ?_⟩
      rw [if_neg Bool.false_ne_true, found]
      by_cases accepted : beam.accepts width value = true
      · exact Or.inl ⟨accepted, if_pos accepted⟩
      · exact Or.inr ⟨Bool.eq_false_iff.mpr accepted, if_neg accepted⟩

section Keep

variable {after : Beam} {hit dropped : Hit} {id : VectorId} {value : Float32}

theorem Placed.of_added (narrow : beam.results.size < width)
    (perm : after.results.items.toList.Perm (hit :: beam.results.items.toList))
    (placed : beam.Placed width id value) : after.Placed width id value := by
  refine Or.inl ((perm.map (·.id)).mem_iff.mpr (List.mem_cons_of_mem _ ?_))
  refine placed.resolve_right fun full => ?_
  have size := full.1
  rw [room] at size
  omega

variable (full : after.results.size = room width)
  (perm : (dropped :: after.results.items.toList).Perm (hit :: beam.results.items.toList))
  (worst : ∀ other ∈ hit :: beam.results.items.toList,
    Score.grade dropped.score ≤ Score.grade other.score)
include full perm worst

theorem placed_of_offered
    (offered : ∀ other ∈ hit :: beam.results.items.toList, score other.id = some other.score)
    (found : score id = some value)
    (member : id ∈ (hit :: beam.results.items.toList).map (·.id)) :
    after.Placed width id value := by
  obtain ⟨other, otherIn, rfl⟩ := List.mem_map.mp member
  obtain rfl := Option.some.inj ((offered other otherIn).symm.trans found)
  rcases List.mem_cons.mp (perm.mem_iff.mpr otherIn) with rfl | kept
  · exact Or.inr ⟨full, fun rival rivalIn =>
      worst rival (perm.mem_iff.mp (List.mem_cons_of_mem _ rivalIn))⟩
  · exact Or.inl (List.mem_map_of_mem kept)

theorem Placed.of_replaced
    (offered : ∀ other ∈ hit :: beam.results.items.toList, score other.id = some other.score)
    (better : ∃ other ∈ beam.results.items.toList,
      Score.grade other.score < Score.grade hit.score)
    (found : score id = some value) (placed : beam.Placed width id value) :
    after.Placed width id value := by
  rcases placed with old | ⟨_, below⟩
  · exact placed_of_offered full perm worst offered found (List.mem_cons_of_mem _ old)
  · refine Or.inr ⟨full, fun rival rivalIn => ?_⟩
    rcases List.mem_cons.mp (perm.mem_iff.mp (List.mem_cons_of_mem _ rivalIn)) with rfl | old
    · obtain ⟨other, otherIn, less⟩ := better
      exact (below other otherIn).trans less.le
    · exact below rival old

end Keep

include defined in
theorem Tracks.keep (tracks : beam.Tracks reached score width) (hit : Hit)
    (inside : reached hit.id) (found : score hit.id = some hit.score)
    (accepted : beam.accepts width hit.score = true) (marked : Beam)
    (seen : ∀ id, marked.seen.contains id = true ↔ id = hit.id ∨ beam.seen.contains id = true)
    (candidates : marked.candidates = beam.candidates) (results : marked.results = beam.results)
    (sound : (marked.keep width hit).Sound reached score) :
    (marked.keep width hit).Tracks reached score width := by
  have waiting := candidates_keep_perm width marked hit
  rw [candidates] at waiting
  have scored : ∀ other ∈ hit :: beam.candidates.items.toList,
      score other.id = some other.score := by
    intro other member
    rcases List.mem_cons.mp member with rfl | old
    · exact found
    · exact tracks.scored other old
  have offered : ∀ other ∈ hit :: beam.results.items.toList,
      reached other.id ∧ score other.id = some other.score := by
    intro other member
    rcases List.mem_cons.mp member with rfl | old
    · exact ⟨inside, found⟩
    · exact tracks.results other old
  have bestAhead : PriorityQueue.Heaped Hit.standing (marked.keep width hit).candidates.items := by
    refine heaped_candidates_keep (candidates ▸ tracks.bestAhead) fun other member => ?_
    rw [candidates] at member
    have reachedOther := sound.candidates other (waiting.mem_iff.mpr member)
    exact defined _ _ reachedOther (scored other member)
  obtain ⟨worstAhead, change⟩ := results_keep width hit
    (results ▸ tracks.worstAhead) fun other member =>
      defined _ _ (offered other (results ▸ member)).1 (offered other (results ▸ member)).2
  have few := tracks.few
  have occupied := tracks.occupied
  rw [results] at change
  -- With room the hit is added. Without, the worst one gives way, and nothing that was left out is
  -- better than what stays: the hit that came in is better than one that was there.
  rcases change with ⟨narrow, perm⟩ | ⟨wide, dropped, perm, worst⟩
  all_goals
    have length := perm.length_eq
    simp only [Array.length_toList, List.length_cons] at length
    refine { toSound := sound, bestAhead, worstAhead,
             scored := fun other member => scored other (waiting.mem_iff.mp member),
             few := ?_, leftOut := fun id value known valueFound => ?_ }
  · simp only [PriorityQueue.size, room] at narrow few ⊢
    omega
  · rcases (seen id).mp known with rfl | old
    · exact Or.inl ((perm.map (·.id)).mem_iff.mpr List.mem_cons_self)
    · exact (tracks.leftOut id value old valueFound).of_added narrow perm
  · simp only [PriorityQueue.size, room] at few ⊢
    omega
  · have full : (marked.keep width hit).results.size = room width := by
      simp only [PriorityQueue.size, room] at wide few occupied ⊢
      omega
    have better := tracks.better_of_accepted defined inside found accepted wide
    rcases (seen id).mp known with rfl | old
    · exact placed_of_offered full perm worst (fun other member => (offered other member).2)
        valueFound List.mem_cons_self
    · exact (tracks.leftOut id value old valueFound).of_replaced full perm worst
        (fun other member => (offered other member).2) better valueFound

include defined in
theorem Tracks.visit (tracks : beam.Tracks reached score width) {neighbor : VectorId}
    (inside : reached neighbor) {value : Float32} (found : score neighbor = some value) :
    (beam.visit width score neighbor).Tracks reached score width := by
  have sound := tracks.toSound.visit width inside
  rcases visit_cases width beam found with
    ⟨_, same⟩ | ⟨_, ⟨accepted, same⟩ | ⟨refused, same⟩⟩
  · rwa [same]
  · rw [same] at sound ⊢
    exact tracks.keep defined ⟨neighbor, value⟩ inside found accepted
      { beam with seen := beam.seen.insert neighbor }
      (fun id => contains_insert _ _ _) rfl rfl sound
  · rw [same] at sound ⊢
    refine { tracks with toSound := sound, leftOut := fun id other seen otherFound => ?_ }
    rcases (contains_insert _ _ _).mp seen with rfl | old
    · obtain rfl := Option.some.inj (found.symm.trans otherFound)
      exact Or.inr (tracks.full_of_refused defined inside found refused)
    · exact tracks.leftOut id other old otherFound

include defined in
theorem Tracks.foldl_visit (scored : ∀ id, reached id → (score id).isSome = true)
    (neighbors : List VectorId) : ∀ beam : Beam, beam.Tracks reached score width →
      (∀ neighbor ∈ neighbors, reached neighbor) →
      (neighbors.foldl (Beam.visit width score) beam).Tracks reached score width := by
  induction neighbors with
  | nil => exact fun beam tracks _ => tracks
  | cons first rest ih =>
      intro beam tracks inside
      have firstInside := inside first List.mem_cons_self
      obtain ⟨value, found⟩ := Option.isSome_iff_exists.mp (scored first firstInside)
      exact ih _ (tracks.visit defined firstInside found)
        fun neighbor member => inside neighbor (List.mem_cons_of_mem _ member)

/-! Taking out the best candidate. -/

include defined in
theorem Tracks.pop (tracks : beam.Tracks reached score width) {nearest : Hit}
    {candidates : PriorityQueue Hit}
    (popped : beam.candidates.pop? bestFirst = some (nearest, candidates)) :
    ({ beam with candidates } : Beam).Tracks reached score width := by
  have perm := PriorityQueue.pop?_perm popped
  have ranks := Hit.ranks_bestFirst fun hit member =>
    defined hit.id hit.score (tracks.candidates hit (Array.mem_toList_iff.mpr member))
      (tracks.scored hit (Array.mem_toList_iff.mpr member))
  exact { tracks with
    toSound := (tracks.toSound.pop popped).2
    scored := fun hit member =>
      tracks.scored hit (perm.mem_iff.mpr (List.mem_cons_of_mem _ member))
    bestAhead := (tracks.bestAhead.pop? ranks popped).1 }

end Beam

end VectorSearch

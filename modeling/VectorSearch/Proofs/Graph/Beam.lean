import VectorSearch.Index.Graph.Beam
import VectorSearch.Proofs.Best
import VectorSearch.Proofs.Queue
/-!
What a beam search finds. It finds at least one node and none twice, each with its score, and it
never leaves a set of nodes that contains its start and is closed under links.
-/

namespace VectorSearch.Beam

/-- The hits in a beam are nodes of a set, with their scores; the results are seen nodes, none of
them twice, and there is at least one. -/
structure Sound (allowed : VectorId → Prop) (score : VectorId → Option Float32) (beam : Beam) :
    Prop where
  candidates : ∀ hit ∈ beam.candidates.items.toList, allowed hit.id
  results : ∀ hit ∈ beam.results.items.toList, allowed hit.id ∧ score hit.id = some hit.score
  seen : ∀ hit ∈ beam.results.items.toList, beam.seen.contains hit.id = true
  distinct : (beam.results.items.toList.map (·.id)).Nodup
  occupied : 0 < beam.results.size

variable {allowed : VectorId → Prop} {score : VectorId → Option Float32}

theorem start_sound {hit : Hit} (inside : allowed hit.id) (scored : score hit.id = some hit.score) :
    (start hit).Sound allowed score := by
  have candidates : (start hit).candidates.items.toList = [hit] :=
    List.perm_singleton.mp (PriorityQueue.push_perm bestFirst PriorityQueue.empty hit)
  have results : (start hit).results.items.toList = [hit] :=
    List.perm_singleton.mp (PriorityQueue.push_perm worstFirst PriorityQueue.empty hit)
  refine ⟨?_, ?_, ?_, ?_, ?_⟩
  · intro other member
    rw [candidates, List.mem_singleton] at member
    rw [member]
    exact inside
  · intro other member
    rw [results, List.mem_singleton] at member
    rw [member]
    exact ⟨inside, scored⟩
  · intro other member
    rw [results, List.mem_singleton] at member
    rw [member, start, Std.TreeSet.contains_insert_self]
  · rw [results]
    exact List.nodup_cons.mpr ⟨List.not_mem_nil, List.nodup_nil⟩
  · rw [start, PriorityQueue.size_push]
    omega

theorem candidates_keep_perm (width : Nat) (beam : Beam) (hit : Hit) :
    (beam.keep width hit).candidates.items.toList.Perm (hit :: beam.candidates.items.toList) :=
  PriorityQueue.push_perm bestFirst _ hit

theorem results_keep_perm (width : Nat) (beam : Beam) (hit : Hit) :
    ∃ dropped, (dropped ++ (beam.keep width hit).results.items.toList).Perm
        (hit :: beam.results.items.toList) ∧
      beam.results.size ≤ (beam.keep width hit).results.size := by
  have pushed := PriorityQueue.push_perm worstFirst beam.results hit
  have size := PriorityQueue.size_push worstFirst beam.results hit
  simp only [keep]
  split
  · cases popped : (beam.results.push worstFirst hit).pop? worstFirst with
    | none => exact ⟨[], pushed, size ▸ Nat.le_succ _⟩
    | some answer =>
        have smaller := PriorityQueue.size_of_pop? popped
        refine ⟨[answer.1], (PriorityQueue.pop?_perm popped).symm.trans pushed, ?_⟩
        dsimp only
        omega
  · exact ⟨[], pushed, size ▸ Nat.le_succ _⟩

theorem Sound.keep {beam : Beam} (sound : beam.Sound allowed score) (width : Nat) {hit : Hit}
    (inside : allowed hit.id) (scored : score hit.id = some hit.score)
    (fresh : ∀ other ∈ beam.results.items.toList, other.id ≠ hit.id)
    (seen : beam.seen.contains hit.id = true) : (beam.keep width hit).Sound allowed score := by
  obtain ⟨dropped, perm, wide⟩ := results_keep_perm width beam hit
  have kept {other : Hit} (member : other ∈ (beam.keep width hit).results.items.toList) :
      other = hit ∨ other ∈ beam.results.items.toList :=
    List.mem_cons.mp (perm.mem_iff.mp (List.mem_append_right _ member))
  refine ⟨?_, ?_, ?_, ?_, by have := sound.occupied; omega⟩
  · intro other member
    rcases List.mem_cons.mp ((candidates_keep_perm width beam hit).mem_iff.mp member) with rfl | old
    · exact inside
    · exact sound.candidates other old
  · intro other member
    rcases kept member with rfl | old
    · exact ⟨inside, scored⟩
    · exact sound.results other old
  · intro other member
    rcases kept member with rfl | old
    · exact seen
    · exact sound.seen other old
  · have all : ((hit :: beam.results.items.toList).map (·.id)).Nodup := by
      rw [List.map_cons, List.nodup_cons]
      refine ⟨fun member => ?_, sound.distinct⟩
      obtain ⟨other, otherIn, same⟩ := List.mem_map.mp member
      exact fresh other otherIn same
    have nodup := ((perm.map (·.id)).nodup_iff).mpr all
    rw [List.map_append] at nodup
    exact (List.nodup_append.mp nodup).2.1

theorem Sound.visit {beam : Beam} (sound : beam.Sound allowed score) (width : Nat)
    {neighbor : VectorId} (inside : allowed neighbor) :
    (beam.visit width score neighbor).Sound allowed score := by
  unfold Beam.visit
  split
  · exact sound
  · rename_i unseen
    have marked : ({ beam with seen := beam.seen.insert neighbor } : Beam).Sound allowed score :=
      { sound with
        seen := fun hit member => by
          rw [Std.TreeSet.contains_insert, sound.seen hit member, Bool.or_true] }
    dsimp only
    split
    · exact marked
    · rename_i value scored
      split
      · refine marked.keep width inside scored ?_ (by simp)
        intro other member same
        have otherSeen := sound.seen other member
        rw [same] at otherSeen
        exact unseen otherSeen
      · exact marked

theorem Sound.foldl_visit (width : Nat) (neighbors : List VectorId) :
    ∀ beam : Beam, beam.Sound allowed score → (∀ neighbor ∈ neighbors, allowed neighbor) →
      (neighbors.foldl (Beam.visit width score) beam).Sound allowed score := by
  induction neighbors with
  | nil => intro beam sound _; exact sound
  | cons first rest ih =>
      intro beam sound inside
      exact ih _ (sound.visit width (inside first (by simp)))
        (fun neighbor member => inside neighbor (by simp [member]))

theorem Sound.pop {beam : Beam} (sound : beam.Sound allowed score) {nearest : Hit}
    {candidates : PriorityQueue Hit}
    (popped : beam.candidates.pop? bestFirst = some (nearest, candidates)) :
    allowed nearest.id ∧ ({ beam with candidates } : Beam).Sound allowed score := by
  have perm := PriorityQueue.pop?_perm popped
  exact ⟨sound.candidates nearest (perm.mem_iff.mpr List.mem_cons_self),
    { sound with
      candidates := fun hit member =>
        sound.candidates hit (perm.mem_iff.mpr (List.mem_cons_of_mem _ member)) }⟩

theorem Sound.expandFrom {links : VectorId → List VectorId} (width : Nat)
    (closed : ∀ id, allowed id → ∀ link ∈ links id, allowed link) (rounds : Nat) :
    ∀ beam : Beam, beam.Sound allowed score →
      (Beam.expandFrom width links score rounds beam).Sound allowed score := by
  induction rounds with
  | zero => intro beam sound; exact sound
  | succ rounds ih =>
      intro beam sound
      unfold Beam.expandFrom
      split
      · exact sound
      · rename_i nearest candidates popped
        split
        · exact sound
        · obtain ⟨inside, rest⟩ := sound.pop popped
          exact ih _ (rest.foldl_visit width _ _ (closed _ inside))

theorem search_of_scored [Host] {first : VectorId} {value : Float32}
    (scored : score first = some value) (links : VectorId → List VectorId) (nodes width : Nat) :
    search links score nodes width first =
      Hit.sort
        (expandFrom width links score nodes (start ⟨first, value⟩)).results.items.toList := by
  rw [search, found, scored]

theorem found_sound {links : VectorId → List VectorId} (nodes width : Nat) {first : VectorId}
    {value : Float32} (scored : score first = some value) (inside : allowed first)
    (closed : ∀ id, allowed id → ∀ link ∈ links id, allowed link) :
    found links score nodes width first ≠ [] ∧
      ((found links score nodes width first).map (·.id)).Nodup ∧
      ∀ hit ∈ found links score nodes width first,
        allowed hit.id ∧ score hit.id = some hit.score := by
  have sound := Sound.expandFrom width closed nodes _
    (@start_sound allowed score ⟨first, value⟩ inside scored)
  simp only [found, scored]
  refine ⟨fun empty => ?_, sound.distinct, sound.results⟩
  have occupied := sound.occupied
  rw [PriorityQueue.size, ← Array.length_toList, empty] at occupied
  exact Nat.not_lt_zero _ occupied

theorem search_sound [Host] {links : VectorId → List VectorId} (nodes width : Nat)
    {first : VectorId} {value : Float32} (scored : score first = some value)
    (inside : allowed first) (closed : ∀ id, allowed id → ∀ link ∈ links id, allowed link) :
    search links score nodes width first ≠ [] ∧
      ((search links score nodes width first).map (·.id)).Nodup ∧
      ∀ hit ∈ search links score nodes width first,
        allowed hit.id ∧ score hit.id = some hit.score := by
  obtain ⟨occupied, distinct, sound⟩ := found_sound nodes width scored inside closed
  have perm : (search links score nodes width first).Perm (found links score nodes width first) :=
    Hit.sort_perm _
  exact ⟨fun empty => occupied (List.perm_nil.mp (empty ▸ perm.symm)),
    ((perm.map _).nodup_iff).mpr distinct, fun hit member => sound hit (perm.mem_iff.mp member)⟩

theorem isBest_take_search [Host] {links : VectorId → List VectorId} {nodes width : Nat}
    {first : VectorId} (distinct : ((search links score nodes width first).map (·.id)).Nodup)
    (defined : ∀ hit ∈ search links score nodes width first, hit.score.isNaN = false)
    (count : Nat) : Hit.IsBest (· ∈ search links score nodes width first) count
      ((search links score nodes width first).take count) := by
  have perm := Hit.sort_perm (found links score nodes width first)
  exact (Hit.isBest_rank (fun hit member => defined hit (perm.mem_iff.mpr member))
    ((perm.map (·.id)).nodup_iff.mp distinct) count).congr fun hit => perm.mem_iff

end VectorSearch.Beam

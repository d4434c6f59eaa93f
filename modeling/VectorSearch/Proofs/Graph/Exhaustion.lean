import Mathlib.Data.Finset.Card
import Mathlib.Data.List.Perm.Subperm
import Mathlib.Logic.Relation
import VectorSearch.Proofs.Graph.Beam
/-!
Exhaustive beam searches. A beam that is at least as wide as there are nodes drops no node: it
keeps all that it sees, and sees all that can be reached from its start. Every round takes out one
candidate and every node is a candidate once, so there are at most as many rounds as nodes.
-/

namespace VectorSearch.Beam

def unseen (nodes : Finset VectorId) (beam : Beam) : Finset VectorId :=
  nodes.filter fun id => beam.seen.contains id = false

/-- How many rounds are left: one for each candidate and for each node that may become one. -/
def work (nodes : Finset VectorId) (beam : Beam) : Nat :=
  beam.candidates.size + (beam.unseen nodes).card

structure Roomy (nodes : Finset VectorId) (score : VectorId → Option Float32) (beam : Beam) : Prop
    extends Sound (· ∈ nodes) score beam where
  kept : ∀ id, beam.seen.contains id = true → id ∈ beam.results.items.toList.map (·.id)

structure Explores (nodes : Finset VectorId) (neighbors : List VectorId) (before after : Beam) :
    Prop where
  seen : ∀ id, after.seen.contains id = true ↔ id ∈ neighbors ∨ before.seen.contains id = true
  waiting : ∀ hit ∈ before.candidates.items.toList, hit ∈ after.candidates.items.toList
  fresh : ∀ id, after.seen.contains id = true →
    before.seen.contains id = true ∨ id ∈ after.candidates.items.toList.map (·.id)
  work : after.work nodes = before.work nodes

variable {nodes : Finset VectorId} {score : VectorId → Option Float32} {width : Nat}

theorem Explores.refl (beam : Beam) : Explores nodes [] beam beam where
  seen id := by simp
  waiting hit member := member
  fresh id seen := Or.inl seen
  work := rfl

theorem Explores.cons {first : VectorId} {rest : List VectorId} {before middle after : Beam}
    (start : Explores nodes [first] before middle) (next : Explores nodes rest middle after) :
    Explores nodes (first :: rest) before after where
  seen id := by
    rw [next.seen, start.seen, List.mem_singleton, List.mem_cons, or_left_comm, or_assoc]
  waiting hit member := next.waiting hit (start.waiting hit member)
  fresh id seen := by
    rcases next.fresh id seen with old | new
    · refine (start.fresh id old).imp_right fun waiting => ?_
      obtain ⟨hit, member, rfl⟩ := List.mem_map.mp waiting
      exact List.mem_map_of_mem (next.waiting hit member)
    · exact Or.inr new
  work := next.work.trans start.work

/-! One neighbor. -/

theorem keep_of_room {beam : Beam} (room : beam.results.size < width) (hit : Hit) :
    beam.keep width hit = { beam with
      candidates := beam.candidates.push bestFirst hit
      results := beam.results.push worstFirst hit } := by
  have size := PriorityQueue.size_push worstFirst beam.results hit
  unfold keep
  dsimp only
  rw [if_neg (by omega)]

theorem visit_of_room {beam : Beam} {neighbor : VectorId} {value : Float32}
    (unseen : beam.seen.contains neighbor = false) (scored : score neighbor = some value)
    (room : beam.results.size < width) :
    beam.visit width score neighbor = {
      seen := beam.seen.insert neighbor
      candidates := beam.candidates.push bestFirst ⟨neighbor, value⟩
      results := beam.results.push worstFirst ⟨neighbor, value⟩ } := by
  unfold visit
  rw [unseen, if_neg Bool.false_ne_true]
  dsimp only
  rw [scored]
  dsimp only
  rw [if_pos (by simp [accepts, room]), keep_of_room (by exact room)]

theorem Roomy.size_lt {beam : Beam} (roomy : beam.Roomy nodes score) {neighbor : VectorId}
    (inside : neighbor ∈ nodes) (unseen : beam.seen.contains neighbor = false) :
    beam.results.size < nodes.card := by
  have apart : neighbor ∉ beam.results.items.toList.map (·.id) := by
    intro member
    obtain ⟨hit, found, rfl⟩ := List.mem_map.mp member
    rw [roomy.seen hit found] at unseen
    exact Bool.noConfusion unseen
  have all : neighbor :: beam.results.items.toList.map (·.id) ⊆ nodes.toList := by
    intro id member
    rw [Finset.mem_toList]
    rcases List.mem_cons.mp member with rfl | old
    · exact inside
    · obtain ⟨hit, found, rfl⟩ := List.mem_map.mp old
      exact (roomy.results hit found).1
  have bound := (List.subperm_of_subset (List.nodup_cons.mpr ⟨apart, roomy.distinct⟩) all).length_le
  rw [List.length_cons, List.length_map, Array.length_toList, Finset.length_toList] at bound
  exact bound

theorem card_unseen_insert (beam after : Beam) {neighbor : VectorId} (inside : neighbor ∈ nodes)
    (unseen : beam.seen.contains neighbor = false)
    (marked : after.seen = beam.seen.insert neighbor) :
    (after.unseen nodes).card + 1 = (beam.unseen nodes).card := by
  have erased : after.unseen nodes = (beam.unseen nodes).erase neighbor := by
    ext id
    simp only [Beam.unseen, marked, Std.TreeSet.contains_insert, Finset.mem_filter,
      Finset.mem_erase, Bool.or_eq_false_iff, beq_eq_false_iff_ne]
    constructor
    · rintro ⟨member, different, old⟩
      exact ⟨fun same => different (same ▸ by simp), member, old⟩
    · rintro ⟨different, member, old⟩
      exact ⟨member, by simpa using Ne.symm different, old⟩
  rw [erased, Finset.card_erase_add_one (by simp [Beam.unseen, inside, unseen])]

theorem contains_insert (seen : Std.TreeSet VectorId) (neighbor id : VectorId) :
    (seen.insert neighbor).contains id = true ↔ id = neighbor ∨ seen.contains id = true := by
  rw [Std.TreeSet.contains_insert, Bool.or_eq_true, beq_iff_eq, Nat.compare_eq_eq]
  exact or_congr_left eq_comm

theorem Explores.of_unseen {beam after : Beam} {neighbor : VectorId} {hit : Hit}
    (inside : neighbor ∈ nodes) (unseen : beam.seen.contains neighbor = false)
    (named : hit.id = neighbor) (marked : after.seen = beam.seen.insert neighbor)
    (pushed : after.candidates = beam.candidates.push bestFirst hit) :
    Explores nodes [neighbor] beam after := by
  have candidates := PriorityQueue.push_perm bestFirst beam.candidates hit
  refine ⟨fun id => ?_, fun other member => ?_, fun id found => ?_, ?_⟩
  · rw [marked, List.mem_singleton]
    exact contains_insert _ _ _
  · rw [pushed]
    exact candidates.mem_iff.mpr (List.mem_cons_of_mem _ member)
  · rw [marked, contains_insert] at found
    refine found.symm.imp_right fun same => ?_
    rw [pushed, (candidates.map (·.id)).mem_iff, same, ← named]
    exact List.mem_cons_self
  · have fewer := card_unseen_insert beam after inside unseen marked
    have size := PriorityQueue.size_push bestFirst beam.candidates hit
    unfold Beam.work
    rw [pushed]
    omega

theorem Roomy.visit {beam : Beam} (roomy : beam.Roomy nodes score) (wide : nodes.card ≤ width)
    {neighbor : VectorId} (inside : neighbor ∈ nodes) (scored : (score neighbor).isSome = true) :
    (beam.visit width score neighbor).Roomy nodes score ∧
      Explores nodes [neighbor] beam (beam.visit width score neighbor) := by
  have sound := roomy.toSound.visit width inside
  cases old : beam.seen.contains neighbor with
  | true =>
      have same : beam.visit width score neighbor = beam := by
        unfold Beam.visit
        rw [old, if_pos rfl]
      rw [same]
      refine ⟨roomy, ?_, fun hit member => member, fun id seen => Or.inl seen, rfl⟩
      intro id
      rw [List.mem_singleton, iff_or_self]
      exact fun same => same ▸ old
  | false =>
      obtain ⟨value, found⟩ := Option.isSome_iff_exists.mp scored
      have room := (roomy.size_lt inside old).trans_le wide
      rw [visit_of_room old found room] at sound ⊢
      have results := PriorityQueue.push_perm worstFirst beam.results ⟨neighbor, value⟩
      refine ⟨{ toSound := sound, kept := fun id marked => ?_ },
        Explores.of_unseen inside old rfl rfl rfl⟩
      rw [(results.map (·.id)).mem_iff, List.map_cons, List.mem_cons]
      exact ((contains_insert _ _ _).mp marked).imp_right (roomy.kept id)

theorem Roomy.foldl_visit (wide : nodes.card ≤ width)
    (scored : ∀ id ∈ nodes, (score id).isSome = true) (neighbors : List VectorId) :
    ∀ beam : Beam, beam.Roomy nodes score → (∀ neighbor ∈ neighbors, neighbor ∈ nodes) →
      (neighbors.foldl (Beam.visit width score) beam).Roomy nodes score ∧
        Explores nodes neighbors beam (neighbors.foldl (Beam.visit width score) beam) := by
  induction neighbors with
  | nil => intro beam roomy _; exact ⟨roomy, Explores.refl beam⟩
  | cons first rest ih =>
      intro beam roomy inside
      have firstInside := inside first (by simp)
      obtain ⟨next, start⟩ := roomy.visit wide firstInside (scored first firstInside)
      obtain ⟨last, others⟩ := ih _ next fun neighbor member => inside neighbor (by simp [member])
      exact ⟨last, start.cons others⟩

/-! Beginning. -/

theorem contains_start (hit : Hit) (id : VectorId) :
    (start hit).seen.contains id = true ↔ id = hit.id := by
  rw [start, contains_insert, Std.TreeSet.contains_emptyc]
  simp

theorem work_start_le (hit : Hit) (inside : hit.id ∈ nodes) :
    (start hit).work nodes ≤ nodes.card := by
  have size := PriorityQueue.size_push bestFirst PriorityQueue.empty hit
  have fewer := card_unseen_insert ⟨∅, PriorityQueue.empty, PriorityQueue.empty⟩ (start hit) inside
    Std.TreeSet.contains_emptyc rfl
  have all : ((⟨∅, PriorityQueue.empty, PriorityQueue.empty⟩ : Beam).unseen nodes).card ≤
      nodes.card := Finset.card_filter_le _ _
  have one : (start hit).candidates.size = 1 := size
  rw [Beam.work, one]
  omega

/-! All rounds. -/

/-- Every node that was seen is a candidate still, or all its links have been seen. -/
def Pending (links : VectorId → List VectorId) (beam : Beam) : Prop :=
  ∀ id, beam.seen.contains id = true → id ∈ beam.candidates.items.toList.map (·.id) ∨
    ∀ link ∈ links id, beam.seen.contains link = true

variable {links : VectorId → List VectorId}

theorem Roomy.covers_of_done {beam : Beam} (roomy : beam.Roomy nodes score)
    (pending : beam.Pending links) (done : beam.candidates.items.toList = []) {first : VectorId}
    (begun : beam.seen.contains first = true) (id : VectorId)
    (reached : Relation.ReflTransGen (fun node link => link ∈ links node) first id) :
    id ∈ beam.results.items.toList.map (·.id) := by
  apply roomy.kept
  induction reached with
  | refl => exact begun
  | tail _ link ih =>
      have explored := (pending _ ih).resolve_left (by simp [done])
      exact explored _ link

theorem Roomy.covers_of_full {beam : Beam} (roomy : beam.Roomy nodes score)
    (full : nodes.card ≤ beam.results.size) {id : VectorId} (inside : id ∈ nodes) :
    id ∈ beam.results.items.toList.map (·.id) := by
  have covered : (beam.results.items.toList.map (·.id)).toFinset = nodes := by
    refine Finset.eq_of_subset_of_card_le (fun id member => ?_) ?_
    · obtain ⟨hit, found, rfl⟩ := List.mem_map.mp (List.mem_toFinset.mp member)
      exact (roomy.results hit found).1
    · rw [List.toFinset_card_of_nodup roomy.distinct, List.length_map, Array.length_toList]
      exact full
  rw [← List.mem_toFinset, covered]
  exact inside

theorem mem_nodes_of_reached (closed : ∀ id ∈ nodes, ∀ link ∈ links id, link ∈ nodes)
    {first id : VectorId} (inside : first ∈ nodes)
    (reached : Relation.ReflTransGen (fun node link => link ∈ links node) first id) :
    id ∈ nodes := by
  induction reached with
  | refl => exact inside
  | tail _ link ih => exact closed _ ih _ link

theorem Roomy.round {beam : Beam} (roomy : beam.Roomy nodes score) (pending : beam.Pending links)
    (wide : nodes.card ≤ width) (closed : ∀ id ∈ nodes, ∀ link ∈ links id, link ∈ nodes)
    (scored : ∀ id ∈ nodes, (score id).isSome = true) {nearest : Hit}
    {candidates : PriorityQueue Hit}
    (popped : beam.candidates.pop? bestFirst = some (nearest, candidates)) :
    let after := (links nearest.id).foldl (Beam.visit width score) { beam with candidates }
    after.Roomy nodes score ∧ after.Pending links ∧ after.work nodes + 1 = beam.work nodes ∧
      ∀ id, beam.seen.contains id = true → after.seen.contains id = true := by
  intro after
  have perm := PriorityQueue.pop?_perm popped
  have start : ({ beam with candidates } : Beam).Roomy nodes score :=
    { roomy with
      candidates := fun hit member =>
        roomy.candidates hit (perm.mem_iff.mpr (List.mem_cons_of_mem _ member)) }
  have nearestInside := roomy.candidates nearest (perm.mem_iff.mpr List.mem_cons_self)
  obtain ⟨next, explores⟩ := Roomy.foldl_visit wide scored (links nearest.id) _ start
    (closed nearest.id nearestInside)
  have seen (id : VectorId) (old : beam.seen.contains id = true) :
      after.seen.contains id = true := (explores.seen id).mpr (Or.inr old)
  refine ⟨next, fun id marked => ?_, ?_, seen⟩
  · -- All links of the candidate taken out have been seen; the others wait or were done before.
    refine (explores.fresh id marked).elim (fun old => ?_) Or.inl
    rcases pending id old with waiting | explored
    · rw [(perm.map (·.id)).mem_iff, List.map_cons, List.mem_cons] at waiting
      rcases waiting with rfl | later
      · exact Or.inr fun link member => (explores.seen link).mpr (Or.inl member)
      · obtain ⟨hit, member, rfl⟩ := List.mem_map.mp later
        exact Or.inl (List.mem_map_of_mem (explores.waiting hit member))
    · exact Or.inr fun link member => seen link (explored link member)
  · have size := PriorityQueue.size_of_pop? popped
    have rest : after.work nodes = candidates.size + (beam.unseen nodes).card := explores.work
    rw [rest, work]
    omega

theorem Roomy.expandFrom (wide : nodes.card ≤ width)
    (closed : ∀ id ∈ nodes, ∀ link ∈ links id, link ∈ nodes)
    (scored : ∀ id ∈ nodes, (score id).isSome = true) {first : VectorId} (inside : first ∈ nodes)
    (rounds : Nat) :
    ∀ beam : Beam, beam.Roomy nodes score → beam.Pending links → beam.work nodes ≤ rounds →
      beam.seen.contains first = true → ∀ id,
      Relation.ReflTransGen (fun node link => link ∈ links node) first id →
        id ∈ (Beam.expandFrom width links score rounds beam).results.items.toList.map (·.id) := by
  -- The rounds left bound the work, of which every round does one piece; a beam that settles
  -- early is full, and then it has all nodes.
  induction rounds with
  | zero =>
      intro beam roomy pending enough begun
      have size : beam.candidates.items.size = 0 := by
        unfold work PriorityQueue.size at enough
        omega
      exact roomy.covers_of_done pending (by simpa using size) begun
  | succ rounds ih =>
      intro beam roomy pending enough begun id reached
      unfold Beam.expandFrom
      split
      · rename_i done
        exact roomy.covers_of_done pending (PriorityQueue.toList_of_pop?_eq_none done) begun id
          reached
      · rename_i nearest candidates popped
        split
        · rename_i settled
          simp only [isSettled, Bool.and_eq_true, decide_eq_true_eq] at settled
          exact roomy.covers_of_full (wide.trans settled.1)
            (mem_nodes_of_reached closed inside reached)
        · obtain ⟨next, pendingNext, spent, seen⟩ := roomy.round pending wide closed scored popped
          exact ih _ next pendingNext (by omega) (seen first begun) id reached

theorem search_exhaustive [Host] (wide : nodes.card ≤ width)
    (closed : ∀ id ∈ nodes, ∀ link ∈ links id, link ∈ nodes)
    (scored : ∀ id ∈ nodes, (score id).isSome = true) {rounds : Nat} (enough : nodes.card ≤ rounds)
    {first : VectorId} (inside : first ∈ nodes) {id : VectorId}
    (reached : Relation.ReflTransGen (fun node link => link ∈ links node) first id) :
    id ∈ (search links score rounds width first).map (·.id) := by
  obtain ⟨value, found⟩ := Option.isSome_iff_exists.mp (scored first inside)
  have candidates := PriorityQueue.push_perm bestFirst PriorityQueue.empty ⟨first, value⟩
  have results := PriorityQueue.push_perm worstFirst PriorityQueue.empty ⟨first, value⟩
  have begun := contains_start ⟨first, value⟩
  have roomy : (start ⟨first, value⟩).Roomy nodes score :=
    { toSound := start_sound inside found
      kept := fun other seen => by
        rw [(begun other).mp seen]
        exact (results.map (·.id)).mem_iff.mpr List.mem_cons_self }
  have pending : (start ⟨first, value⟩).Pending links := fun other seen => by
    rw [(begun other).mp seen]
    exact Or.inl ((candidates.map (·.id)).mem_iff.mpr List.mem_cons_self)
  rw [search_of_scored found, ((Hit.sort_perm _).map (·.id)).mem_iff]
  exact Roomy.expandFrom wide closed scored inside rounds _ roomy pending
    ((work_start_le _ inside).trans enough) ((begun first).mpr rfl) id reached

end VectorSearch.Beam

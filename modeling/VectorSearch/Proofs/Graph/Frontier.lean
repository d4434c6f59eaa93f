import Mathlib.Data.Set.Card
import VectorSearch.Proofs.Graph.Search
import VectorSearch.Proofs.Graph.Tracking
/-!
Beam searches of any width. A node that is kept waits in front of all worse candidates, so a search
does not settle before it has looked at that node's links. It finds as many nodes as its beam has
room for, and leaves out no better neighbor of a node that it finds.
-/

namespace VectorSearch

namespace Beam

variable {reached : VectorId → Prop} {score : VectorId → Option Float32} {width : Nat} {beam : Beam}
  {nodes : Finset VectorId} {links : VectorId → List VectorId}
  (defined : ∀ id value, reached id → score id = some value → value.isNaN = false)

/-! Visiting all neighbors of a node. -/

structure Widens (nodes : Finset VectorId) (neighbors : List VectorId) (before after : Beam) :
    Prop where
  seen : ∀ id, after.seen.contains id = true ↔ id ∈ neighbors ∨ before.seen.contains id = true
  waiting : ∀ hit ∈ before.candidates.items.toList, hit ∈ after.candidates.items.toList
  fresh : ∀ hit ∈ after.results.items.toList,
    hit ∈ before.results.items.toList ∨ hit ∈ after.candidates.items.toList
  work : after.work nodes ≤ before.work nodes

theorem Widens.refl (beam : Beam) : Widens nodes [] beam beam where
  seen id := by simp
  waiting hit member := member
  fresh hit member := Or.inl member
  work := le_rfl

theorem Widens.cons {first : VectorId} {rest : List VectorId} {before middle after : Beam}
    (start : Widens nodes [first] before middle) (next : Widens nodes rest middle after) :
    Widens nodes (first :: rest) before after where
  seen id := by
    rw [next.seen, start.seen, List.mem_singleton, List.mem_cons, or_left_comm, or_assoc]
  waiting hit member := next.waiting hit (start.waiting hit member)
  fresh hit member := by
    rcases next.fresh hit member with old | new
    · exact (start.fresh hit old).imp_right (next.waiting hit)
    · exact Or.inr new
  work := next.work.trans start.work

theorem visit_widens {neighbor : VectorId} (inside : neighbor ∈ nodes) {value : Float32}
    (found : score neighbor = some value) :
    Widens nodes [neighbor] beam (beam.visit width score neighbor) := by
  rcases visit_cases width beam found with
    ⟨old, same⟩ | ⟨unseen, ⟨_, same⟩ | ⟨_, same⟩⟩
  · rw [same]
    refine ⟨fun id => ?_, fun _ => id, fun _ => Or.inl, le_rfl⟩
    rw [List.mem_singleton, iff_or_self]
    exact fun itself => itself ▸ old
  · rw [same]
    let marked : Beam := { beam with seen := beam.seen.insert neighbor }
    change Widens nodes [neighbor] beam (marked.keep width ⟨neighbor, value⟩)
    have candidates := candidates_keep_perm width marked ⟨neighbor, value⟩
    obtain ⟨dropped, results, _⟩ := results_keep_perm width marked ⟨neighbor, value⟩
    refine ⟨fun id => ?_, fun hit member => ?_, fun hit member => ?_, ?_⟩
    · exact (contains_insert _ _ _).trans (by rw [List.mem_singleton])
    · exact candidates.mem_iff.mpr (List.mem_cons_of_mem _ member)
    · rcases List.mem_cons.mp (results.mem_iff.mp (List.mem_append_right _ member)) with rfl | old
      · exact Or.inr (candidates.mem_iff.mpr List.mem_cons_self)
      · exact Or.inl old
    · -- The new candidate is one of the nodes that were not seen before.
      have fewer := card_unseen_insert beam (marked.keep width ⟨neighbor, value⟩) inside unseen rfl
      have size := candidates.length_eq
      simp only [Array.length_toList, List.length_cons] at size
      have before : marked.candidates.items.size = beam.candidates.items.size := rfl
      unfold work PriorityQueue.size
      omega
  · rw [same]
    refine ⟨fun id => ?_, fun _ => id, fun _ => Or.inl, ?_⟩
    · exact (contains_insert _ _ _).trans (by rw [List.mem_singleton])
    · have fewer := card_unseen_insert beam { beam with seen := beam.seen.insert neighbor } inside
        unseen rfl
      unfold work
      dsimp only
      omega

theorem foldl_visit_widens (width : Nat) (scored : ∀ id ∈ nodes, (score id).isSome = true)
    (neighbors : List VectorId) : ∀ beam : Beam, (∀ neighbor ∈ neighbors, neighbor ∈ nodes) →
      Widens nodes neighbors beam (neighbors.foldl (Beam.visit width score) beam) := by
  induction neighbors with
  | nil => exact fun beam _ => Widens.refl beam
  | cons first rest ih =>
      intro beam inside
      have firstInside := inside first List.mem_cons_self
      obtain ⟨value, found⟩ := Option.isSome_iff_exists.mp (scored first firstInside)
      exact (visit_widens firstInside found).cons
        (ih _ fun neighbor member => inside neighbor (List.mem_cons_of_mem _ member))

/-! Looking at links. -/

def Attended (links : VectorId → List VectorId) (beam : Beam) : Prop :=
  ∀ hit ∈ beam.results.items.toList, hit ∈ beam.candidates.items.toList ∨
    ∀ link ∈ links hit.id, beam.seen.contains link = true

def Complete (links : VectorId → List VectorId) (beam : Beam) : Prop :=
  ∀ hit ∈ beam.results.items.toList, ∀ link ∈ links hit.id, beam.seen.contains link = true

theorem Attended.round (attended : beam.Attended links) {nearest : Hit}
    {candidates : PriorityQueue Hit}
    (popped : beam.candidates.pop? bestFirst = some (nearest, candidates)) {after : Beam}
    (widens : Widens nodes (links nearest.id) { beam with candidates } after) :
    after.Attended links := by
  intro hit member
  rcases widens.fresh hit member with old | new
  · rcases attended hit old with waits | looked
    · rcases List.mem_cons.mp ((PriorityQueue.pop?_perm popped).mem_iff.mp waits) with rfl | later
      · exact Or.inr fun link linked => (widens.seen link).mpr (Or.inl linked)
      · exact Or.inl (widens.waiting hit later)
    · exact Or.inr fun link linked => (widens.seen link).mpr (Or.inr (looked link linked))
  · exact Or.inl new

theorem work_round {nearest : Hit} {candidates : PriorityQueue Hit} {neighbors : List VectorId}
    (popped : beam.candidates.pop? bestFirst = some (nearest, candidates)) {after : Beam}
    (widens : Widens nodes neighbors { beam with candidates } after) :
    after.work nodes + 1 ≤ beam.work nodes := by
  have size := PriorityQueue.size_of_pop? popped
  have rest : after.work nodes ≤ candidates.size + (beam.unseen nodes).card := widens.work
  have whole : beam.work nodes = beam.candidates.size + (beam.unseen nodes).card := rfl
  omega

theorem Attended.complete_of_done (attended : beam.Attended links)
    (done : beam.candidates.pop? bestFirst = none) : beam.Complete links := fun hit member =>
  (attended hit member).resolve_left (by
    rw [PriorityQueue.toList_of_pop?_eq_none done]
    exact List.not_mem_nil)

include defined in
theorem Tracks.complete_of_settled (tracks : beam.Tracks reached score width)
    (attended : beam.Attended links) {nearest : Hit} {candidates : PriorityQueue Hit}
    (popped : beam.candidates.pop? bestFirst = some (nearest, candidates))
    (settled : beam.isSettled width nearest = true) :
    beam.Complete links := by
  obtain ⟨worst, begins, worstIn⟩ := tracks.exists_worst
  rw [isSettled, begins, Bool.and_eq_true, decide_eq_true_eq, decide_eq_true_eq] at settled
  have worse := settled.2
  have proper : ∀ hit ∈ beam.candidates.items, hit.score.isNaN = false := fun hit member =>
    defined hit.id hit.score (tracks.candidates hit (Array.mem_toList_iff.mpr member))
      (tracks.scored hit (Array.mem_toList_iff.mpr member))
  obtain ⟨worstReached, worstScored⟩ := tracks.results worst worstIn
  have nearestIn : nearest ∈ beam.candidates.items :=
    Array.mem_toList_iff.mp ((PriorityQueue.pop?_perm popped).mem_iff.mpr List.mem_cons_self)
  rw [Score.lt_iff (proper nearest nearestIn) (defined _ _ worstReached worstScored)] at worse
  refine fun hit member => (attended hit member).resolve_left fun waits => ?_
  have ahead := (tracks.bestAhead.pop? (Hit.ranks_bestFirst proper) popped).2 hit waits
  exact absurd worse (not_lt.mpr ((tracks.worst_le begins member).trans
    (Hit.grade_le_of_standing ahead)))

/-! All rounds. -/

section Rounds

variable (closed : ∀ id, reached id → ∀ link ∈ links id, reached link)
  (inside : ∀ id, reached id → id ∈ nodes) (scored : ∀ id ∈ nodes, (score id).isSome = true)

theorem expandFrom_of_done (width : Nat) (rounds : Nat)
    (done : beam.candidates.pop? bestFirst = none) :
    Beam.expandFrom width links score rounds beam = beam := by
  cases rounds with
  | zero => rfl
  | succ rounds => rw [Beam.expandFrom, done]

theorem done_of_work_eq_zero (none : beam.work nodes = 0) :
    beam.candidates.pop? bestFirst = .none := by
  cases popped : beam.candidates.pop? bestFirst with
  | none => rfl
  | some answer =>
      have size := PriorityQueue.size_of_pop? popped
      rw [work] at none
      omega

include closed inside scored

theorem Sound.expandFrom_add (more rounds : Nat) : ∀ beam : Beam, beam.Sound reached score →
    beam.work nodes ≤ rounds →
    Beam.expandFrom width links score (rounds + more) beam =
      Beam.expandFrom width links score rounds beam := by
  induction rounds with
  | zero =>
      intro beam sound enough
      exact expandFrom_of_done width _ (done_of_work_eq_zero (Nat.le_zero.mp enough))
  | succ rounds ih =>
      intro beam sound enough
      rw [Nat.add_right_comm]
      unfold Beam.expandFrom
      split
      · rfl
      · rename_i nearest candidates popped
        split
        · rfl
        · obtain ⟨nearestReached, rest⟩ := sound.pop popped
          have linked := closed nearest.id nearestReached
          have widens := foldl_visit_widens width scored (links nearest.id)
            { beam with candidates } fun link member => inside link (linked link member)
          have spent := work_round popped widens
          exact ih _ (rest.foldl_visit width _ _ linked) (by omega)

include defined in
theorem Tracks.expandFrom (rounds : Nat) : ∀ beam : Beam, beam.Tracks reached score width →
    beam.Attended links → beam.work nodes ≤ rounds →
    let last := Beam.expandFrom width links score rounds beam
    last.Tracks reached score width ∧ last.Complete links ∧
      ∀ id, beam.seen.contains id = true → last.seen.contains id = true := by
  induction rounds with
  | zero =>
      intro beam tracks attended enough
      exact ⟨tracks, attended.complete_of_done (done_of_work_eq_zero (Nat.le_zero.mp enough)),
        fun _ seen => seen⟩
  | succ rounds ih =>
      intro beam tracks attended enough
      unfold Beam.expandFrom
      split
      · rename_i done
        exact ⟨tracks, attended.complete_of_done done, fun _ seen => seen⟩
      · rename_i nearest candidates popped
        split
        · rename_i settled
          exact ⟨tracks, tracks.complete_of_settled defined attended popped settled,
            fun _ seen => seen⟩
        · have linked := closed nearest.id (tracks.toSound.pop popped).1
          have widens := foldl_visit_widens width scored (links nearest.id)
            { beam with candidates } fun link member => inside link (linked link member)
          have spent := work_round popped widens
          have next := (tracks.pop defined popped).foldl_visit defined
            (fun id reachedId => scored id (inside id reachedId)) _ _ linked
          obtain ⟨last, complete, seen⟩ := ih _ next (attended.round popped widens) (by omega)
          exact ⟨last, complete, fun id old => seen id ((widens.seen id).mpr (Or.inr old))⟩

end Rounds

/-! What is found. -/

section Found

variable {first : VectorId} {rounds : Nat}

def Reached (links : VectorId → List VectorId) (first : VectorId) : Set VectorId :=
  {id | Relation.ReflTransGen (fun node link => link ∈ links node) first id}

theorem Tracks.mem_of_narrow (tracks : beam.Tracks (· ∈ Reached links first) score width)
    (complete : beam.Complete links) (begun : beam.seen.contains first = true)
    (scored : ∀ id ∈ Reached links first, (score id).isSome = true)
    (narrow : beam.results.size ≠ room width) {id : VectorId} (reached : id ∈ Reached links first) :
    id ∈ beam.results.items.toList.map (·.id) := by
  have kept {id : VectorId} (reached : id ∈ Reached links first)
      (seen : beam.seen.contains id = true) : id ∈ beam.results.items.toList.map (·.id) := by
    obtain ⟨value, found⟩ := Option.isSome_iff_exists.mp (scored id reached)
    exact (tracks.leftOut id value seen found).resolve_right fun full => narrow full.1
  refine kept reached ?_
  -- Along a path of links each node is kept, so its links have been seen.
  induction reached with
  | refl => exact begun
  | tail before link seen =>
      obtain ⟨hit, member, rfl⟩ := List.mem_map.mp (kept before seen)
      exact complete hit member _ link

theorem Tracks.size_eq (tracks : beam.Tracks (· ∈ Reached links first) score width)
    (complete : beam.Complete links) (begun : beam.seen.contains first = true)
    (scored : ∀ id ∈ Reached links first, (score id).isSome = true)
    (finite : (Reached links first).Finite) :
    beam.results.size = min (room width) (Reached links first).ncard := by
  have card : (beam.results.items.toList.map (·.id)).toFinset.card = beam.results.size := by
    rw [List.toFinset_card_of_nodup tracks.distinct, List.length_map, Array.length_toList]
    rfl
  have inside : ((beam.results.items.toList.map (·.id)).toFinset : Set VectorId) ⊆
      Reached links first := by
    intro id member
    obtain ⟨hit, found, rfl⟩ := List.mem_map.mp (List.mem_toFinset.mp member)
    exact (tracks.results hit found).1
  have most := Set.ncard_le_ncard inside finite
  rw [Set.ncard_coe_finset, card] at most
  by_cases full : beam.results.size = room width
  · omega
  · have all : Reached links first ⊆ (beam.results.items.toList.map (·.id)).toFinset :=
      fun id reached => List.mem_toFinset.mpr
        (tracks.mem_of_narrow complete begun scored full reached)
    have least := Set.ncard_le_ncard all (Finset.finite_toSet _)
    rw [Set.ncard_coe_finset, card] at least
    have few := tracks.few
    omega

theorem start_tracks {hit : Hit} (inside : reached hit.id)
    (scored : score hit.id = some hit.score) : (start hit).Tracks reached score width := by
  have candidates : (start hit).candidates.items.toList = [hit] :=
    List.perm_singleton.mp (PriorityQueue.push_perm bestFirst PriorityQueue.empty hit)
  have results : (start hit).results.items.toList = [hit] :=
    List.perm_singleton.mp (PriorityQueue.push_perm worstFirst PriorityQueue.empty hit)
  have candidate := congrArg List.length candidates
  have result := congrArg List.length results
  simp only [Array.length_toList, List.length_singleton] at candidate result
  refine { toSound := start_sound inside scored, scored := fun other member => ?_,
           bestAhead := PriorityQueue.heaped_of_few candidate.le,
           worstAhead := PriorityQueue.heaped_of_few result.le,
           few := ?_, leftOut := fun id value seen _ => Or.inl ?_ }
  · rw [candidates, List.mem_singleton] at member
    rw [member]
    exact scored
  · rw [PriorityQueue.size, result]
    exact Nat.le_max_right width 1
  · rw [(contains_start hit id).mp seen, results]
    exact List.mem_cons_self

theorem start_attended (hit : Hit) : (start hit).Attended links := by
  intro other member
  have results := PriorityQueue.push_perm worstFirst PriorityQueue.empty hit
  have candidates := PriorityQueue.push_perm bestFirst PriorityQueue.empty hit
  exact Or.inl (candidates.mem_iff.mpr (results.mem_iff.mp member))

/-- What a search finds: as many of the nodes that can be reached as the beam has room for, best
first, and no better neighbor of such a node is left out. -/
structure Finds (links : VectorId → List VectorId) (score : VectorId → Option Float32)
    (width : Nat) (first : VectorId) (found : List Hit) : Prop where
  distinct : (found.map (·.id)).Nodup
  ordered : found.Pairwise Hit.RanksAbove
  scored : ∀ hit ∈ found, score hit.id = some hit.score
  reached : ∀ hit ∈ found, hit.id ∈ Reached links first
  length : found.length = min (max width 1) (Reached links first).ncard
  border : ∀ hit ∈ found, ∀ link ∈ links hit.id, link ∈ found.map (·.id) ∨
    ∃ value, score link = some value ∧ ∀ other ∈ found, value ≤ other.score

theorem Tracks.finds [Host] (tracks : beam.Tracks (· ∈ Reached links first) score width)
    (complete : beam.Complete links) (begun : beam.seen.contains first = true)
    (scored : ∀ id ∈ Reached links first, (score id).isSome = true)
    (defined : ∀ id value, score id = some value → value.isNaN = false)
    (finite : (Reached links first).Finite) :
    Finds links score width first (Hit.sort beam.results.items.toList) := by
  have perm := Hit.sort_perm beam.results.items.toList
  have result {hit : Hit} (member : hit ∈ Hit.sort beam.results.items.toList) :=
    tracks.results hit (perm.mem_iff.mp member)
  refine ⟨((perm.map (·.id)).nodup_iff).mpr tracks.distinct, ?_,
    fun hit member => (result member).2, fun hit member => (result member).1, ?_, ?_⟩
  · refine Hit.sort_ranksAbove (fun hit member => ?_) tracks.distinct
    exact defined hit.id hit.score (tracks.results hit member).2
  · rw [perm.length_eq]
    exact tracks.size_eq complete begun scored finite
  · intro hit member link linked
    have seen := complete hit (perm.mem_iff.mp member) link linked
    obtain ⟨value, found⟩ := Option.isSome_iff_exists.mp
      (scored link ((result member).1.tail linked))
    refine (tracks.leftOut link value seen found).imp (perm.map (·.id)).mem_iff.mpr fun full =>
      ⟨value, found, fun other otherIn => ?_⟩
    rw [Score.le_iff (defined link value found) (defined _ _ (result otherIn).2)]
    exact full.2 other (perm.mem_iff.mp otherIn)

theorem search_finds [Host] (closed : ∀ id ∈ nodes, ∀ link ∈ links id, link ∈ nodes)
    (scored : ∀ id ∈ nodes, (score id).isSome = true)
    (defined : ∀ id value, score id = some value → value.isNaN = false) (inside : first ∈ nodes)
    (width more : Nat) :
    Finds links score width first (search links score nodes.card width first) ∧
      search links score (nodes.card + more) width first =
        search links score nodes.card width first := by
  have within : ∀ id ∈ Reached links first, id ∈ nodes := fun id =>
    mem_nodes_of_reached closed inside
  have linked : ∀ id ∈ Reached links first, ∀ link ∈ links id, link ∈ Reached links first :=
    fun id reached link member => reached.tail member
  obtain ⟨value, found⟩ := Option.isSome_iff_exists.mp (scored first inside)
  have tracks := @start_tracks (· ∈ Reached links first) score width ⟨first, value⟩
    Relation.ReflTransGen.refl found
  have enough := work_start_le ⟨first, value⟩ inside
  simp only [search_of_scored found]
  refine ⟨?_, ?_⟩
  · obtain ⟨last, complete, seen⟩ := tracks.expandFrom (fun id value _ => defined id value) linked
      within scored nodes.card _ (start_attended _) enough
    exact last.finds complete (seen first ((contains_start _ first).mpr rfl))
      (fun id reached => scored id (within id reached)) defined
      (nodes.finite_toSet.subset within)
  · rw [tracks.toSound.expandFrom_add linked within scored more nodes.card _ enough]

theorem Finds.mem_iff_of_wide {found : List Hit} (finds : Finds links score width first found)
    (finite : (Reached links first).Finite) (wide : (Reached links first).ncard ≤ width)
    (id : VectorId) : id ∈ found.map (·.id) ↔ id ∈ Reached links first := by
  have inside : ((found.map (·.id)).toFinset : Set VectorId) ⊆ Reached links first := by
    intro id member
    obtain ⟨hit, hitIn, rfl⟩ := List.mem_map.mp (List.mem_toFinset.mp member)
    exact finds.reached hit hitIn
  have all := Set.eq_of_subset_of_ncard_le inside (by
    rw [Set.ncard_coe_finset, List.toFinset_card_of_nodup finds.distinct, List.length_map,
      finds.length]
    omega) finite
  rw [← all, Finset.mem_coe, List.mem_toFinset]

end Found

end Beam

namespace GraphIndex

/-- Whatever levels are drawn, a search of a layer from a node on it ends by itself, finds as many
of the nodes that links lead to as its beam has room for, and leaves out no better neighbor of a
node that it finds. With room for all such nodes it finds just these. -/
theorem run_layer_finds [Host] (levelOf : Nat → Nat) (dimension : Nat) (metric : Metric)
    (settings : GraphSettings) (calls : List (VectorId × Embedding)) (query : Embedding)
    (layer : Nat) (start : VectorId) (width : Nat) :
    let index := run levelOf dimension metric settings calls
    let links := index.links.linksAt layer
    let reached := Beam.Reached links start
    let search := fun rounds => Beam.search links (index.store.score query) rounds width start
    let found := search index.store.size
    index.store.ScoresDefined query → layer < index.links.height start →
      Beam.Finds links (index.store.score query) width start found ∧
      (∀ more, search (index.store.size + more) = found) ∧
      reached.Finite ∧
      (reached.ncard ≤ width → ∀ id, id ∈ found.map (·.id) ↔ id ∈ reached) := by
  intro index links reached search found defined tall
  obtain ⟨wellFormed, _⟩ := run_wellFormed levelOf dimension metric settings calls
  have nodes (id : VectorId) : id ∈ index.store.ids.toFinset ↔ index.store.contains id = true := by
    rw [List.mem_toFinset, Store.mem_ids]
  have card : index.store.ids.toFinset.card = index.store.size := by
    rw [List.toFinset_card_of_nodup index.store.nodup_ids, Store.length_ids]
  have closed : ∀ id ∈ index.store.ids.toFinset, ∀ link ∈ links id,
      link ∈ index.store.ids.toFinset :=
    fun _ _ link member => (nodes link).mpr (wellFormed.stored_of_link member)
  have scored : ∀ id ∈ index.store.ids.toFinset, (index.store.score query id).isSome = true :=
    fun id member => (Store.isSome_score index.store query id).trans ((nodes id).mp member)
  have begins : start ∈ index.store.ids.toFinset := by
    rw [nodes, ← wellFormed.nodes]
    exact LinkTable.contains_of_height (Nat.zero_lt_of_lt tall)
  have finite : reached.Finite := index.store.ids.toFinset.finite_toSet.subset fun _ =>
    Beam.mem_nodes_of_reached closed begins
  have ends (more : Nat) := Beam.search_finds closed scored defined begins width more
  rw [card] at ends
  exact ⟨(ends 0).1, fun more => (ends more).2, finite, (ends 0).1.mem_iff_of_wide finite⟩

theorem run_layer_finds_two :
    let index := run (fun draw => draw % 2) 1 .dotProduct { maxLinks := 1 }
      [(1, #[2]), (7, #[1]), (4, #[3]), (9, #[4])]
    let links := index.links.linksAt 0
    let reached := Beam.Reached links 7
    let search := fun rounds => Beam.search links (index.store.score #[1]) rounds 2 7
    let found := search index.store.size
    index.store.ScoresDefined #[1] ∧ 0 < index.links.height 7 ∧
      found.map (·.id) = [9, 4] ∧ Beam.Finds links (index.store.score #[1]) 2 7 found ∧
      (∀ more, search (index.store.size + more) = found) ∧
      reached.Finite ∧
      (reached.ncard ≤ 2 → ∀ id, id ∈ found.map (·.id) ↔ id ∈ reached) := by
  intro index links reached search found
  have defined : index.store.ScoresDefined #[1] := Store.scoresDefined_of_all (by decide +kernel)
  have tall : 0 < index.links.height 7 := by decide +kernel
  exact ⟨defined, tall, by decide +kernel, run_layer_finds (fun draw => draw % 2) 1 .dotProduct
    { maxLinks := 1 } [(1, #[2]), (7, #[1]), (4, #[3]), (9, #[4])] #[1] 0 7 2 defined tall⟩

end GraphIndex

end VectorSearch

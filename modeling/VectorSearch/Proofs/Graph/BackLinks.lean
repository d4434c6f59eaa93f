import VectorSearch.Proofs.Graph.Structure
/-!
Who links back to a new node. A node that a new one is linked to links back, unless it has all the
links it may have and each of them ranks ahead of the new one. So a new node can be left without
any link to it, and this is the only way.
-/

namespace VectorSearch.GraphIndex

/-- A node has no room for a newcomer: it has as many links as it may have, and seen from it each
of them ranks ahead of the newcomer. -/
def Saturated (store : Store) (capacity : Nat) (links : LinkSet) (id newcomer : VectorId) : Prop :=
  capacity ≤ links.length ∧ ∀ link ∈ links, store.Prefers id link newcomer

theorem prefers_iff {store : Store} {id link newcomer : VectorId} {row : Embedding}
    {near far : Float32} (stored : store.get? id = some row)
    (nearScored : store.score row link = some near)
    (farScored : store.score row newcomer = some far) :
    store.Prefers id link newcomer ↔
      (Hit.mk link near).precedes (Hit.mk newcomer far) = true := by
  constructor
  · rintro ⟨otherRow, otherNear, otherFar, otherStored, otherNearScored, otherFarScored, ahead⟩
    rw [stored] at otherStored
    cases otherStored
    rw [nearScored] at otherNearScored
    rw [farScored] at otherFarScored
    cases otherNearScored
    cases otherFarScored
    exact ahead
  · intro ahead
    exact ⟨row, near, far, stored, nearScored, farScored, ahead⟩

theorem mem_nearestLinks [Host] {store : Store} {id : VectorId} {row : Embedding}
    (stored : store.get? id = some row) (capacity : Nat) (links : LinkSet) (link : VectorId) :
    link ∈ nearestLinks store capacity id links ↔
      ∃ hit ∈ Hit.rank (store.hitsOf row links) capacity, hit.id = link := by
  unfold nearestLinks
  rw [stored]
  dsimp only
  rw [LinkSet.mem_insertAll, List.mem_map]
  exact or_iff_left List.not_mem_nil

theorem mem_nearestLinks_insert [Host] {store : Store} {links : LinkSet} {id newcomer : VectorId}
    (comparable : store.Comparable id (newcomer :: links)) (stored : store.contains id = true)
    (newcomerStored : store.contains newcomer = true)
    (linksStored : ∀ link ∈ links, store.contains link = true) (distinct : links.Nodup)
    (absent : newcomer ∉ links) :
    newcomer ∈ nearestLinks store links.length id (LinkSet.insert newcomer links) ↔
      ∃ link ∈ links, ¬ store.Prefers id link newcomer := by
  rw [← Store.isSome_get?] at stored
  obtain ⟨row, rowEq⟩ := Option.isSome_iff_exists.mp stored
  rw [← Store.isSome_score store row] at newcomerStored
  obtain ⟨far, farScored⟩ := Option.isSome_iff_exists.mp newcomerStored
  have ids := Store.map_id_hitsOf store row links linksStored
  have scored {others : LinkSet} {hit : Hit} (member : hit ∈ store.hitsOf row others) :
      store.score row hit.id = some hit.score :=
    ((Store.mem_hitsOf store row others hit).mp member).2
  have hits : (store.hitsOf row (LinkSet.insert newcomer links)).Perm
      (⟨newcomer, far⟩ :: store.hitsOf row links) := by
    rw [← Store.hitsOf_cons store row farScored]
    exact (LinkSet.insert_perm absent).filterMap _
  have different := store.nodup_map_id_hitsOf row
    ((LinkSet.insert_perm absent).nodup_iff.mpr (List.nodup_cons.mpr ⟨absent, distinct⟩))
  have defined : ∀ hit ∈ store.hitsOf row (LinkSet.insert newcomer links),
      hit.score.isNaN = false := by
    intro hit member
    have among := ((Store.mem_hitsOf store row _ hit).mp member).1
    rw [LinkSet.mem_insert, ← List.mem_cons] at among
    exact comparable row hit.id hit.score rowEq among (scored member)
  have ranked := Hit.mem_rank_length_iff hits defined different
  have length : (store.hitsOf row links).length = links.length := by
    rw [← List.length_map (·.id), ids]
  rw [length] at ranked
  rw [mem_nearestLinks rowEq]
  constructor
  · rintro ⟨hit, hitRanked, rfl⟩
    have own := scored (Hit.mem_of_mem_rank hitRanked)
    rw [Option.some.inj (farScored.symm.trans own)] at ranked
    obtain ⟨other, member, behind⟩ := ranked.mp hitRanked
    refine ⟨other.id, ids ▸ List.mem_map_of_mem member, fun prefers => behind ?_⟩
    exact (prefers_iff rowEq (scored member) own).mp prefers
  · rintro ⟨link, member, behind⟩
    rw [← ids] at member
    obtain ⟨hit, hitIn, rfl⟩ := List.mem_map.mp member
    refine ⟨_, ranked.mpr ⟨hit, hitIn, fun ahead => behind ?_⟩, rfl⟩
    exact (prefers_iff rowEq (scored hitIn) farScored).mpr ahead

theorem mem_linksWith_iff [Host] {store : Store} {capacity : Nat} {links : LinkSet}
    {id newcomer : VectorId} (comparable : store.Comparable id (newcomer :: links))
    (stored : store.contains id = true)
    (newcomerStored : store.contains newcomer = true)
    (linksStored : ∀ link ∈ links, store.contains link = true) (distinct : links.Nodup)
    (absent : newcomer ∉ links) (few : links.length ≤ capacity) :
    newcomer ∈ linksWith store capacity newcomer id links ↔
      ¬ Saturated store capacity links id newcomer := by
  have length := (LinkSet.insert_perm absent).length_eq
  rw [List.length_cons] at length
  unfold linksWith Saturated
  dsimp only
  split
  · have full : links.length = capacity := by omega
    subst full
    rw [mem_nearestLinks_insert comparable stored newcomerStored linksStored distinct absent,
      and_iff_right (Nat.le_refl _), not_forall]
    exact exists_congr fun link => (Classical.not_imp).symm
  · refine iff_of_true ((LinkSet.mem_insert newcomer newcomer links).mpr (Or.inl rfl)) ?_
    rintro ⟨full, _⟩
    omega

/-! A new node. -/

theorem WellFormed.mem_links_attach [Host] {index : GraphIndex} (wellFormed : index.WellFormed)
    {id : VectorId} {row : Embedding} (fresh : index.store.contains id = false)
    (nonempty : index.store.isEmpty = false)
    (comparable : ∀ viewer, (index.store.put id row).Comparable viewer
      (id :: index.links.linksAt 0 viewer))
    (level : Nat) :
    let after := (index.awaiting id row).attach id row level
    (0 < index.settings.maxLinks → after.links.linksAt 0 id ≠ []) ∧
      ∀ other, other ≠ id → (id ∈ after.links.linksAt 0 other ↔
        other ∈ after.links.linksAt 0 id ∧
          ¬ Saturated after.store (index.settings.capacity 0) (index.links.linksAt 0 other)
            other id) := by
  intro after
  have absent : index.links.contains id = false := (wellFormed.nodes id).trans fresh
  obtain ⟨pending, stored⟩ := wellFormed.awaiting id row
  have occupied : index.entry ≠ none := by
    rw [Ne, wellFormed.entry_eq_none_iff, nonempty]
    exact Bool.false_ne_true
  obtain ⟨entry, begins⟩ := Option.ne_none_iff_exists'.mp occupied
  obtain ⟨chosen, some, others, linksAt⟩ := pending.linksAt_attach absent begins stored row level
  have mem_own (other : VectorId) : other ∈ after.links.linksAt 0 id ↔ other ∈ chosen := by
    rw [linksAt, if_pos rfl, LinkSet.mem_insertAll]
    exact or_iff_left List.not_mem_nil
  have inTable {node link : VectorId} (found : link ∈ index.links.linksAt 0 node) :
      index.links.contains link = true :=
    LinkTable.contains_of_height (wellFormed.sound.target 0 node link found).2
  refine ⟨fun room empty => ?_, fun other different => ?_⟩
  · obtain ⟨node, member⟩ := List.exists_mem_of_ne_nil chosen (some room)
    rw [← mem_own, empty] at member
    exact List.not_mem_nil member
  · have silent : id ∉ index.links.linksAt 0 other := by
      intro found
      rw [inTable found] at absent
      exact absurd absent (by decide)
    rw [mem_own, linksAt, if_neg different, (store_attach _ _ _ _).1]
    split
    · rename_i member
      rw [and_iff_right member]
      exact mem_linksWith_iff (comparable other)
        (stored other (Or.inr (others other member).2)) (stored id (Or.inl rfl))
        (fun link found => stored link (Or.inr (inTable found)))
        ((wellFormed.sound.ascending 0 other).imp Nat.ne_of_lt) silent
        (wellFormed.sound.degree 0 other)
    · rename_i notChosen
      exact iff_of_false silent fun both => notChosen both.1

/-- A new vector that is inserted into an index with others gets links on layer zero, and of the
nodes that it is linked to just those link back that are not saturated. So it is left without a
link to it exactly when all of them are. -/
theorem insert_linked_iff [Host] (levelOf : Nat → Nat) (dimension : Nat) (metric : Metric)
    (settings : GraphSettings) (calls : List (VectorId × Embedding)) (id : VectorId)
    (row : Embedding) (room : 0 < settings.maxLinks)
    (fresh : (run levelOf dimension metric settings calls).store.contains id = false)
    (nonempty : (run levelOf dimension metric settings calls).store.isEmpty = false)
    (fits : row.size = (run levelOf dimension metric settings calls).store.dimension)
    (comparable : ∀ viewer,
      ((run levelOf dimension metric settings calls).store.put id row).Comparable viewer
        (id :: (run levelOf dimension metric settings calls).links.linksAt 0 viewer)) :
    let before := run levelOf dimension metric settings calls
    ∃ after, before.insertWith levelOf id row = .ok after ∧
      after.links.linksAt 0 id ≠ [] ∧
      (∀ other, other ≠ id → (id ∈ after.links.linksAt 0 other ↔
        other ∈ after.links.linksAt 0 id ∧
          ¬ Saturated after.store (2 * settings.maxLinks) (before.links.linksAt 0 other)
            other id)) ∧
      ((∃ other, other ≠ id ∧ id ∈ after.links.linksAt 0 other) ↔
        ∃ other ∈ after.links.linksAt 0 id,
          ¬ Saturated after.store (2 * settings.maxLinks) (before.links.linksAt 0 other)
            other id) := by
  intro before
  obtain ⟨wellFormed, same⟩ := run_wellFormed levelOf dimension metric settings calls
  have inserted := insertWith_of_new levelOf fits fresh
  obtain ⟨linked, back⟩ := wellFormed.mem_links_attach fresh nonempty comparable
    (levelOf (before.drawn + 1))
  have capacity : before.settings.capacity 0 = 2 * settings.maxLinks := by
    rw [same, GraphSettings.capacity, if_pos rfl, Nat.mul_comm]
  rw [capacity] at back
  refine ⟨_, inserted, linked ?_, back, ?_⟩
  · rw [same]
    exact room
  obtain ⟨after, _⟩ := wellFormed.insertWith inserted
  constructor
  · rintro ⟨other, different, member⟩
    exact ⟨other, (back other different).mp member⟩
  · rintro ⟨other, member, vacancy⟩
    have different := (after.sound.target 0 id other member).1
    exact ⟨other, different, (back other different).mpr ⟨member, vacancy⟩⟩

theorem insert_linked_second :
    let before := run (fun _ => 0) 1 .dotProduct { maxLinks := 1 } [(1, #[0])]
    0 < 1 ∧ before.store.contains 2 = false ∧ before.store.isEmpty = false ∧
    (#[0] : Embedding).size = before.store.dimension ∧
    (∀ viewer, (before.store.put 2 #[0]).Comparable viewer
      (2 :: before.links.linksAt 0 viewer)) ∧
    ∃ after, before.insertWith (fun _ => 0) 2 #[0] = .ok after ∧
      after.links.linksAt 0 2 ≠ [] ∧
      (∀ other, other ≠ 2 → (2 ∈ after.links.linksAt 0 other ↔
        other ∈ after.links.linksAt 0 2 ∧
          ¬ Saturated after.store (2 * 1) (before.links.linksAt 0 other) other 2)) ∧
      ((∃ other, other ≠ 2 ∧ 2 ∈ after.links.linksAt 0 other) ↔
        ∃ other ∈ after.links.linksAt 0 2,
          ¬ Saturated after.store (2 * 1) (before.links.linksAt 0 other) other 2) := by
  intro before
  have fresh : before.store.contains 2 = false := by decide
  have nonempty : before.store.isEmpty = false := by decide
  have fits : (#[0] : Embedding).size = before.store.dimension := by decide
  have comparable : ∀ viewer, (before.store.put 2 #[0]).Comparable viewer
      (2 :: before.links.linksAt 0 viewer) :=
    fun viewer => Store.comparable_of_all (by decide +kernel) viewer _
  exact ⟨Nat.one_pos, fresh, nonempty, fits, comparable,
    insert_linked_iff (fun _ => 0) 1 .dotProduct { maxLinks := 1 } [(1, #[0])] 2 #[0] Nat.one_pos
      fresh nonempty fits comparable⟩

/-- Of equal vectors with two links at most, the fourth is linked to the first one, which keeps
its links to the second and the third. -/
theorem not_forall_insert_linked :
    ¬ ∀ (levelOf : Nat → Nat) (dimension : Nat) (metric : Metric) (settings : GraphSettings)
      (calls : List (VectorId × Embedding)) (id : VectorId) (row : Embedding),
      0 < settings.maxLinks →
      (run levelOf dimension metric settings calls).store.contains id = false →
      (run levelOf dimension metric settings calls).store.isEmpty = false →
      row.size = (run levelOf dimension metric settings calls).store.dimension →
      (∀ viewer, ((run levelOf dimension metric settings calls).store.put id row).Comparable viewer
        ((run levelOf dimension metric settings calls).store.put id row).ids) →
      ∃ after, (run levelOf dimension metric settings calls).insertWith levelOf id row = .ok after ∧
        ∃ other, other ≠ id ∧ id ∈ after.links.linksAt 0 other := by
  intro linked
  have comparable := @Store.comparable_of_all
    ((run (fun _ => 0) 1 .dotProduct { maxLinks := 1 }
      [(1, #[0]), (2, #[0]), (3, #[0])]).store.put 4 #[0]) (by decide +kernel)
  obtain ⟨after, inserted, other, different, member⟩ := linked (fun _ => 0) 1 .dotProduct
    { maxLinks := 1 } [(1, #[0]), (2, #[0]), (3, #[0])] 4 #[0] Nat.one_pos (by decide) (by decide)
    (by decide) fun viewer => comparable viewer _
  have silent : ((run (fun _ => 0) 1 .dotProduct { maxLinks := 1 }
      [(1, #[0]), (2, #[0]), (3, #[0])]).insertWith (fun _ => 0) 4 #[0]).toOption.all
        (fun after => after.links.keys.all fun node =>
          decide (node ≠ 4 → 4 ∉ after.links.linksAt 0 node)) = true := by
    decide +kernel
  rw [inserted] at silent
  have node := LinkTable.contains_of_height (Nat.zero_lt_of_lt (LinkTable.lt_height_of_mem member))
  rw [← Std.TreeMap.mem_iff_contains, ← Std.TreeMap.mem_keys] at node
  exact of_decide_eq_true (List.all_eq_true.mp silent other node) different member

end VectorSearch.GraphIndex

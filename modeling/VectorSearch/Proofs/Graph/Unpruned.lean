import VectorSearch.Proofs.Graph.Exhaustion
import VectorSearch.Proofs.Graph.Search
import VectorSearch.Proofs.Store.Layout
/-!
Small graphs. As long as no node can have more links on layer zero than there is room for, no link
is ever dropped there: links stay paired, all nodes stay joined, and a wide enough search is exact.
-/

namespace VectorSearch

theorem LinkTable.Sound.length_lt_size {settings : GraphSettings} {table : LinkTable}
    (sound : table.Sound settings) {store : Store}
    (stored : ∀ id, table.contains id = true → store.contains id = true) (layer : Nat)
    {id : VectorId} (known : store.contains id = true) :
    (table.linksAt layer id).length < store.size := by
  have distinct : (id :: table.linksAt layer id).Nodup :=
    List.nodup_cons.mpr ⟨fun member => (sound.target layer id id member).1 rfl,
      (sound.ascending layer id).imp Nat.ne_of_lt⟩
  have inside : id :: table.linksAt layer id ⊆ store.ids := by
    intro other member
    rw [Store.mem_ids]
    rcases List.mem_cons.mp member with rfl | link
    · exact known
    · have tall := (sound.target layer id other link).2
      exact stored other (LinkTable.contains_of_height (Nat.zero_lt_of_lt tall))
  have bound := (List.subperm_of_subset distinct inside).length_le
  rw [List.length_cons, Store.length_ids] at bound
  exact bound

namespace GraphIndex

def Paired (index : GraphIndex) : Prop :=
  ∀ id other, other ∈ index.links.linksAt 0 id ↔ id ∈ index.links.linksAt 0 other

def Reaches (index : GraphIndex) : VectorId → VectorId → Prop :=
  Relation.ReflTransGen fun node link => link ∈ index.links.linksAt 0 node

def Joined (index : GraphIndex) : Prop :=
  ∀ id other, index.store.contains id = true → index.store.contains other = true →
    index.Reaches id other

variable {index : GraphIndex}

/-! A new node. -/

theorem linksWith_of_room [Host] {store : Store} {capacity : Nat} {newcomer id : VectorId}
    {links : LinkSet} (room : links.length < capacity) :
    linksWith store capacity newcomer id links = LinkSet.insert newcomer links := by
  have length := LinkSet.length_insert_le newcomer links
  unfold linksWith
  dsimp only
  rw [if_neg (by omega)]

theorem WellFormed.mem_linksAt_attach [Host] (wellFormed : index.WellFormed) {id : VectorId}
    (row : Embedding) (fresh : index.store.contains id = false)
    (nonempty : index.store.isEmpty = false) (linked : 0 < index.settings.maxLinks)
    (few : index.store.size ≤ 2 * index.settings.maxLinks) (level : Nat) :
    ∃ chosen : List VectorId, chosen ≠ [] ∧
      (∀ node ∈ chosen, node ≠ id ∧ index.store.contains node = true) ∧
      ∀ node link, link ∈ ((index.awaiting id row).attach id row level).links.linksAt 0 node ↔
        node = id ∧ link ∈ chosen ∨ node ∈ chosen ∧ link = id ∨
          link ∈ index.links.linksAt 0 node := by
  have absent : index.links.contains id = false := (wellFormed.nodes id).trans fresh
  obtain ⟨pending, stored⟩ := wellFormed.awaiting id row
  have occupied : index.entry ≠ none := by
    rw [Ne, wellFormed.entry_eq_none_iff, nonempty]
    exact Bool.false_ne_true
  obtain ⟨entry, begins⟩ := Option.ne_none_iff_exists'.mp occupied
  obtain ⟨chosen, some, others, linksAt⟩ := pending.linksAt_attach absent begins stored row level
  have known (node : VectorId) (member : node ∈ chosen) : index.store.contains node = true :=
    (wellFormed.nodes node).symm.trans (others node member).2
  have silent : index.links.linksAt 0 id = [] :=
    LinkTable.linksAt_of_height_le (LinkTable.height_eq_zero absent).le
  refine ⟨chosen, some linked, fun node member => ⟨(others node member).1, known node member⟩, ?_⟩
  intro node link
  rw [linksAt]
  by_cases own : node = id
  · subst own
    have apart : node ∉ chosen := fun member => (others node member).1 rfl
    rw [if_pos rfl, LinkSet.mem_insertAll, silent]
    simp [apart]
  · rw [if_neg own]
    by_cases member : node ∈ chosen
    · have degree := wellFormed.sound.length_lt_size
        (fun other found => (wellFormed.nodes other).symm.trans found) 0 (known node member)
      have capacity : index.settings.capacity 0 = 2 * index.settings.maxLinks := by
        rw [GraphSettings.capacity, if_pos rfl, Nat.mul_comm]
      have room : ((index.awaiting id row).links.linksAt 0 node).length <
          (index.awaiting id row).settings.capacity 0 := by
        change (index.links.linksAt 0 node).length < index.settings.capacity 0
        omega
      rw [if_pos member, linksWith_of_room room, LinkSet.mem_insert]
      simp [own, member, GraphIndex.awaiting]
    · rw [if_neg member]
      simp [own, member, GraphIndex.awaiting]

theorem contains_store_attach [Host] (index : GraphIndex) (id : VectorId) (row : Embedding)
    (level : Nat) (node : VectorId) :
    ((index.awaiting id row).attach id row level).store.contains node = true ↔
      node = id ∨ index.store.contains node = true := by
  rw [(store_attach _ _ _ _).1]
  exact index.store.contains_put id row node

theorem WellFormed.paired_attach [Host] (wellFormed : index.WellFormed) (paired : index.Paired)
    {id : VectorId} {row : Embedding} (fresh : index.store.contains id = false)
    (nonempty : index.store.isEmpty = false) (linked : 0 < index.settings.maxLinks)
    (few : index.store.size ≤ 2 * index.settings.maxLinks) (level : Nat) :
    ((index.awaiting id row).attach id row level).Paired := by
  obtain ⟨chosen, _, _, links⟩ :=
    wellFormed.mem_linksAt_attach row fresh nonempty linked few level
  intro node other
  rw [links, links, paired node other, or_left_comm]
  exact or_congr and_comm (or_congr_left and_comm)

theorem WellFormed.joined_attach [Host] (wellFormed : index.WellFormed) (joined : index.Joined)
    {id : VectorId} {row : Embedding} (fresh : index.store.contains id = false)
    (nonempty : index.store.isEmpty = false) (linked : 0 < index.settings.maxLinks)
    (few : index.store.size ≤ 2 * index.settings.maxLinks) (level : Nat) :
    ((index.awaiting id row).attach id row level).Joined := by
  obtain ⟨chosen, some, others, links⟩ :=
    wellFormed.mem_linksAt_attach row fresh nonempty linked few level
  obtain ⟨near, member⟩ := List.exists_mem_of_ne_nil chosen some
  -- Old paths stay, and every new one goes through the link to one old node.
  have kept {node other : VectorId} (reached : index.Reaches node other) :
      ((index.awaiting id row).attach id row level).Reaches node other :=
    Relation.ReflTransGen.mono (fun _ _ link => (links _ _).mpr (Or.inr (Or.inr link))) _ _ reached
  have leave : ((index.awaiting id row).attach id row level).Reaches id near :=
    Relation.ReflTransGen.single ((links id near).mpr (Or.inl ⟨rfl, member⟩))
  have enter : ((index.awaiting id row).attach id row level).Reaches near id :=
    Relation.ReflTransGen.single ((links near id).mpr (Or.inr (Or.inl ⟨member, rfl⟩)))
  have nearStored := (others near member).2
  intro node other nodeStored otherStored
  rw [contains_store_attach] at nodeStored otherStored
  rcases nodeStored with rfl | nodeOld
  · rcases otherStored with rfl | otherOld
    · exact Relation.ReflTransGen.refl
    · exact leave.trans (kept (joined near other nearStored otherOld))
  · rcases otherStored with rfl | otherOld
    · exact (kept (joined node near nodeOld nearStored)).trans enter
    · exact kept (joined node other nodeOld otherOld)

theorem WellFormed.paired_joined_first [Host] (wellFormed : index.WellFormed)
    (vacant : index.store.isEmpty = true) (id : VectorId) (row : Embedding) (level : Nat) :
    ((index.awaiting id row).attach id row level).Paired ∧
      ((index.awaiting id row).attach id row level).Joined := by
  have none : (index.awaiting id row).entry = none := wellFormed.entry_eq_none_iff.mpr vacant
  have unknown := (Store.isEmpty_iff index.store).mp vacant
  have silent (node : VectorId) :
      ((index.awaiting id row).attach id row level).links.linksAt 0 node = [] := by
    rw [attach_of_none none, LinkTable.linksAt_addNode]
    split
    · rfl
    · have absent : index.links.contains node = false :=
        (wellFormed.nodes node).trans (unknown node)
      exact LinkTable.linksAt_of_height_le (LinkTable.height_eq_zero absent).le
  refine ⟨fun node other => by rw [silent, silent]; simp, ?_⟩
  intro node other nodeStored otherStored
  rw [contains_store_attach, unknown] at nodeStored otherStored
  simp only [Bool.false_eq_true, or_false] at nodeStored otherStored
  rw [nodeStored, otherStored]
  exact Relation.ReflTransGen.refl

/-! Runs. -/

theorem insertWith_of_unfit [Host] (levelOf : Nat → Nat) {index : GraphIndex} {row : Embedding}
    (unfit : row.size ≠ index.store.dimension) (id : VectorId) :
    index.insertWith levelOf id row =
      .error (.dimensionMismatch index.store.dimension row.size) := by
  rw [insertWith, Store.upsert, Store.checkDimension_eq_error unfit]
  rfl

theorem store_run [Host] (levelOf : Nat → Nat) (dimension : Nat) (metric : Metric)
    (settings : GraphSettings) (calls : List (VectorId × Embedding)) :
    (run levelOf dimension metric settings calls).store =
      (FlatIndex.run dimension metric calls).store := by
  refine runCalls_agree _ _
    (fun (index : GraphIndex) (flat : FlatIndex) => index.store = flat.store) ?_ calls _ _ rfl
  intro index flat call same
  by_cases fits : call.2.size = index.store.dimension
  · rw [FlatIndex.insert_of_fits (same ▸ fits)]
    cases known : index.store.contains call.1 with
    | true =>
        rw [insertWith_of_known levelOf fits known]
        exact congrArg (·.put call.1 call.2) same
    | false =>
        rw [insertWith_of_new levelOf fits known]
        exact (store_attach _ _ _ _).1.trans (congrArg (·.put call.1 call.2) same)
  · rw [FlatIndex.insert_of_unfit (same ▸ fits), insertWith_of_unfit levelOf fits]
    exact same

theorem WellFormed.paired_joined_insertWith [Host] {levelOf : Nat → Nat} {after : GraphIndex}
    (wellFormed : index.WellFormed) (linked : 0 < index.settings.maxLinks) {id : VectorId}
    {row : Embedding} (inserted : index.insertWith levelOf id row = .ok after)
    (before : index.store.size ≤ 2 * index.settings.maxLinks + 1 → index.Paired ∧ index.Joined)
    (few : after.store.size ≤ 2 * index.settings.maxLinks + 1) : after.Paired ∧ after.Joined := by
  have fits := size_of_insertWith inserted
  cases known : index.store.contains id with
  | true =>
      rw [insertWith_of_known levelOf fits known] at inserted
      obtain rfl := Except.ok.inj inserted
      obtain ⟨paired, joined⟩ := before (Store.size_put_of_known known row ▸ few)
      have stored (node : VectorId) : (index.store.put id row).contains node = true →
          index.store.contains node = true := by
        rw [Store.contains_put]
        rintro (rfl | old)
        · exact known
        · exact old
      exact ⟨paired, fun node other one two =>
        joined node other (stored node one) (stored other two)⟩
  | false =>
      rw [insertWith_of_new levelOf fits known] at inserted
      obtain rfl := Except.ok.inj inserted
      rw [(store_attach _ _ _ _).1] at few
      have size : (index.awaiting id row).store.size = index.store.size + 1 :=
        Store.size_put_of_new known row
      cases vacant : index.store.isEmpty with
      | true => exact wellFormed.paired_joined_first vacant id row _
      | false =>
          obtain ⟨paired, joined⟩ := before (by omega)
          exact ⟨wellFormed.paired_attach paired known vacant linked (by omega) _,
            wellFormed.joined_attach joined known vacant linked (by omega) _⟩

theorem run_paired_joined [Host] (levelOf : Nat → Nat) (dimension : Nat) (metric : Metric)
    (settings : GraphSettings) (linked : 0 < settings.maxLinks)
    (calls : List (VectorId × Embedding))
    (few : (run levelOf dimension metric settings calls).store.size ≤ 2 * settings.maxLinks + 1) :
    (run levelOf dimension metric settings calls).Paired ∧
      (run levelOf dimension metric settings calls).Joined := by
  have unpruned : let index := run levelOf dimension metric settings calls
      (index.WellFormed ∧ index.settings = settings) ∧
        (index.store.size ≤ 2 * settings.maxLinks + 1 → index.Paired ∧ index.Joined) := by
    refine runCalls_induction _ (fun index : GraphIndex =>
      (index.WellFormed ∧ index.settings = settings) ∧
        (index.store.size ≤ 2 * settings.maxLinks + 1 → index.Paired ∧ index.Joined)) ?_ calls _
      ⟨⟨WellFormed.empty dimension metric settings, rfl⟩, fun _ => ⟨?_, ?_⟩⟩
    · rintro index call after ⟨⟨wellFormed, rfl⟩, before⟩ inserted
      obtain ⟨next, same⟩ := wellFormed.insertWith inserted
      exact ⟨⟨next, same⟩, wellFormed.paired_joined_insertWith linked inserted before⟩
    · have silent (node : VectorId) : LinkTable.linksAt ∅ 0 node = [] :=
        LinkTable.linksAt_of_height_le (LinkTable.height_eq_zero Std.TreeMap.contains_emptyc).le
      intro node other
      rw [GraphIndex.empty, silent, silent]
      simp
    · intro node other stored
      exact absurd stored (by simp [GraphIndex.empty, Store.empty, Store.contains])
  exact unpruned.2 few

/-! Searches. -/

theorem WellFormed.mem_beam [Host] (wellFormed : index.WellFormed) (joined : index.Joined)
    {query : Embedding} {count : Nat} {knobs : Knobs}
    (wide : index.store.size ≤ index.breadth count knobs) {start : VectorId}
    (stored : index.store.contains start = true) {hit : Hit}
    (scored : index.store.Scored query hit) : hit ∈ index.beam query count knobs start := by
  have card : index.store.ids.toFinset.card = index.store.size := by
    rw [List.toFinset_card_of_nodup index.store.nodup_ids, Store.length_ids]
  have inside (id : VectorId) : id ∈ index.store.ids.toFinset ↔
      index.store.contains id = true := by rw [List.mem_toFinset, Store.mem_ids]
  have closed : ∀ id ∈ index.store.ids.toFinset, ∀ link ∈ index.links.linksAt 0 id,
      link ∈ index.store.ids.toFinset := by
    intro id _ link member
    exact (inside link).mpr (wellFormed.stored_of_link member)
  have scores : ∀ id ∈ index.store.ids.toFinset, (index.store.score query id).isSome = true :=
    fun id member => (Store.isSome_score index.store query id).trans ((inside id).mp member)
  have reached := joined start hit.id stored (Store.contains_of_scored scored)
  have listed := Beam.search_exhaustive (card.trans_le wide) closed scores card.le
    ((inside start).mpr stored) reached
  obtain ⟨⟨id, score⟩, member, same⟩ := List.mem_map.mp listed
  have otherScored := (beam_sound stored query count knobs).2 _ member
  obtain ⟨other, otherScore⟩ := hit
  obtain rfl : id = other := same
  obtain rfl : otherScore = score := Option.some.inj (scored.symm.trans otherScored)
  exact member

theorem WellFormed.search_joined [Host] (wellFormed : index.WellFormed) (joined : index.Joined)
    {query : Embedding} (fits : query.size = index.store.dimension)
    (defined : index.store.ScoresDefined query) {count : Nat} {knobs : Knobs}
    (wide : index.store.size ≤ index.breadth count knobs) :
    ∃ hits, index.search query count knobs = .ok hits ∧
      Hit.IsBest (index.store.Scored query) count hits := by
  rcases wellFormed.search_eq fits count knobs with ⟨vacant, found⟩ | ⟨start, stored, found⟩
  · refine ⟨_, found, by simp, by simp, by simp, fun other scored => ?_⟩
    have known := Store.contains_of_scored scored
    rw [(Store.isEmpty_iff index.store).mp vacant] at known
    exact absurd known Bool.false_ne_true
  · obtain ⟨distinct, sound⟩ := beam_sound stored query count knobs
    have proper (hit : Hit) (member : hit ∈ index.beam query count knobs start) :=
      defined hit.id hit.score (sound hit member)
    refine ⟨_, found, (Beam.isBest_take_search distinct proper count).congr fun hit => ?_⟩
    exact ⟨wellFormed.mem_beam joined wide stored, sound hit⟩

/-- As long as a vector can be linked to all others, links on layer zero lead both ways and join
all vectors, whatever levels are drawn; and a search whose beam has room for all vectors finds just
what the exact index finds. -/
theorem search_eq_flat_of_few [Host] (levelOf : Nat → Nat) (dimension : Nat) (metric : Metric)
    (settings : GraphSettings) (calls : List (VectorId × Embedding))
    (linked : 0 < settings.maxLinks)
    (few : (run levelOf dimension metric settings calls).store.size ≤ 2 * settings.maxLinks + 1) :
    let index := run levelOf dimension metric settings calls
    (∀ id other, other ∈ index.links.linksAt 0 id ↔ id ∈ index.links.linksAt 0 other) ∧
    (∀ id other, index.store.contains id = true → index.store.contains other = true →
      Relation.ReflTransGen (fun node link => link ∈ index.links.linksAt 0 node) id other) ∧
    ∀ (query : Embedding) (count : Nat) (knobs : Knobs), index.store.ScoresDefined query →
      index.store.size ≤
        max (if knobs.breadth = 0 then settings.searchBreadth else knobs.breadth) count →
      index.search query count knobs =
        (FlatIndex.run dimension metric calls).search query count := by
  intro index
  obtain ⟨wellFormed, same⟩ := run_wellFormed levelOf dimension metric settings calls
  obtain ⟨paired, joined⟩ := run_paired_joined levelOf dimension metric settings linked calls few
  have store := store_run levelOf dimension metric settings calls
  refine ⟨paired, joined, fun query count knobs defined wide => ?_⟩
  by_cases fits : query.size = index.store.dimension
  · have breadth : index.breadth count knobs =
        max (if knobs.breadth = 0 then settings.searchBreadth else knobs.breadth) count := by
      rw [GraphIndex.breadth, same, Knobs.orElse]
    obtain ⟨hits, found, best⟩ := wellFormed.search_joined joined fits defined (breadth ▸ wide)
    rw [found, FlatIndex.search_eq_ok (store ▸ fits) (store ▸ defined) (store ▸ best)]
  · rw [search_of_unfit fits, FlatIndex.search_of_unfit (store ▸ fits), ← store]

theorem search_eq_flat_of_three :
    let calls : List (VectorId × Embedding) := [(1, #[2]), (7, #[1]), (4, #[3]), (7, #[3])]
    let index := run (fun draw => draw % 2) 1 .dotProduct { maxLinks := 1 } calls
    0 < 1 ∧ index.store.size ≤ 2 * 1 + 1 ∧ index.store.ScoresDefined #[1] ∧
    index.store.size ≤ max 3 2 ∧
    (∀ id other, other ∈ index.links.linksAt 0 id ↔ id ∈ index.links.linksAt 0 other) ∧
    (∀ id other, index.store.contains id = true → index.store.contains other = true →
      Relation.ReflTransGen (fun node link => link ∈ index.links.linksAt 0 node) id other) ∧
    index.search #[1] 2 { breadth := 3 } = (FlatIndex.run 1 .dotProduct calls).search #[1] 2 := by
  intro calls index
  have few : index.store.size ≤ 2 * 1 + 1 := by decide +kernel
  have defined : index.store.ScoresDefined #[1] := Store.scoresDefined_of_all (by decide +kernel)
  have wide : index.store.size ≤ max 3 2 := by decide +kernel
  obtain ⟨paired, joined, found⟩ := search_eq_flat_of_few (fun draw => draw % 2) 1 .dotProduct
    { maxLinks := 1 } calls Nat.one_pos few
  exact ⟨Nat.one_pos, few, defined, wide, paired, joined,
    found #[1] 2 { breadth := 3 } defined wide⟩

end GraphIndex

end VectorSearch

import VectorSearch.Proofs.Graph.Layers
import VectorSearch.Proofs.Run
/-!
The structure of the graph after any inserts. Whatever levels are drawn, the nodes are the stored
vectors, searches begin at a node of the highest level, and links stay on their layer and within
their number.
-/

namespace VectorSearch.GraphIndex

structure Rooted (index : GraphIndex) : Prop where
  sound : index.links.Sound index.settings
  grounded : ∀ id, index.links.contains id = true → 0 < index.links.height id
  entry_none : index.entry = none ↔ ∀ id, index.links.contains id = false
  entry_top : ∀ entry, index.entry = some entry →
    index.links.height entry = index.topLevel + 1
  top : ∀ id, index.links.height id ≤ index.topLevel + 1

structure WellFormed (index : GraphIndex) : Prop extends Rooted index where
  nodes : ∀ id, index.links.contains id = index.store.contains id

theorem WellFormed.empty (dimension : Nat) (metric : Metric) (settings : GraphSettings) :
    (empty dimension metric settings).WellFormed := by
  have none (id : VectorId) : (∅ : LinkTable).contains id = false := Std.TreeMap.contains_emptyc
  have flat (id : VectorId) : LinkTable.height ∅ id = 0 := LinkTable.height_eq_zero (none id)
  have silent (layer : Nat) (id : VectorId) : LinkTable.linksAt ∅ layer id = [] :=
    LinkTable.linksAt_of_height_le (by rw [flat]; exact Nat.zero_le _)
  refine { sound := ⟨?_, ?_, ?_⟩, grounded := ?_, entry_none := ?_, entry_top := ?_, top := ?_,
           nodes := ?_ }
  · intro layer id link member
    rw [GraphIndex.empty, silent] at member
    exact absurd member List.not_mem_nil
  · intro layer id
    rw [GraphIndex.empty, silent]
    exact List.Pairwise.nil
  · intro layer id
    rw [GraphIndex.empty, silent]
    exact Nat.zero_le _
  · intro id member
    rw [GraphIndex.empty, none] at member
    exact absurd member Bool.false_ne_true
  · exact ⟨fun _ id => none id, fun _ => rfl⟩
  · intro entry impossible
    exact nomatch impossible
  · intro id
    rw [GraphIndex.empty, flat]
    exact Nat.zero_le _
  · intro id
    rw [GraphIndex.empty, none]
    exact Std.TreeMap.contains_emptyc.symm

theorem WellFormed.entry_eq_none_iff {index : GraphIndex} (wellFormed : index.WellFormed) :
    index.entry = none ↔ index.store.isEmpty = true := by
  rw [wellFormed.entry_none, Store.isEmpty_iff]
  exact forall_congr' fun id => by rw [wellFormed.nodes]

/-! A new node. -/

theorem Rooted.sound_addNode {index : GraphIndex} (rooted : index.Rooted) {id : VectorId}
    (fresh : index.links.contains id = false) (level : Nat) :
    (index.links.addNode id level).Sound index.settings := by
  have flat := LinkTable.height_eq_zero fresh
  refine ⟨?_, ?_, ?_⟩
  · intro layer node link member
    rw [LinkTable.linksAt_addNode] at member
    split at member
    · exact absurd member List.not_mem_nil
    · obtain ⟨different, tall⟩ := rooted.sound.target layer node link member
      rw [LinkTable.height_addNode]
      split
      · rename_i same
        rw [← same, flat] at tall
        exact absurd tall (Nat.not_lt_zero _)
      · exact ⟨different, tall⟩
  · intro layer node
    rw [LinkTable.linksAt_addNode]
    split
    · exact List.Pairwise.nil
    · exact rooted.sound.ascending layer node
  · intro layer node
    rw [LinkTable.linksAt_addNode]
    split
    · exact Nat.zero_le _
    · exact rooted.sound.degree layer node

theorem Rooted.not_mem_addNode {index : GraphIndex} (rooted : index.Rooted) {id : VectorId}
    (fresh : index.links.contains id = false) (level layer : Nat) (node : VectorId) :
    id ∉ (index.links.addNode id level).linksAt layer node := by
  intro member
  rw [LinkTable.linksAt_addNode] at member
  split at member
  · exact List.not_mem_nil member
  · have tall := (rooted.sound.target layer node id member).2
    rw [LinkTable.height_eq_zero fresh] at tall
    exact Nat.not_lt_zero _ tall

theorem Rooted.ne_entry {index : GraphIndex} (rooted : index.Rooted) {id entry : VectorId}
    (fresh : index.links.contains id = false) (occupied : index.entry = some entry) :
    id ≠ entry := by
  rintro rfl
  have entryTall := rooted.entry_top id occupied
  rw [LinkTable.height_eq_zero fresh] at entryTall
  exact absurd entryTall (Nat.succ_ne_zero _).symm

theorem start_inside (index : GraphIndex) {table : LinkTable} {id entry : VectorId}
    (sound : table.Sound index.settings) (apart : ∀ layer node, id ∉ table.linksAt layer node)
    (entry_ne : entry ≠ id) (entryTall : table.height entry = index.topLevel + 1)
    (row : Embedding) (level : Nat) :
    let start := Descent.descend table.linksAt (index.store.score row) index.store.size
      (level + 1) (index.topLevel - level) entry
    start ≠ id ∧ min level index.topLevel < table.height start := by
  dsimp only
  by_cases shallow : index.topLevel ≤ level
  · rw [Nat.sub_eq_zero_of_le shallow, Descent.descend, entryTall]
    exact ⟨entry_ne, by omega⟩
  · have closed : ∀ layer node, node ≠ id ∧ layer + 1 ≤ table.height node →
        ∀ link ∈ table.linksAt layer node, link ≠ id ∧ layer + 1 ≤ table.height link := by
      intro layer node _ link member
      refine ⟨?_, (sound.target layer node link member).2⟩
      rintro rfl
      exact apart layer node member
    have inside := @Descent.descend_inside (index.store.score row)
      (fun layer node => node ≠ id ∧ layer ≤ table.height node) _
      closed (fun layer node inside => ⟨inside.1, Nat.le_of_succ_le inside.2⟩)
      index.store.size (level + 1) (index.topLevel - level) entry ⟨entry_ne, by omega⟩
    have tall := inside.2
    exact ⟨inside.1, by omega⟩

theorem Rooted.unlinked {index : GraphIndex} (rooted : index.Rooted) {id entry : VectorId}
    (fresh : index.links.contains id = false) (occupied : index.entry = some entry)
    (stored : ∀ node, node = id ∨ index.links.contains node = true →
      index.store.contains node = true)
    (row : Embedding) (level : Nat) :
    index.Unlinked id (min level index.topLevel) (index.links.addNode id level)
      (Descent.descend (index.links.addNode id level).linksAt (index.store.score row)
        index.store.size (level + 1) (index.topLevel - level) entry) := by
  have sound := rooted.sound_addNode fresh level
  have apart := rooted.not_mem_addNode fresh level
  have height := LinkTable.height_addNode index.links id level
  have entryTall := rooted.entry_top entry occupied
  have entry_ne : id ≠ entry := rooted.ne_entry fresh occupied
  have start := index.start_inside sound apart (Ne.symm entry_ne)
    (by rw [height, if_neg entry_ne, entryTall]) row level
  refine ⟨sound, ?_, ?_, start.1, start.2, ?_, fun lower _ node => apart lower node⟩
  · intro node tall
    exact stored node ((LinkTable.contains_addNode _ _ _ _).mp (LinkTable.contains_of_height tall))
  · rw [height, if_pos rfl]
    omega
  · intro lower _
    rw [LinkTable.linksAt_addNode, if_pos rfl]

/-! Attaching a new node. -/

theorem attach_of_none [Host] {index : GraphIndex} (vacant : index.entry = none) (id : VectorId)
    (row : Embedding) (level : Nat) :
    index.attach id row level = { index with
      links := index.links.addNode id level, entry := some id, topLevel := level } := by
  unfold attach
  rw [vacant]

theorem attach_of_some [Host] {index : GraphIndex} {entry : VectorId}
    (occupied : index.entry = some entry) (id : VectorId) (row : Embedding) (level : Nat) :
    index.attach id row level = { index with
      links := (index.linkDown id row (min level index.topLevel) (index.links.addNode id level,
        Descent.descend (index.links.addNode id level).linksAt (index.store.score row)
          index.store.size (level + 1) (index.topLevel - level) entry)).1
      entry := some (if index.topLevel < level then id else entry)
      topLevel := max index.topLevel level } := by
  unfold attach
  rw [occupied]
  dsimp only
  split
  · rename_i higher
    rw [Nat.max_eq_right (Nat.le_of_lt higher)]
  · rename_i lower
    rw [Nat.max_eq_left (Nat.le_of_not_lt lower)]

/-- Only the lowest layer of the links remains to be looked at: it is linked last, when all nodes
have on it the links that they had before. -/
theorem Rooted.links_attach [Host] {index : GraphIndex} (rooted : index.Rooted)
    {id entry : VectorId}
    (fresh : index.links.contains id = false) (occupied : index.entry = some entry)
    (stored : ∀ node, node = id ∨ index.links.contains node = true →
      index.store.contains node = true)
    (row : Embedding) (level : Nat) :
    ∃ bottom chosen, (index.attach id row level).links = index.linkTo id 0 chosen bottom ∧
      (∃ first, index.Unlinked id 0 bottom first) ∧
      (index.links.addNode id level).SameNodes bottom ∧
      (∀ node, bottom.linksAt 0 node = (index.links.addNode id level).linksAt 0 node) ∧
      (chosen.Nodup ∧ chosen.length ≤ index.settings.maxLinks ∧
        (0 < index.settings.maxLinks → chosen ≠ [])) ∧
      ∀ node ∈ chosen, node ≠ id ∧ 0 < bottom.height node := by
  have unlinked := rooted.unlinked fresh occupied stored row level
  obtain ⟨bottom, first, down, lowest, same, kept⟩ := Unlinked.linkDown_eq row _ _ _ unlinked
  obtain ⟨chosen, next, last, number, others, _⟩ := lowest.linkLayer_eq row
  refine ⟨bottom, chosen, ?_, ⟨first, lowest⟩, same, kept, number, others⟩
  rw [attach_of_some occupied, down, last]

theorem Rooted.linksAt_attach [Host] {index : GraphIndex} (rooted : index.Rooted)
    {id entry : VectorId}
    (fresh : index.links.contains id = false) (occupied : index.entry = some entry)
    (stored : ∀ node, node = id ∨ index.links.contains node = true →
      index.store.contains node = true)
    (row : Embedding) (level : Nat) :
    ∃ chosen : List VectorId, (0 < index.settings.maxLinks → chosen ≠ []) ∧
      (∀ node ∈ chosen, node ≠ id ∧ index.links.contains node = true) ∧
      ∀ node, (index.attach id row level).links.linksAt 0 node =
        if node = id then LinkSet.insertAll chosen []
        else if node ∈ chosen then
          linksWith index.store (index.settings.capacity 0) id node (index.links.linksAt 0 node)
        else index.links.linksAt 0 node := by
  obtain ⟨bottom, chosen, links, ⟨first, lowest⟩, same, kept, ⟨distinct, _, some⟩, others⟩ :=
    rooted.links_attach fresh occupied stored row level
  have apart : id ∉ chosen := fun member => (others id member).1 rfl
  refine ⟨chosen, some, fun node member => ?_, fun node => ?_⟩
  · obtain ⟨different, tall⟩ := others node member
    have inBottom := LinkTable.contains_of_height tall
    rw [same.contains, LinkTable.contains_addNode] at inBottom
    exact ⟨different, inBottom.resolve_left different⟩
  · rw [links, linksAt_linkTo index distinct apart lowest.tall
      (fun node member => (others node member).2), if_pos rfl, lowest.silent 0 (Nat.le_refl 0)]
    by_cases own : node = id
    · rw [if_pos own, if_pos own]
    · rw [if_neg own, if_neg own, kept, LinkTable.linksAt_addNode, if_neg (Ne.symm own)]

theorem Rooted.of_sameNodes {index after : GraphIndex} (rooted : index.Rooted) {id : VectorId}
    {level : Nat} (nodes : (index.links.addNode id level).SameNodes after.links)
    (sound : after.links.Sound after.settings) {entry : VectorId}
    (begins : after.entry = some entry)
    (entryTall : after.links.height entry = after.topLevel + 1) (below : level ≤ after.topLevel)
    (top : ∀ node, index.links.height node ≤ after.topLevel + 1) : after.Rooted := by
  have height := LinkTable.height_addNode index.links id level
  have contains := LinkTable.contains_addNode index.links id level
  refine ⟨sound, ?_, ?_, ?_, ?_⟩
  · intro node member
    rw [nodes.height, height]
    rw [nodes.contains] at member
    split
    · exact Nat.succ_pos level
    · rename_i different
      rcases (contains node).mp member with rfl | old
      · exact absurd rfl different
      · exact rooted.grounded node old
  · rw [begins]
    refine ⟨fun impossible => absurd impossible (Option.some_ne_none entry), fun empty => ?_⟩
    have member := (contains id).mpr (Or.inl rfl)
    rw [← nodes.contains, empty id] at member
    exact absurd member Bool.false_ne_true
  · intro other same
    rw [begins] at same
    rw [← Option.some.inj same]
    exact entryTall
  · intro node
    have bound := top node
    rw [nodes.height, height]
    split <;> omega

theorem Rooted.attach [Host] {index : GraphIndex} (rooted : index.Rooted) {id : VectorId}
    (fresh : index.links.contains id = false)
    (stored : ∀ node, node = id ∨ index.links.contains node = true →
      index.store.contains node = true)
    (row : Embedding) (level : Nat) :
    (index.attach id row level).Rooted ∧
      (index.links.addNode id level).SameNodes (index.attach id row level).links := by
  have height := LinkTable.height_addNode index.links id level
  cases place : index.entry with
  | none =>
      have vacant (node : VectorId) : index.links.height node = 0 :=
        LinkTable.height_eq_zero (rooted.entry_none.mp place node)
      rw [attach_of_none place]
      have nodes : (index.links.addNode id level).SameNodes (index.links.addNode id level) :=
        ⟨fun _ => rfl, fun _ => rfl⟩
      refine ⟨rooted.of_sameNodes nodes (rooted.sound_addNode fresh level) rfl ?_
        (Nat.le_refl level) ?_, nodes⟩
      · exact (height id).trans (if_pos rfl)
      · intro node
        rw [vacant node]
        exact Nat.zero_le _
  | some entry =>
      obtain ⟨bottom, chosen, links, ⟨first, lowest⟩, same, _, ⟨distinct, few, _⟩, others⟩ :=
        rooted.links_attach fresh place stored row level
      have nodes := same.trans (sameNodes_linkTo index id 0 chosen bottom)
      rw [← links] at nodes
      have sound := lowest.linkTo distinct few others
      rw [← links] at sound
      have entryTall := rooted.entry_top entry place
      have entry_ne : id ≠ entry := rooted.ne_entry fresh place
      rw [attach_of_some place] at nodes sound ⊢
      refine ⟨rooted.of_sameNodes nodes sound rfl ?_ (Nat.le_max_right _ _) ?_, nodes⟩
      · rw [nodes.height, height]
        dsimp only
        by_cases higher : index.topLevel < level
        · rw [if_pos higher, if_pos rfl]
          omega
        · rw [if_neg higher, if_neg entry_ne]
          omega
      · intro node
        have below := rooted.top node
        dsimp only
        omega

/-! Runs. -/

theorem store_attach [Host] (index : GraphIndex) (id : VectorId) (row : Embedding) (level : Nat) :
    (index.attach id row level).store = index.store ∧
      (index.attach id row level).settings = index.settings := by
  cases place : index.entry with
  | none =>
      rw [attach_of_none place]
      exact ⟨rfl, rfl⟩
  | some entry =>
      rw [attach_of_some place]
      exact ⟨rfl, rfl⟩

def awaiting (index : GraphIndex) (id : VectorId) (row : Embedding) : GraphIndex :=
  { index with store := index.store.put id row, drawn := index.drawn + 1 }

theorem insertWith_of_known [Host] (levelOf : Nat → Nat) {index : GraphIndex} {id : VectorId}
    {row : Embedding} (fits : row.size = index.store.dimension)
    (known : index.store.contains id = true) :
    index.insertWith levelOf id row = .ok { index with store := index.store.put id row } := by
  have stored := (Store.upsert_eq_ok_iff index.store id row _).mpr ⟨fits, rfl⟩
  unfold insertWith
  rw [stored]
  dsimp only [bind, Except.bind]
  rw [if_pos known]
  rfl

theorem insertWith_of_new [Host] (levelOf : Nat → Nat) {index : GraphIndex} {id : VectorId}
    {row : Embedding} (fits : row.size = index.store.dimension)
    (unknown : index.store.contains id = false) :
    index.insertWith levelOf id row =
      .ok ((index.awaiting id row).attach id row (levelOf (index.drawn + 1))) := by
  have stored := (Store.upsert_eq_ok_iff index.store id row _).mpr ⟨fits, rfl⟩
  unfold insertWith
  rw [stored]
  dsimp only [bind, Except.bind]
  rw [unknown, if_neg Bool.false_ne_true]
  rfl

theorem size_of_insertWith [Host] {levelOf : Nat → Nat} {index after : GraphIndex} {id : VectorId}
    {row : Embedding} (inserted : index.insertWith levelOf id row = .ok after) :
    row.size = index.store.dimension := by
  unfold insertWith at inserted
  cases outcome : index.store.upsert id row with
  | error failure =>
      rw [outcome] at inserted
      exact nomatch inserted
  | ok store => exact ((Store.upsert_eq_ok_iff _ _ _ _).mp outcome).1

theorem store_of_insertWith [Host] {levelOf : Nat → Nat} {index after : GraphIndex} {id : VectorId}
    {row : Embedding} (inserted : index.insertWith levelOf id row = .ok after) :
    after.store = index.store.put id row := by
  have fits := size_of_insertWith inserted
  cases known : index.store.contains id with
  | true =>
      rw [insertWith_of_known levelOf fits known] at inserted
      obtain rfl := Except.ok.inj inserted
      rfl
  | false =>
      rw [insertWith_of_new levelOf fits known] at inserted
      obtain rfl := Except.ok.inj inserted
      exact (store_attach _ _ _ _).1

theorem WellFormed.awaiting {index : GraphIndex} (wellFormed : index.WellFormed) (id : VectorId)
    (row : Embedding) : (index.awaiting id row).Rooted ∧
      ∀ node, node = id ∨ index.links.contains node = true →
        (index.awaiting id row).store.contains node = true := by
  refine ⟨⟨wellFormed.sound, wellFormed.grounded, wellFormed.entry_none, wellFormed.entry_top,
    wellFormed.top⟩, fun node known => ?_⟩
  rw [wellFormed.nodes] at known
  exact (index.store.contains_put id row node).mpr known

theorem WellFormed.insertWith [Host] {levelOf : Nat → Nat} {index after : GraphIndex}
    (wellFormed : index.WellFormed) {id : VectorId} {row : Embedding}
    (inserted : index.insertWith levelOf id row = .ok after) :
    after.WellFormed ∧ after.settings = index.settings := by
  have fits := size_of_insertWith inserted
  have contains := index.store.contains_put id row
  by_cases known : index.store.contains id = true
  · rw [insertWith_of_known levelOf fits known] at inserted
    obtain rfl := Except.ok.inj inserted
    refine ⟨{ toRooted := ?_, nodes := fun node => ?_ }, rfl⟩
    · exact ⟨wellFormed.sound, wellFormed.grounded, wellFormed.entry_none, wellFormed.entry_top,
        wellFormed.top⟩
    · rw [Bool.eq_iff_iff, contains, wellFormed.nodes]
      constructor
      · exact Or.inr
      · rintro (rfl | old)
        · exact known
        · exact old
  · rw [Bool.not_eq_true] at known
    rw [insertWith_of_new levelOf fits known] at inserted
    obtain rfl := Except.ok.inj inserted
    have fresh : index.links.contains id = false := (wellFormed.nodes id).trans known
    obtain ⟨pending, stored⟩ := wellFormed.awaiting id row
    obtain ⟨rooted, nodes⟩ := pending.attach fresh stored row (levelOf (index.drawn + 1))
    obtain ⟨store, settings⟩ := store_attach (index.awaiting id row) id row
      (levelOf (index.drawn + 1))
    refine ⟨{ toRooted := rooted, nodes := fun node => ?_ }, settings⟩
    rw [store, nodes.contains, Bool.eq_iff_iff, LinkTable.contains_addNode]
    refine Iff.trans ?_ (contains node).symm
    rw [← wellFormed.nodes]
    rfl

def run [Host] (levelOf : Nat → Nat) (dimension : Nat) (metric : Metric) (settings : GraphSettings)
    (calls : List (VectorId × Embedding)) : GraphIndex :=
  runCalls (fun index call => index.insertWith levelOf call.1 call.2)
    (empty dimension metric settings) calls

theorem run_wellFormed [Host] (levelOf : Nat → Nat) (dimension : Nat) (metric : Metric)
    (settings : GraphSettings) (calls : List (VectorId × Embedding)) :
    (run levelOf dimension metric settings calls).WellFormed ∧
      (run levelOf dimension metric settings calls).settings = settings := by
  refine runCalls_induction _
    (fun index : GraphIndex => index.WellFormed ∧ index.settings = settings) ?_ calls _
    ⟨WellFormed.empty dimension metric settings, rfl⟩
  intro index call after ⟨wellFormed, same⟩ inserted
  obtain ⟨next, kept⟩ := wellFormed.insertWith inserted
  exact ⟨next, kept.trans same⟩

/-- After any inserts the nodes are the stored vectors; there is an entry exactly when a vector is
stored, and it is a node of the highest level; a link leads to another node of the same layer; and
a node has at most twice as many links on layer zero as on each of the other layers. -/
theorem run_structure [Host] (levelOf : Nat → Nat) (dimension : Nat) (metric : Metric)
    (settings : GraphSettings) (calls : List (VectorId × Embedding)) :
    let index := run levelOf dimension metric settings calls
    (∀ id, index.links.contains id = index.store.contains id) ∧
    (index.entry = none ↔ index.store.isEmpty = true) ∧
    (∀ entry, index.entry = some entry → index.links.height entry = index.topLevel + 1) ∧
    (∀ id, index.store.contains id = true →
      0 < index.links.height id ∧ index.links.height id ≤ index.topLevel + 1) ∧
    (∀ layer id, ∀ link ∈ index.links.linksAt layer id,
      link ≠ id ∧ index.store.contains link = true ∧ layer < index.links.height link) ∧
    ∀ layer id, (index.links.linksAt layer id).Nodup ∧
      (index.links.linksAt layer id).length ≤
        if layer = 0 then 2 * settings.maxLinks else settings.maxLinks := by
  intro index
  obtain ⟨wellFormed, same⟩ := run_wellFormed levelOf dimension metric settings calls
  refine ⟨wellFormed.nodes, wellFormed.entry_eq_none_iff, wellFormed.entry_top, ?_, ?_, ?_⟩
  · intro id stored
    rw [← wellFormed.nodes] at stored
    exact ⟨wellFormed.grounded id stored, wellFormed.top id⟩
  · intro layer id link member
    obtain ⟨different, tall⟩ := wellFormed.sound.target layer id link member
    refine ⟨different, ?_, tall⟩
    rw [← wellFormed.nodes]
    exact LinkTable.contains_of_height (Nat.zero_lt_of_lt tall)
  · intro layer id
    refine ⟨(wellFormed.sound.ascending layer id).imp Nat.ne_of_lt, ?_⟩
    have degree := wellFormed.sound.degree layer id
    rw [same, GraphSettings.capacity, Nat.mul_comm] at degree
    exact degree

end VectorSearch.GraphIndex

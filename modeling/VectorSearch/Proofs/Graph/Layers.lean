import VectorSearch.Proofs.Graph.Linking
/-!
A new node on all of its layers. The layers are linked from the highest down, and linking one of
them leaves the layers below as they were; so on each layer the node has no links yet, nothing
leads to it, and the search begins at another node that has the layer.
-/

namespace VectorSearch

structure LinkTable.SameNodes (table other : LinkTable) : Prop where
  height : ∀ id, other.height id = table.height id
  contains : ∀ id, other.contains id = table.contains id

theorem LinkTable.SameNodes.trans {first second third : LinkTable}
    (start : first.SameNodes second) (next : second.SameNodes third) : first.SameNodes third :=
  ⟨fun id => (next.height id).trans (start.height id),
    fun id => (next.contains id).trans (start.contains id)⟩

namespace GraphIndex

theorem sameNodes_linkTo [Host] (index : GraphIndex) (id : VectorId) (layer : Nat)
    (chosen : List VectorId) (table : LinkTable) :
    table.SameNodes (index.linkTo id layer chosen table) :=
  ⟨height_linkTo index id layer chosen table, contains_linkTo index id layer chosen table⟩

/-- A new node without links on the layers up to this one, and another node of this layer. -/
structure Unlinked (index : GraphIndex) (id : VectorId) (layer : Nat) (table : LinkTable)
    (start : VectorId) : Prop where
  sound : table.Sound index.settings
  stored : ∀ node, 0 < table.height node → index.store.contains node = true
  tall : layer < table.height id
  start_ne : start ≠ id
  start_tall : layer < table.height start
  silent : ∀ lower ≤ layer, table.linksAt lower id = []
  apart : ∀ lower ≤ layer, ∀ node, id ∉ table.linksAt lower node

variable {index : GraphIndex} {id : VectorId} {layer : Nat} {table : LinkTable} {start : VectorId}

/-! What is found and chosen on a layer. -/

theorem Unlinked.nearby [Host] (unlinked : index.Unlinked id layer table start) (row : Embedding) :
    index.nearby row layer table start ≠ [] ∧
      ((index.nearby row layer table start).map (·.id)).Nodup ∧
      ∀ hit ∈ index.nearby row layer table start, hit.id ≠ id ∧ layer < table.height hit.id := by
  have startStored := unlinked.stored start (Nat.zero_lt_of_lt unlinked.start_tall)
  rw [← Store.isSome_score index.store row] at startStored
  obtain ⟨value, scored⟩ := Option.isSome_iff_exists.mp startStored
  have closed : ∀ node, node ≠ id ∧ layer < table.height node →
      ∀ link ∈ table.linksAt layer node, link ≠ id ∧ layer < table.height link := by
    intro node _ link member
    refine ⟨?_, (unlinked.sound.target layer node link member).2⟩
    rintro rfl
    exact unlinked.apart layer (Nat.le_refl _) node member
  obtain ⟨nonempty, distinct, inside⟩ := Beam.search_sound index.store.size
    index.settings.buildBreadth scored ⟨unlinked.start_ne, unlinked.start_tall⟩ closed
  exact ⟨nonempty, distinct, fun hit member => (inside hit member).1⟩

theorem mem_choose {found : List Hit} {node : VectorId} (chosen : node ∈ index.choose id found) :
    node ≠ id ∧ ∃ hit ∈ found, hit.id = node := by
  obtain ⟨hit, taken, rfl⟩ := List.mem_map.mp chosen
  obtain ⟨member, different⟩ := List.mem_filter.mp (List.mem_of_mem_take taken)
  exact ⟨of_decide_eq_true different, hit, member, rfl⟩

theorem length_choose_le (index : GraphIndex) (id : VectorId) (found : List Hit) :
    (index.choose id found).length ≤ index.settings.maxLinks := by
  rw [choose, List.length_map]
  exact List.length_take_le _ _

theorem nodup_choose {found : List Hit} (distinct : (found.map (·.id)).Nodup) :
    (index.choose id found).Nodup := by
  have kept : List.Sublist ((found.filter (·.id ≠ id)).take index.settings.maxLinks) found :=
    (List.take_sublist _ _).trans List.filter_sublist
  exact (kept.map (·.id)).nodup distinct

theorem choose_ne_nil {found : List Hit} (nonempty : found ≠ [])
    (others : ∀ hit ∈ found, hit.id ≠ id) (room : 0 < index.settings.maxLinks) :
    index.choose id found ≠ [] := by
  have all : found.filter (·.id ≠ id) = found :=
    List.filter_eq_self.mpr fun hit member => decide_eq_true (others hit member)
  rw [choose, all]
  intro empty
  have length := List.length_pos_iff.mpr nonempty
  have none := congrArg List.length empty
  rw [List.length_map, List.length_take, List.length_nil] at none
  omega

/-! Linking one layer. -/

theorem Unlinked.of_mem_choose [Host] (unlinked : index.Unlinked id layer table start)
    {row : Embedding}
    {node : VectorId} (chosen : node ∈ index.choose id (index.nearby row layer table start)) :
    node ≠ id ∧ layer < table.height node := by
  obtain ⟨_, hit, member, rfl⟩ := mem_choose chosen
  exact (unlinked.nearby row).2.2 hit member

theorem Unlinked.linkLayer_eq [Host] (unlinked : index.Unlinked id layer table start)
    (row : Embedding) : ∃ chosen next, index.linkLayer id row layer (table, start) =
        (index.linkTo id layer chosen table, next) ∧
      (chosen.Nodup ∧ chosen.length ≤ index.settings.maxLinks ∧
        (0 < index.settings.maxLinks → chosen ≠ [])) ∧
      (∀ node ∈ chosen, node ≠ id ∧ layer < table.height node) ∧
      next ≠ id ∧ layer < table.height next := by
  obtain ⟨nonempty, distinct, inside⟩ := unlinked.nearby row
  refine ⟨index.choose id (index.nearby row layer table start), _, rfl,
    ⟨nodup_choose distinct, length_choose_le _ _ _,
      choose_ne_nil nonempty fun hit member => (inside hit member).1⟩,
    fun node => unlinked.of_mem_choose, ?_⟩
  · obtain ⟨best, rest, foundEq⟩ := List.exists_cons_of_ne_nil nonempty
    rw [foundEq]
    exact inside best (by simp [foundEq])

theorem maxLinks_le_capacity (settings : GraphSettings) (layer : Nat) :
    settings.maxLinks ≤ settings.capacity layer := by
  unfold GraphSettings.capacity
  split <;> omega

theorem Unlinked.linksAt_linkTo [Host] (unlinked : index.Unlinked id layer table start)
    {chosen : List VectorId} (distinct : chosen.Nodup)
    (others : ∀ node ∈ chosen, node ≠ id ∧ layer < table.height node) (place : Nat)
    (node : VectorId) :
    let links := (index.linkTo id layer chosen table).linksAt place node
    (place = layer ∧ node = id ∧ links = LinkSet.insertAll chosen []) ∨
    (place = layer ∧ node ∈ chosen ∧ links = linksWith index.store
      (index.settings.capacity layer) id node (table.linksAt layer node)) ∨
    links = table.linksAt place node := by
  have apart : id ∉ chosen := fun member => (others id member).1 rfl
  dsimp only
  rw [GraphIndex.linksAt_linkTo index distinct apart unlinked.tall
    fun node member => (others node member).2]
  by_cases here : layer = place
  · subst here
    rw [if_pos rfl]
    by_cases same : node = id
    · rw [if_pos same, unlinked.silent layer (Nat.le_refl _)]
      exact Or.inl ⟨rfl, same, rfl⟩
    · rw [if_neg same]
      by_cases member : node ∈ chosen
      · rw [if_pos member]
        exact Or.inr (Or.inl ⟨rfl, member, rfl⟩)
      · rw [if_neg member]
        exact Or.inr (Or.inr rfl)
  · rw [if_neg here]
    exact Or.inr (Or.inr rfl)

theorem Unlinked.linkTo [Host] (unlinked : index.Unlinked id layer table start)
    {chosen : List VectorId}
    (distinct : chosen.Nodup) (few : chosen.length ≤ index.settings.maxLinks)
    (others : ∀ node ∈ chosen, node ≠ id ∧ layer < table.height node) :
    (index.linkTo id layer chosen table).Sound index.settings := by
  have kinds := unlinked.linksAt_linkTo distinct others
  refine ⟨?_, ?_, ?_⟩
  · intro place node link member
    rw [height_linkTo]
    rcases kinds place node with ⟨rfl, rfl, eq⟩ | ⟨rfl, nodeChosen, eq⟩ | eq
    · rw [eq, LinkSet.mem_insertAll] at member
      rcases member with member | impossible
      · exact others link member
      · exact absurd impossible List.not_mem_nil
    · rw [eq] at member
      rcases mem_of_mem_linksWith member with rfl | old
      · exact ⟨Ne.symm (others node nodeChosen).1, unlinked.tall⟩
      · exact unlinked.sound.target place node link old
    · rw [eq] at member
      exact unlinked.sound.target place node link member
  · intro place node
    rcases kinds place node with ⟨rfl, rfl, eq⟩ | ⟨rfl, _, eq⟩ | eq
    · rw [eq]
      exact LinkSet.ascending_insertAll _ _ List.Pairwise.nil
    · rw [eq]
      exact ascending_linksWith _ _ _ _ (unlinked.sound.ascending place node)
    · rw [eq]
      exact unlinked.sound.ascending place node
  · intro place node
    rcases kinds place node with ⟨rfl, rfl, eq⟩ | ⟨rfl, nodeChosen, eq⟩ | eq
    · have length := LinkSet.length_insertAll_le chosen []
      have room := maxLinks_le_capacity index.settings place
      rw [List.length_nil] at length
      rw [eq]
      omega
    · have tall := (others node nodeChosen).2
      rw [eq]
      exact length_linksWith_le (unlinked.stored node (Nat.zero_lt_of_lt tall)) _ _ _
    · rw [eq]
      exact unlinked.sound.degree place node

theorem Unlinked.linkLayer [Host] (unlinked : index.Unlinked id (layer + 1) table start)
    (row : Embedding) :
    let after := index.linkLayer id row (layer + 1) (table, start)
    index.Unlinked id layer after.1 after.2 ∧ table.SameNodes after.1 ∧
      ∀ lower ≤ layer, ∀ node, after.1.linksAt lower node = table.linksAt lower node := by
  obtain ⟨chosen, next, eq, ⟨distinct, few, _⟩, others, next_ne, next_tall⟩ :=
    unlinked.linkLayer_eq row
  have apart : id ∉ chosen := fun member => (others id member).1 rfl
  have below : ∀ lower ≤ layer, ∀ node,
      (index.linkTo id (layer + 1) chosen table).linksAt lower node =
        table.linksAt lower node := by
    intro lower bound node
    rw [GraphIndex.linksAt_linkTo index distinct apart unlinked.tall
      fun node member => (others node member).2, if_neg (by omega)]
  rw [eq]
  refine ⟨?_, sameNodes_linkTo index id (layer + 1) chosen table, below⟩
  refine ⟨unlinked.linkTo distinct few others, ?_, ?_, next_ne, ?_, ?_, ?_⟩
  · intro node tall
    rw [height_linkTo] at tall
    exact unlinked.stored node tall
  · rw [height_linkTo]
    exact Nat.lt_of_succ_lt unlinked.tall
  · rw [height_linkTo]
    exact Nat.lt_of_succ_lt next_tall
  · intro lower bound
    rw [below lower bound]
    exact unlinked.silent lower (Nat.le_succ_of_le bound)
  · intro lower bound node
    rw [below lower bound]
    exact unlinked.apart lower (Nat.le_succ_of_le bound) node

/-- Linking all layers ends with linking the lowest one, on which nothing has changed before. -/
theorem Unlinked.linkDown_eq [Host] (row : Embedding) (layer : Nat) :
    ∀ table start, index.Unlinked id layer table start →
      ∃ bottom first, index.linkDown id row layer (table, start) =
          index.linkLayer id row 0 (bottom, first) ∧
        index.Unlinked id 0 bottom first ∧ table.SameNodes bottom ∧
        ∀ node, bottom.linksAt 0 node = table.linksAt 0 node := by
  induction layer with
  | zero =>
      intro table start unlinked
      exact ⟨table, start, rfl, unlinked, ⟨fun _ => rfl, fun _ => rfl⟩, fun _ => rfl⟩
  | succ layer ih =>
      intro table start unlinked
      obtain ⟨lower, same, kept⟩ := unlinked.linkLayer row
      obtain ⟨bottom, first, eq, lowest, sameBelow, keptBelow⟩ := ih _ _ lower
      exact ⟨bottom, first, eq, lowest, same.trans sameBelow,
        fun node => (keptBelow node).trans (kept 0 (Nat.zero_le _) node)⟩

end GraphIndex

end VectorSearch

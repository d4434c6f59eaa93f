import VectorSearch.Index.Graph.Basic
import VectorSearch.Proofs.Graph.Beam
import VectorSearch.Proofs.Graph.Descent
import VectorSearch.Proofs.Graph.Links
/-!
Linking a new node. On each of its layers the node gets links to nodes that a beam search found
there, and each of them gets a link back or keeps nearer ones in its place. The search stays on
the layer, so links lead only to nodes that have it, and no set of links becomes too large.
-/

namespace VectorSearch

/-- Every link leads to another node that has the same layer, and no node has more links on a
layer than there is room for. -/
structure LinkTable.Sound (settings : GraphSettings) (table : LinkTable) : Prop where
  target : ∀ layer id, ∀ link ∈ table.linksAt layer id, link ≠ id ∧ layer < table.height link
  ascending : ∀ layer id, (table.linksAt layer id).Pairwise (· < ·)
  degree : ∀ layer id, (table.linksAt layer id).length ≤ settings.capacity layer

namespace GraphIndex

/-! The links that a node keeps. -/

theorem mem_of_mem_nearestLinks [Host] {store : Store} {capacity : Nat} {id link : VectorId}
    {links : LinkSet} (kept : link ∈ nearestLinks store capacity id links) : link ∈ links := by
  unfold nearestLinks at kept
  split at kept
  · exact kept
  · rename_i row found
    rcases (LinkSet.mem_insertAll _ link []).mp kept with ranked | impossible
    · obtain ⟨hit, hitRanked, rfl⟩ := List.mem_map.mp ranked
      exact ((Store.mem_hitsOf store row links hit).mp (Hit.mem_of_mem_rank hitRanked)).1
    · exact absurd impossible List.not_mem_nil

theorem length_nearestLinks_le [Host] {store : Store} {id : VectorId}
    (stored : store.contains id = true) (capacity : Nat) (links : LinkSet) :
    (nearestLinks store capacity id links).length ≤ capacity := by
  unfold nearestLinks
  split
  · rename_i missing
    rw [← Store.isSome_get?, missing] at stored
    exact absurd stored Bool.false_ne_true
  · rename_i row found
    have bound := LinkSet.length_insertAll_le
      ((Hit.rank (store.hitsOf row links) capacity).map (·.id)) []
    rw [List.length_nil, List.length_map, Hit.length_rank] at bound
    omega

theorem ascending_nearestLinks [Host] (store : Store) (capacity : Nat) (id : VectorId)
    {links : LinkSet} (ascending : links.Pairwise (· < ·)) :
    (nearestLinks store capacity id links).Pairwise (· < ·) := by
  unfold nearestLinks
  split
  · exact ascending
  · exact LinkSet.ascending_insertAll _ _ List.Pairwise.nil

theorem mem_of_mem_linksWith [Host] {store : Store} {capacity : Nat} {newcomer id link : VectorId}
    {links : LinkSet} (kept : link ∈ linksWith store capacity newcomer id links) :
    link = newcomer ∨ link ∈ links := by
  apply (LinkSet.mem_insert newcomer link links).mp
  unfold linksWith at kept
  dsimp only at kept
  split at kept
  · exact mem_of_mem_nearestLinks kept
  · exact kept

theorem length_linksWith_le [Host] {store : Store} {id : VectorId}
    (stored : store.contains id = true) (capacity : Nat) (newcomer : VectorId) (links : LinkSet) :
    (linksWith store capacity newcomer id links).length ≤ capacity := by
  unfold linksWith
  dsimp only
  split
  · exact length_nearestLinks_le stored capacity _
  · exact Nat.le_of_not_lt ‹_›

theorem ascending_linksWith [Host] (store : Store) (capacity : Nat) (newcomer id : VectorId)
    {links : LinkSet} (ascending : links.Pairwise (· < ·)) :
    (linksWith store capacity newcomer id links).Pairwise (· < ·) := by
  have extended := LinkSet.ascending_insert newcomer ascending
  unfold linksWith
  dsimp only
  split
  · exact ascending_nearestLinks store capacity id extended
  · exact extended

/-! One layer. -/

theorem linksAt_foldl_linkBack [Host] (store : Store) (capacity layer : Nat) (newcomer : VectorId)
    (chosen : List VectorId) (other : Nat) (node : VectorId) :
    ∀ table : LinkTable, chosen.Nodup → (∀ id ∈ chosen, layer < table.height id) →
      (chosen.foldl (linkBack store capacity layer newcomer) table).linksAt other node =
        if node ∈ chosen ∧ layer = other then
          linksWith store capacity newcomer node (table.linksAt layer node)
        else table.linksAt other node := by
  induction chosen with
  | nil => intro table _ _; simp
  | cons first rest ih =>
      intro table distinct tall
      obtain ⟨fresh, others⟩ := List.nodup_cons.mp distinct
      have step (place : Nat) (id : VectorId) := LinkTable.linksAt_modifyLinks table layer first
        (linksWith store capacity newcomer first) (tall first (by simp)) place id
      rw [List.foldl_cons, ih (linkBack store capacity layer newcomer table first) others
        fun id member => by
          rw [linkBack, LinkTable.height_modifyLinks]
          exact tall id (by simp [member])]
      unfold linkBack
      rw [step, step]
      by_cases same : first = node
      · subst same
        simp [fresh]
      · have different : node ≠ first := Ne.symm same
        simp [same, different]

@[simp] theorem height_linkTo [Host] (index : GraphIndex) (id : VectorId) (layer : Nat)
    (chosen : List VectorId) (table : LinkTable) (node : VectorId) :
    (index.linkTo id layer chosen table).height node = table.height node := by
  unfold linkTo
  rw [← LinkTable.height_modifyLinks table layer id (LinkSet.insertAll chosen) node]
  generalize table.modifyLinks layer id (LinkSet.insertAll chosen) = changed
  induction chosen generalizing changed with
  | nil => rfl
  | cons first rest ih => exact (ih _).trans (LinkTable.height_modifyLinks ..)

@[simp] theorem contains_linkTo [Host] (index : GraphIndex) (id : VectorId) (layer : Nat)
    (chosen : List VectorId) (table : LinkTable) (node : VectorId) :
    (index.linkTo id layer chosen table).contains node = table.contains node := by
  unfold linkTo
  rw [← LinkTable.contains_modifyLinks table layer id (LinkSet.insertAll chosen) node]
  generalize table.modifyLinks layer id (LinkSet.insertAll chosen) = changed
  induction chosen generalizing changed with
  | nil => rfl
  | cons first rest ih => exact (ih _).trans (LinkTable.contains_modifyLinks ..)

theorem linksAt_linkTo [Host] (index : GraphIndex) {id : VectorId} {layer : Nat}
    {chosen : List VectorId} {table : LinkTable} (distinct : chosen.Nodup) (apart : id ∉ chosen)
    (tall : layer < table.height id) (tallChosen : ∀ node ∈ chosen, layer < table.height node)
    (other : Nat) (node : VectorId) :
    (index.linkTo id layer chosen table).linksAt other node =
      if layer = other then
        if node = id then LinkSet.insertAll chosen (table.linksAt layer id)
        else if node ∈ chosen then
          linksWith index.store (index.settings.capacity layer) id node (table.linksAt layer node)
        else table.linksAt layer node
      else table.linksAt other node := by
  have first (place : Nat) (member : VectorId) := LinkTable.linksAt_modifyLinks table layer id
    (LinkSet.insertAll chosen) tall place member
  unfold linkTo
  rw [linksAt_foldl_linkBack _ _ _ _ _ _ _ _ distinct
    fun member inside => by
      rw [LinkTable.height_modifyLinks]
      exact tallChosen member inside]
  rw [first, first]
  by_cases here : layer = other
  · subst here
    by_cases same : node = id
    · subst same
      simp [apart]
    · have different : id ≠ node := Ne.symm same
      simp [same, different]
  · simp [here]

end GraphIndex

end VectorSearch

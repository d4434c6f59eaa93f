import Mathlib.Data.Finset.Card
import Mathlib.Data.List.Perm.Subperm
import VectorSearch.Store
/-!
Which vectors a store has. A store never loses a vector; scores and hits exist exactly for the
vectors that are in it.
-/

namespace VectorSearch

theorem get?_insert {β : Type} (table : Std.TreeMap VectorId β) (key other : VectorId) (value : β) :
    (table.insert key value).get? other = if key = other then some value else table.get? other := by
  simp [Std.TreeMap.getElem?_insert]

namespace Store

theorem checkDimension_eq_ok_iff (store : Store) (row : Embedding) :
    store.checkDimension row = .ok () ↔ row.size = store.dimension := by
  unfold checkDimension
  split <;> simp [*]

theorem checkDimension_eq_error {store : Store} {row : Embedding}
    (unfit : row.size ≠ store.dimension) :
    store.checkDimension row = .error (.dimensionMismatch store.dimension row.size) := by
  rw [checkDimension, if_neg unfit]

theorem upsert_eq_ok_iff (store : Store) (id : VectorId) (row : Embedding) (after : Store) :
    store.upsert id row = .ok after ↔ row.size = store.dimension ∧ after = store.put id row := by
  unfold upsert checkDimension
  by_cases fits : row.size = store.dimension
  · simp only [fits, if_true, true_and]
    exact ⟨fun same => (Except.ok.inj same).symm, fun same => congrArg Except.ok same.symm⟩
  · simp only [fits, if_false, false_and, iff_false]
    exact fun impossible => nomatch impossible

@[simp] theorem dimension_put (store : Store) (id : VectorId) (row : Embedding) :
    (store.put id row).dimension = store.dimension := by
  unfold put
  split <;> rfl

@[simp] theorem metric_put (store : Store) (id : VectorId) (row : Embedding) :
    (store.put id row).metric = store.metric := by
  unfold put
  split <;> rfl

theorem contains_put (store : Store) (id : VectorId) (row : Embedding) (other : VectorId) :
    (store.put id row).contains other = true ↔ other = id ∨ store.contains other = true := by
  unfold put contains
  split
  · rename_i offset found
    constructor
    · exact Or.inr
    · rintro (rfl | old)
      · rw [Std.TreeMap.contains_eq_isSome_getElem?, ← Std.TreeMap.get?_eq_getElem?, found]
        rfl
      · exact old
  · rw [Std.TreeMap.contains_insert, Bool.or_eq_true, beq_iff_eq, Nat.compare_eq_eq]
    exact or_congr_left eq_comm

theorem isSome_get? (store : Store) (id : VectorId) :
    (store.get? id).isSome = store.contains id := by
  rw [get?, contains, Option.isSome_map, Std.TreeMap.get?_eq_getElem?,
    Std.TreeMap.contains_eq_isSome_getElem?]

theorem isEmpty_iff (store : Store) :
    store.isEmpty = true ↔ ∀ id, store.contains id = false :=
  Std.TreeMap.isEmpty_iff_forall_contains

theorem isSome_score (store : Store) (query : Embedding) (id : VectorId) :
    (store.score query id).isSome = store.contains id := by
  rw [score, Option.isSome_map, isSome_get?]

theorem mem_ids (store : Store) (id : VectorId) :
    id ∈ store.ids ↔ store.contains id = true := by
  rw [ids, Std.TreeMap.mem_keys, Std.TreeMap.mem_iff_contains, contains]

theorem nodup_ids (store : Store) : store.ids.Nodup := Std.TreeMap.nodup_keys

theorem length_ids (store : Store) : store.ids.length = store.size := Std.TreeMap.length_keys

theorem card_le_size (store : Store) (some : Finset VectorId)
    (stored : ∀ id ∈ some, store.contains id = true) : some.card ≤ store.size := by
  rw [← length_ids, ← List.toFinset_card_of_nodup store.nodup_ids]
  apply Finset.card_le_card
  intro id member
  exact List.mem_toFinset.mpr ((mem_ids store id).mpr (stored id member))

theorem card_eq_size_iff (store : Store) (some : Finset VectorId)
    (stored : ∀ id ∈ some, store.contains id = true) :
    some.card = store.size ↔ ∀ id, store.contains id = true → id ∈ some := by
  have inside : some ⊆ store.ids.toFinset := fun id member =>
    List.mem_toFinset.mpr ((mem_ids store id).mpr (stored id member))
  rw [← length_ids, ← List.toFinset_card_of_nodup store.nodup_ids]
  constructor
  · intro same id present
    rw [Finset.eq_of_subset_of_card_le inside same.ge]
    exact List.mem_toFinset.mpr ((mem_ids store id).mpr present)
  · intro all
    congr 1
    refine Finset.Subset.antisymm inside fun id member => all id ?_
    exact (mem_ids store id).mp (List.mem_toFinset.mp member)

/-! Hits. -/

theorem mem_hitsOf (store : Store) (query : Embedding) (ids : List VectorId) (hit : Hit) :
    hit ∈ store.hitsOf query ids ↔ hit.id ∈ ids ∧ store.score query hit.id = some hit.score := by
  simp only [hitsOf, List.mem_filterMap, Option.map_eq_some_iff]
  constructor
  · rintro ⟨id, member, score, scored, rfl⟩
    exact ⟨member, scored⟩
  · rintro ⟨member, scored⟩
    exact ⟨hit.id, member, hit.score, scored, rfl⟩

theorem map_id_hitsOf (store : Store) (query : Embedding) (ids : List VectorId)
    (stored : ∀ id ∈ ids, store.contains id = true) :
    (store.hitsOf query ids).map (·.id) = ids := by
  induction ids with
  | nil => rfl
  | cons first rest ih =>
      have scored : (store.score query first).isSome = true := by
        rw [isSome_score]
        exact stored first (by simp)
      obtain ⟨score, found⟩ := Option.isSome_iff_exists.mp scored
      have tail := ih fun id member => stored id (by simp [member])
      simp only [hitsOf, List.filterMap_cons, found, Option.map_some, List.map_cons] at tail ⊢
      rw [tail]

theorem nodup_map_id_hitsOf (store : Store) (query : Embedding) {ids : List VectorId}
    (distinct : ids.Nodup) : ((store.hitsOf query ids).map (·.id)).Nodup := by
  induction ids with
  | nil => exact List.nodup_nil
  | cons first rest ih =>
      obtain ⟨fresh, tail⟩ := List.nodup_cons.mp distinct
      rw [hitsOf, List.filterMap_cons]
      cases store.score query first with
      | none => exact ih tail
      | some score =>
          refine List.nodup_cons.mpr ⟨fun member => ?_, ih tail⟩
          obtain ⟨hit, hitIn, same⟩ := List.mem_map.mp member
          have inside := ((mem_hitsOf store query rest hit).mp hitIn).1
          dsimp only at same
          rw [same] at inside
          exact fresh inside

theorem hitsOf_cons (store : Store) (query : Embedding) {id : VectorId} {score : Float32}
    (scored : store.score query id = some score) (ids : List VectorId) :
    store.hitsOf query (id :: ids) = ⟨id, score⟩ :: store.hitsOf query ids := by
  rw [hitsOf, List.filterMap_cons, scored]
  rfl

def Comparable (store : Store) (viewer : VectorId) (others : List VectorId) : Prop :=
  ∀ row other score, store.get? viewer = some row → other ∈ others →
    store.score row other = some score → score.isNaN = false

theorem Comparable.subset {store : Store} {viewer : VectorId} {others some : List VectorId}
    (comparable : store.Comparable viewer others) (inside : some ⊆ others) :
    store.Comparable viewer some :=
  fun row other score stored member => comparable row other score stored (inside member)

theorem comparable_of_all {store : Store}
    (defined : store.ids.all (fun viewer => store.ids.all fun other =>
      (store.get? viewer).all fun row =>
        (store.score row other).all fun score => !score.isNaN) = true)
    (viewer : VectorId) (others : List VectorId) : store.Comparable viewer others := by
  intro row other score stored _ scored
  have viewerIn : viewer ∈ store.ids := by
    rw [mem_ids, ← isSome_get?, stored]
    rfl
  have otherIn : other ∈ store.ids := by
    rw [mem_ids, ← isSome_score store row, scored]
    rfl
  have found := List.all_eq_true.mp (List.all_eq_true.mp defined viewer viewerIn) other otherIn
  rw [stored, Option.all_some, scored, Option.all_some, Bool.not_eq_true'] at found
  exact found

def Prefers (store : Store) (viewer near far : VectorId) : Prop :=
  ∃ row nearScore farScore, store.get? viewer = some row ∧ store.score row near = some nearScore ∧
    store.score row far = some farScore ∧
    (Hit.mk near nearScore).precedes (Hit.mk far farScore) = true

end Store

end VectorSearch

import VectorSearch.Proofs.Tags.Table
/-!
What the operations of the table of tags keep and what they change: each keeps the representation
invariant, and is an equation between the lists before and after.
-/

namespace VectorSearch.TagTable

variable {hash : Tag → UInt64}

theorem find?_cases {table : TagTable hash} (valid : table.Valid) (tag : Tag) :
    (table.find? tag = none ∧ table.ids tag = []) ∨
      ∃ entry, table.find? tag = some entry ∧ table.ids tag = entry.ids ∧ entry.ids ≠ [] := by
  cases found : table.find? tag with
  | none => exact Or.inl ⟨rfl, by simp [ids, found]⟩
  | some entry =>
      have member := ((find?_eq_some_iff valid tag entry).mp found).1
      exact Or.inr ⟨entry, rfl, by simp [ids, found], valid.sound.inUse entry member⟩

theorem add_eq {table : TagTable hash} (valid : table.Valid) (tag : Tag) (id : VectorId) :
    table.add tag id =
      if id ∈ table.ids tag then table
      else if table.ids tag = [] then table.openTag tag id
      else table.changeIds tag (· ++ [id]) := by
  rcases find?_cases valid tag with ⟨missing, empty⟩ | ⟨entry, found, same, inUse⟩
  · simp [add, missing, empty]
  · simp [add, found, same, inUse]

theorem remove_eq {table : TagTable hash} (valid : table.Valid) (tag : Tag) (id : VectorId) :
    table.remove tag id =
      if id ∈ table.ids tag then
        (true,
          if (table.ids tag).erase id = [] then table.dropTag tag
          else table.changeIds tag fun _ => (table.ids tag).erase id)
      else (false, table) := by
  rcases find?_cases valid tag with ⟨missing, empty⟩ | ⟨entry, found, same, inUse⟩
  · simp [remove, missing, empty]
  · simp [remove, found, same]

theorem Valid.add {table : TagTable hash} (valid : table.Valid) (tag : Tag) (id : VectorId) :
    (table.add tag id).Valid := by
  rw [add_eq valid]
  split
  · exact valid
  · rename_i fresh
    split
    · rename_i empty
      exact valid.openTag tag id empty
    · refine valid.changeIds tag _ (by simp) ?_
      exact (nodup_ids valid tag).append (List.nodup_singleton id) (by simpa using fresh)

theorem ids_add {table : TagTable hash} (valid : table.Valid) (tag : Tag) (id : VectorId)
    (other : Tag) :
    (table.add tag id).ids other =
      if other = tag then
        if id ∈ table.ids tag then table.ids tag else table.ids tag ++ [id]
      else table.ids other := by
  have after := valid.add tag id
  rw [add_eq valid] at after ⊢
  by_cases present : id ∈ table.ids tag
  · simp only [present, if_true]
    split
    · rename_i same
      rw [same]
    · rfl
  · simp only [present, if_false] at after ⊢
    by_cases empty : table.ids tag = []
    · rw [if_pos empty] at after ⊢
      rw [ids_openTag valid tag id after, empty]
      rfl
    · rw [if_neg empty] at after ⊢
      exact ids_changeIds valid tag _ after empty other

theorem Valid.remove {table : TagTable hash} (valid : table.Valid) (tag : Tag) (id : VectorId) :
    (table.remove tag id).2.Valid := by
  rw [remove_eq valid]
  split
  · rename_i present
    have occupied : table.ids tag ≠ [] := List.ne_nil_of_mem present
    dsimp only
    split
    · exact valid.dropTag tag occupied
    · rename_i left
      exact valid.changeIds tag _ left ((nodup_ids valid tag).erase id)
  · exact valid

theorem fst_remove {table : TagTable hash} (valid : table.Valid) (tag : Tag) (id : VectorId) :
    (table.remove tag id).1 = decide (id ∈ table.ids tag) := by
  rw [remove_eq valid]
  split <;> simp [*]

theorem ids_remove {table : TagTable hash} (valid : table.Valid) (tag : Tag) (id : VectorId)
    (other : Tag) :
    (table.remove tag id).2.ids other =
      if other = tag then (table.ids tag).erase id else table.ids other := by
  have after := valid.remove tag id
  rw [remove_eq valid] at after ⊢
  by_cases present : id ∈ table.ids tag
  · simp only [present, if_true] at after ⊢
    have occupied : table.ids tag ≠ [] := List.ne_nil_of_mem present
    by_cases left : (table.ids tag).erase id = []
    · rw [if_pos left] at after ⊢
      rw [ids_dropTag valid tag after, left]
    · rw [if_neg left] at after ⊢
      exact ids_changeIds valid tag _ after occupied other
  · simp only [present, if_false]
    split
    · rename_i same
      rw [same, List.erase_of_not_mem present]
    · rfl

/-! Removing a vector altogether. -/

def without (id : VectorId) (entries : List TagEntry) : List TagEntry :=
  (entries.map fun entry => { entry with ids := entry.ids.erase id }).filter (!·.ids.isEmpty)

theorem mem_without (id : VectorId) (entries : List TagEntry) (entry : TagEntry) :
    entry ∈ without id entries ↔
      (∃ before ∈ entries, { before with ids := before.ids.erase id } = entry) ∧
        entry.ids ≠ [] := by
  simp [without]

theorem flat_removeVector (table : TagTable hash) (id : VectorId) :
    flat (table.removeVector id).2.buckets = without id (flat table.buckets) := by
  simp only [flat, removeVector, without, Array.toList_map, List.map_flatten, List.filter_flatten,
    List.map_map]
  rfl

theorem Valid.removeVector {table : TagTable hash} (valid : table.Valid) (id : VectorId) :
    (table.removeVector id).2.Valid where
  positive := by simpa [TagTable.removeVector] using valid.positive
  placed := by
    intro position chain found entry inside
    simp only [TagTable.removeVector, Array.getElem?_map, Option.map_eq_some_iff,
      Array.size_map] at found ⊢
    obtain ⟨old, foundOld, rfl⟩ := found
    obtain ⟨⟨before, member, rfl⟩, _⟩ := (mem_without id old entry).mp inside
    exact valid.placed position old foundOld before member
  sound := by
    rw [flat_removeVector]
    refine ⟨?_, ?_, ?_⟩
    · have tags : ((flat table.buckets).map fun entry =>
          { entry with ids := entry.ids.erase id : TagEntry }).map (·.tag) =
          (flat table.buckets).map (·.tag) := by
        rw [List.map_map]
        rfl
      have distinct := valid.sound.distinct
      rw [← tags] at distinct
      exact distinct.sublist (List.filter_sublist.map _)
    · exact fun entry member => ((mem_without id _ entry).mp member).2
    · intro entry member
      obtain ⟨⟨before, beforeIn, rfl⟩, _⟩ := (mem_without id _ entry).mp member
      exact (valid.sound.nodup before beforeIn).erase id
  counted := rfl

theorem ids_removeVector {table : TagTable hash} (valid : table.Valid) (id : VectorId)
    (tag : Tag) : (table.removeVector id).2.ids tag = (table.ids tag).erase id := by
  have after := valid.removeVector id
  by_cases left : (table.ids tag).erase id = []
  · rw [left]
    apply ids_of_absent after
    intro entry member same
    rw [flat_removeVector] at member
    obtain ⟨⟨before, beforeIn, rfl⟩, inUse⟩ := (mem_without id _ entry).mp member
    have list := ids_of_mem valid beforeIn
    subst same
    rw [list] at left
    exact inUse left
  · have occupied : table.ids tag ≠ [] := by
      intro empty
      simp [empty] at left
    obtain ⟨before, beforeIn, rfl⟩ := (ids_ne_nil_iff valid tag).mp occupied
    rw [ids_of_mem valid beforeIn] at left ⊢
    apply (ids_eq_iff after before.tag _).mpr
    refine Or.inl ⟨{ before with ids := before.ids.erase id }, ?_, rfl, rfl⟩
    rw [flat_removeVector]
    exact (mem_without id _ _).mpr ⟨⟨before, beforeIn, rfl⟩, left⟩

theorem fst_removeVector {table : TagTable hash} (valid : table.Valid) (id : VectorId)
    (tags : Finset Tag) (live : ∀ tag, tag ∈ tags ↔ id ∈ table.ids tag) :
    (table.removeVector id).1 = tags.card := by
  apply countP_eq_card valid
  intro tag
  rw [live]
  constructor
  · intro member
    obtain ⟨entry, entryIn, rfl⟩ :=
      (ids_ne_nil_iff valid tag).mp (List.ne_nil_of_mem member)
    rw [ids_of_mem valid entryIn] at member
    exact ⟨entry, entryIn, rfl, by simpa using member⟩
  · rintro ⟨entry, entryIn, rfl, member⟩
    rw [ids_of_mem valid entryIn]
    simpa using member

/-! Clearing, and the number of tags in use. -/

theorem Valid.clear {table : TagTable hash} (valid : table.Valid) : table.clear.Valid where
  positive := by simpa [TagTable.clear] using valid.positive
  placed := placed_replicate hash _
  sound := by
    simp only [TagTable.clear, flat_replicate]
    exact ⟨List.nodup_nil, by simp, by simp⟩
  counted := by simp [TagTable.clear, flat_replicate]

theorem ids_clear {table : TagTable hash} (valid : table.Valid) (tag : Tag) :
    table.clear.ids tag = [] :=
  ids_of_absent valid.clear (by simp [TagTable.clear, flat_replicate])

theorem size_eq_card {table : TagTable hash} (valid : table.Valid) (tags : Finset Tag)
    (live : ∀ tag, tag ∈ tags ↔ table.ids tag ≠ []) : table.size = tags.card := by
  have counted := countP_eq_card valid (fun _ => true) tags (fun tag => by
    simp [live, ids_ne_nil_iff valid])
  rw [size, valid.counted, ← counted, List.countP_true]

end VectorSearch.TagTable

import Mathlib.Data.Finsupp.Basic
import VectorSearch.Proofs.Run
import VectorSearch.Proofs.Tags.Operations
/-!
The table of tags as a plain map. The map gives every tag its vectors without repetition, none to
all but finitely many tags; it knows nothing of hashes and chains. Under every hash a table answers
as the map does.
-/

namespace VectorSearch

structure IdList where
  ids : List VectorId
  nodup : ids.Nodup

namespace IdList

instance : Zero IdList := ⟨⟨[], List.nodup_nil⟩⟩

@[simp] theorem ids_zero : (0 : IdList).ids = [] := rfl

theorem eq_zero_iff (list : IdList) : list = 0 ↔ list.ids = [] := by
  constructor
  · rintro rfl
    rfl
  · intro empty
    cases list
    subst empty
    rfl

def add (list : IdList) (id : VectorId) : IdList where
  ids := if id ∈ list.ids then list.ids else list.ids ++ [id]
  nodup := by
    split
    · exact list.nodup
    · rename_i absent
      exact list.nodup.append (List.nodup_singleton id) (by simpa using absent)

def erase (list : IdList) (id : VectorId) : IdList where
  ids := list.ids.erase id
  nodup := list.nodup.erase id

theorem erase_zero (id : VectorId) : (0 : IdList).erase id = 0 := by
  rw [eq_zero_iff]
  rfl

end IdList

/-- The vectors that carry each tag. A tag without vectors is not in the map. -/
abbrev TagMap := Tag →₀ IdList

inductive TagCall where
  | add (tag : Tag) (id : VectorId)
  | remove (tag : Tag) (id : VectorId)
  | removeVector (id : VectorId)
  | update (id : VectorId) (old new : Option TagList)
  | clear

inductive TagAnswer where
  | done
  | removed (present : Bool)
  | touched (lists : Nat)
  deriving DecidableEq

namespace TagMap

noncomputable def add (map : TagMap) (tag : Tag) (id : VectorId) : TagMap :=
  map.update tag ((map tag).add id)

noncomputable def remove (map : TagMap) (tag : Tag) (id : VectorId) : TagMap :=
  map.update tag ((map tag).erase id)

noncomputable def removeVector (map : TagMap) (id : VectorId) : TagMap :=
  map.mapRange (·.erase id) (IdList.erase_zero id)

noncomputable def update (map : TagMap) (id : VectorId) (old new : List Tag) : TagMap :=
  new.foldl (fun map tag => map.add tag id) (old.foldl (fun map tag => map.remove tag id) map)

noncomputable def call (map : TagMap) : TagCall → TagAnswer × TagMap
  | .add tag id => (.done, map.add tag id)
  | .remove tag id => (.removed (id ∈ (map tag).ids), map.remove tag id)
  | .removeVector id =>
    (.touched (map.support.filter fun tag => id ∈ (map tag).ids).card, map.removeVector id)
  | .update id old new =>
    (.done, map.update id ((old.map (·.tags)).getD []) ((new.map (·.tags)).getD []))
  | .clear => (.done, 0)

end TagMap

namespace TagTable

variable {hash : Tag → UInt64}

def call (table : TagTable hash) : TagCall → TagAnswer × TagTable hash
  | .add tag id => (.done, table.add tag id)
  | .remove tag id => ((.removed (table.remove tag id).1), (table.remove tag id).2)
  | .removeVector id => (.touched (table.removeVector id).1, (table.removeVector id).2)
  | .update id old new => (.done, table.update id old new)
  | .clear => (.done, table.clear)

def run (hash : Tag → UInt64) (requested : Nat) (calls : List TagCall) : TagTable hash :=
  calls.foldl (fun table request => (table.call request).2) (withBuckets requested)

theorem run_concat (hash : Tag → UInt64) (requested : Nat) (calls : List TagCall)
    (request : TagCall) :
    run hash requested (calls ++ [request]) = ((run hash requested calls).call request).2 := by
  simp [run]

structure Shows (table : TagTable hash) (map : TagMap) : Prop where
  ids : ∀ tag, table.ids tag = (map tag).ids
  count : ∀ tag, table.count tag = (map tag).ids.length
  contains : ∀ tag id, table.contains tag id = decide (id ∈ (map tag).ids)
  query : ∀ tag room, table.query tag room =
    if room = 0 then .error (.invalidArgument "query output buffer must hold at least one id")
    else .ok ((map tag).ids.take (min room (map tag).ids.length))
  size : table.size = map.support.card
  isEmpty : table.isEmpty = true ↔ map = 0

structure Refines (table : TagTable hash) (map : TagMap) : Prop where
  valid : table.Valid
  lists : ∀ tag, table.ids tag = (map tag).ids

theorem Refines.mem_support {table : TagTable hash} {map : TagMap} (refines : table.Refines map)
    (tag : Tag) : tag ∈ map.support ↔ table.ids tag ≠ [] := by
  rw [Finsupp.mem_support_iff, ne_eq, IdList.eq_zero_iff, refines.lists]

theorem Refines.size_eq {table : TagTable hash} {map : TagMap} (refines : table.Refines map) :
    table.size = map.support.card :=
  size_eq_card refines.valid map.support refines.mem_support

theorem Refines.shows {table : TagTable hash} {map : TagMap} (refines : table.Refines map) :
    table.Shows map where
  ids := refines.lists
  count tag := by rw [TagTable.count, refines.lists]
  contains tag id := by simp [TagTable.contains, refines.lists]
  query tag room := by
    rw [← List.take_eq_take_min, TagTable.query, refines.lists]
  size := refines.size_eq
  isEmpty := by
    rw [← Finsupp.support_eq_empty, ← Finset.card_eq_zero, ← refines.size_eq]
    exact beq_iff_eq

theorem refines_withBuckets (requested : Nat) :
    (withBuckets requested : TagTable hash).Refines 0 :=
  ⟨valid_withBuckets requested, ids_withBuckets requested⟩

theorem Refines.add {table : TagTable hash} {map : TagMap} (refines : table.Refines map)
    (tag : Tag) (id : VectorId) : (table.add tag id).Refines (map.add tag id) where
  valid := refines.valid.add tag id
  lists other := by
    rw [ids_add refines.valid, TagMap.add, Finsupp.update_apply]
    simp only [refines.lists]
    split <;> rfl

theorem Refines.remove {table : TagTable hash} {map : TagMap} (refines : table.Refines map)
    (tag : Tag) (id : VectorId) : (table.remove tag id).2.Refines (map.remove tag id) where
  valid := refines.valid.remove tag id
  lists other := by
    rw [ids_remove refines.valid, TagMap.remove, Finsupp.update_apply]
    simp only [refines.lists]
    split <;> rfl

theorem Refines.removeVector {table : TagTable hash} {map : TagMap} (refines : table.Refines map)
    (id : VectorId) : (table.removeVector id).2.Refines (map.removeVector id) where
  valid := refines.valid.removeVector id
  lists tag := by
    rw [ids_removeVector refines.valid, refines.lists, TagMap.removeVector, Finsupp.mapRange_apply]
    rfl

theorem Refines.update {table : TagTable hash} {map : TagMap} (refines : table.Refines map)
    (id : VectorId) (old new : Option TagList) :
    (table.update id old new).Refines
      (map.update id ((old.map (·.tags)).getD []) ((new.map (·.tags)).getD [])) := by
  have taken := List.foldl_rel (l := (old.map (·.tags)).getD []) refines
    fun tag _ _ _ refines => refines.remove tag id
  exact List.foldl_rel taken fun tag _ _ _ refines => refines.add tag id

theorem Refines.call {table : TagTable hash} {map : TagMap} (refines : table.Refines map)
    (request : TagCall) :
    (table.call request).1 = (map.call request).1 ∧
      (table.call request).2.Refines (map.call request).2 := by
  cases request with
  | add tag id => exact ⟨rfl, refines.add tag id⟩
  | remove tag id =>
      refine ⟨?_, refines.remove tag id⟩
      simp only [TagTable.call, TagMap.call, fst_remove refines.valid, refines.lists]
  | removeVector id =>
      refine ⟨?_, refines.removeVector id⟩
      simp only [TagTable.call, TagMap.call, TagAnswer.touched.injEq]
      apply fst_removeVector refines.valid
      intro tag
      rw [Finset.mem_filter, refines.mem_support, refines.lists]
      exact ⟨And.right, fun member => ⟨List.ne_nil_of_mem member, member⟩⟩
  | update id old new => exact ⟨rfl, refines.update id old new⟩
  | clear => exact ⟨rfl, refines.valid.clear, ids_clear refines.valid⟩

theorem valid_run (hash : Tag → UInt64) (requested : Nat) (calls : List TagCall) :
    (run hash requested calls).Valid := by
  suffices kept : ∃ map, (run hash requested calls).Refines map by
    obtain ⟨map, refines⟩ := kept
    exact refines.valid
  induction calls using List.reverseRecOn with
  | nil => exact ⟨0, refines_withBuckets requested⟩
  | append_singleton front request ih =>
      obtain ⟨map, refines⟩ := ih
      rw [run_concat]
      exact ⟨_, (refines.call request).2⟩

/-- Whatever the hash is and however many chains there are at first, a table of tags answers every
call of a run as the map does, and the map tells all that can be seen of the table afterwards. -/
theorem transcript_call_eq_map (hash : Tag → UInt64) (requested : Nat) (calls : List TagCall) :
    (transcript TagTable.call (withBuckets requested : TagTable hash) calls).1 =
        (transcript TagMap.call 0 calls).1 ∧
      (transcript TagTable.call (withBuckets requested : TagTable hash) calls).2.Shows
        (transcript TagMap.call 0 calls).2 := by
  obtain ⟨answers, refines⟩ := transcript_agree TagTable.call TagMap.call Refines
    (fun _ _ request refines => refines.call request) calls _ _
    (@refines_withBuckets hash requested)
  exact ⟨answers, refines.shows⟩

end TagTable

end VectorSearch

import Mathlib.Data.Set.Card
import VectorSearch.Proofs.Tags.TagMap
import VectorSearch.Tags.TagIndex
/-!
Updates of the table of tags. What an update makes of the list of a tag depends only on which of
the old and the new tags have it. If the updates of each vector follow one another, every vector
has in the end the tags of its last update, whatever the updates of other vectors between them.
-/

namespace VectorSearch

def Tag.isAmong (tag : Tag) (tags : Option TagList) : Bool :=
  tags.any (·.tags.contains tag)

structure TagUpdate where
  id : VectorId
  old : Option TagList
  new : Option TagList

namespace TagUpdate

/-- The updates of each vector form a chain: the first one starts without tags, and every other
one with the tags that the one before it gave. -/
def Chained (updates : List TagUpdate) : Prop :=
  ∀ step ∈ updates,
    let own := updates.filter (·.id = step.id)
    (∀ first ∈ own.head?, first.old = none) ∧
      own.IsChain fun before after => after.old = before.new

def latest (updates : List TagUpdate) (id : VectorId) : Option TagList :=
  (updates.filter (·.id = id)).getLast?.bind (·.new)

theorem latest_concat (front : List TagUpdate) (last : TagUpdate) (id : VectorId) :
    latest (front ++ [last]) id = if last.id = id then last.new else latest front id := by
  by_cases same : last.id = id
  · simp [latest, same]
  · simp [latest, same]

theorem Chained.of_concat {front : List TagUpdate} {last : TagUpdate}
    (chained : Chained (front ++ [last])) : Chained front ∧ last.old = latest front last.id := by
  constructor
  · intro step member
    obtain ⟨start, chain⟩ := chained step (by simp [member])
    rw [List.filter_append] at start chain
    refine ⟨fun first found => start first ?_, (List.isChain_append.mp chain).1⟩
    simp [List.head?_append, Option.mem_def.mp found]
  · obtain ⟨start, chain⟩ := chained last (by simp)
    have alone : [last].filter (·.id = last.id) = [last] := by simp
    rw [List.filter_append, alone] at start chain
    rw [latest]
    cases before : (front.filter (·.id = last.id)).getLast? with
    | none =>
        rw [List.getLast?_eq_none_iff.mp before] at start
        exact start last rfl
    | some previous => exact (List.isChain_append.mp chain).2.2 previous before last rfl

end TagUpdate

namespace TagTable

variable {hash : Tag → UInt64}

/-! One update. -/

/-- What an update of a vector makes of the list of a tag that its old tags have or have not, and
its new ones have or have not. -/
def updatedList (id : VectorId) (old new : Bool) (ids : List VectorId) : List VectorId :=
  match old, new with
  | true, false => ids.filter (· != id)
  | false, true => if id ∈ ids then ids else ids.filter (· != id) ++ [id]
  | true, true => ids.filter (· != id) ++ [id]
  | false, false => ids

theorem mem_updatedList (id : VectorId) (old new : Bool) (ids : List VectorId) (other : VectorId) :
    other ∈ updatedList id old new ids ↔
      if other = id then new = true ∨ old = false ∧ id ∈ ids else other ∈ ids := by
  by_cases same : other = id
  · subst same
    cases old <;> cases new <;> by_cases present : other ∈ ids <;> simp [updatedList, present]
  · cases old <;> cases new <;> by_cases present : id ∈ ids <;> simp [updatedList, present, same]

theorem ids_foldl_remove (id : VectorId) (tags : List Tag) : ∀ {table : TagTable hash},
    table.Valid →
    (tags.foldl (fun table tag => (table.remove tag id).2) table).Valid ∧
      ∀ other, (tags.foldl (fun table tag => (table.remove tag id).2) table).ids other =
        if other ∈ tags then (table.ids other).filter (· != id) else table.ids other := by
  induction tags with
  | nil => intro table valid; exact ⟨valid, by simp⟩
  | cons first rest ih =>
      intro table valid
      obtain ⟨last, lists⟩ := ih (valid.remove first id)
      refine ⟨last, fun other => ?_⟩
      rw [List.foldl_cons, lists, ids_remove valid, (nodup_ids valid first).erase_eq_filter]
      by_cases here : other = first
      · subst here
        simp
      · simp [here]

theorem ids_foldl_add (id : VectorId) (tags : List Tag) : ∀ {table : TagTable hash},
    table.Valid →
    (tags.foldl (fun table tag => table.add tag id) table).Valid ∧
      ∀ other, (tags.foldl (fun table tag => table.add tag id) table).ids other =
        if other ∈ tags ∧ id ∉ table.ids other then table.ids other ++ [id]
        else table.ids other := by
  induction tags with
  | nil => intro table valid; exact ⟨valid, by simp⟩
  | cons first rest ih =>
      intro table valid
      obtain ⟨last, lists⟩ := ih (valid.add first id)
      refine ⟨last, fun other => ?_⟩
      rw [List.foldl_cons, lists, ids_add valid]
      by_cases here : other = first
      · subst here
        by_cases present : id ∈ table.ids other <;> simp [present]
      · simp [here]

theorem ids_update {table : TagTable hash} (valid : table.Valid) (id : VectorId)
    (old new : Option TagList) :
    (table.update id old new).Valid ∧ ∀ tag, (table.update id old new).ids tag =
      updatedList id (tag.isAmong old) (tag.isAmong new) (table.ids tag) := by
  have among (tags : Option TagList) (tag : Tag) :
      tag ∈ (tags.map (·.tags)).getD [] ↔ tag.isAmong tags = true := by
    cases tags <;> simp [Tag.isAmong]
  obtain ⟨cleared, left⟩ := ids_foldl_remove id ((old.map (·.tags)).getD []) valid
  obtain ⟨updated, lists⟩ := ids_foldl_add id ((new.map (·.tags)).getD []) cleared
  refine ⟨updated, fun tag => ?_⟩
  have gone (absent : id ∉ table.ids tag) :
      (table.ids tag).filter (· != id) = table.ids tag := by
    rw [← (nodup_ids valid tag).erase_eq_filter, List.erase_of_not_mem absent]
  simp only [update, lists, left, among]
  by_cases present : id ∈ table.ids tag
  · cases tag.isAmong old <;> cases tag.isAmong new <;> simp [updatedList, present]
  · cases tag.isAmong old <;> cases tag.isAmong new <;> simp [updatedList, present, gone present]

/-! The number of tags in use. -/

theorem size_eq_ncard {table : TagTable hash} (valid : table.Valid) :
    table.size = {tag | table.ids tag ≠ []}.ncard := by
  have live (tag : Tag) : tag ∈ ((flat table.buckets).map (·.tag)).toFinset ↔
      table.ids tag ≠ [] := by
    simp [ids_ne_nil_iff valid]
  have same : {tag | table.ids tag ≠ []} = ↑((flat table.buckets).map (·.tag)).toFinset := by
    ext tag
    exact (live tag).symm
  rw [same, Set.ncard_coe_finset]
  exact size_eq_card valid _ live

theorem ids_of_isEmpty {table : TagTable hash} (valid : table.Valid) (empty : table.isEmpty = true)
    (tag : Tag) : table.ids tag = [] := by
  apply ids_of_absent valid
  have none : flat table.buckets = [] := by
    rw [← List.length_eq_zero_iff, ← valid.counted]
    exact beq_iff_eq.mp empty
  simp [none]

/-! Chains of updates. -/

def updateAll (table : TagTable hash) (updates : List TagUpdate) : TagTable hash :=
  updates.foldl (fun table step => table.update step.id step.old step.new) table

theorem contains_updateAll {table : TagTable hash} (valid : table.Valid)
    (empty : table.isEmpty = true) {updates : List TagUpdate}
    (chained : TagUpdate.Chained updates) :
    (table.updateAll updates).Valid ∧ ∀ id tag,
      (table.updateAll updates).contains tag id = tag.isAmong (TagUpdate.latest updates id) := by
  induction updates using List.reverseRecOn with
  | nil =>
      refine ⟨valid, fun id tag => ?_⟩
      simp [updateAll, contains, ids_of_isEmpty valid empty, TagUpdate.latest, Tag.isAmong]
  | append_singleton front last ih =>
      obtain ⟨chainedFront, linked⟩ := chained.of_concat
      obtain ⟨validFront, known⟩ := ih chainedFront
      have step : table.updateAll (front ++ [last]) =
          (table.updateAll front).update last.id last.old last.new := by
        simp [updateAll]
      obtain ⟨updated, lists⟩ := ids_update validFront last.id last.old last.new
      rw [step]
      refine ⟨updated, fun id tag => ?_⟩
      have before (other : VectorId) := known other tag
      simp only [contains, List.contains_eq_mem] at before ⊢
      rw [Bool.eq_iff_iff, decide_eq_true_iff, lists, mem_updatedList, TagUpdate.latest_concat]
      by_cases own : id = last.id
      · -- The old tags are those that the vector has, so it is left with none but the new ones.
        subst own
        rw [linked]
        by_cases had : last.id ∈ (table.updateAll front).ids tag
        · simp [← before, had]
        · simp [← before, had]
      · simp [own, Ne.symm own, ← before]

/-- After any calls on a table an update changes the lists as `updatedList` says. When no tag is in
use and the updates of each vector then form a chain, a vector has in the end just the tags of its
last update, and the tags in use are those of all last updates. -/
theorem update_run (hash : Tag → UInt64) (requested : Nat) (calls : List TagCall) :
    let table := run hash requested calls
    (∀ id old new tag, (table.update id old new).ids tag =
      updatedList id (tag.isAmong old) (tag.isAmong new) (table.ids tag)) ∧
    (table.isEmpty = true → ∀ updates, TagUpdate.Chained updates →
      (∀ id tag, (table.updateAll updates).contains tag id =
        tag.isAmong (TagUpdate.latest updates id)) ∧
      (table.updateAll updates).size =
        {tag : Tag | ∃ id, tag.isAmong (TagUpdate.latest updates id) = true}.ncard) := by
  intro table
  have valid : table.Valid := valid_run hash requested calls
  refine ⟨fun id old new tag => (ids_update valid id old new).2 tag, ?_⟩
  intro empty updates chained
  obtain ⟨last, known⟩ := contains_updateAll valid empty chained
  refine ⟨known, ?_⟩
  rw [size_eq_ncard last]
  congr 1
  ext tag
  simp [← known, contains, List.eq_nil_iff_forall_not_mem]

theorem update_run_two :
    let red : TagList := .ofTags [⟨"color", "red"⟩, ⟨"size", "xl"⟩]
    let blue : TagList := .ofTags [⟨"color", "blue"⟩, ⟨"size", "xl"⟩]
    let updates : List TagUpdate :=
      [⟨7, none, some red⟩, ⟨8, none, some red⟩, ⟨7, some red, some blue⟩, ⟨8, some red, none⟩]
    let table := run Tag.hashCode 1 [.add ⟨"size", "s"⟩ 7, .clear]
    table.isEmpty = true ∧ TagUpdate.Chained updates ∧
      (∀ id tag, (table.updateAll updates).contains tag id =
        tag.isAmong (TagUpdate.latest updates id)) ∧
      (table.updateAll updates).size =
        {tag : Tag | ∃ id, tag.isAmong (TagUpdate.latest updates id) = true}.ncard := by
  intro red blue updates table
  have empty : table.isEmpty = true := by decide +kernel
  have chained : TagUpdate.Chained updates := by
    unfold TagUpdate.Chained
    decide
  exact ⟨empty, chained,
    (update_run Tag.hashCode 1 [.add ⟨"size", "s"⟩ 7, .clear]).2 empty updates chained⟩

end TagTable

end VectorSearch

import Mathlib.Data.Finset.Card
import Mathlib.Data.List.Nodup
import VectorSearch.Proofs.Tags.Chains
/-!
The representation invariant of the table of tags, and what every operation does to the lists of
identifiers. Nothing here depends on the hash: the invariant says where entries lie, and a lookup
finds the one entry of its tag wherever that is.
-/

namespace VectorSearch

/-- Entries that a table may hold: one for each tag, none without vectors, no vector twice. -/
structure SoundEntries (entries : List TagEntry) : Prop where
  distinct : (entries.map (·.tag)).Nodup
  inUse : ∀ entry ∈ entries, entry.ids ≠ []
  nodup : ∀ entry ∈ entries, entry.ids.Nodup

theorem SoundEntries.perm {entries others : List TagEntry} (sound : SoundEntries entries)
    (perm : others.Perm entries) : SoundEntries others where
  distinct := ((perm.map (·.tag)).nodup_iff).mpr sound.distinct
  inUse entry member := sound.inUse entry (perm.mem_iff.mp member)
  nodup entry member := sound.nodup entry (perm.mem_iff.mp member)

theorem SoundEntries.eq_of_tag {entries : List TagEntry} (sound : SoundEntries entries)
    {first second : TagEntry} (firstIn : first ∈ entries) (secondIn : second ∈ entries)
    (same : first.tag = second.tag) : first = second :=
  List.inj_on_of_nodup_map sound.distinct firstIn secondIn same

namespace TagTable

variable {hash : Tag → UInt64}

structure Valid (table : TagTable hash) : Prop where
  positive : 0 < table.buckets.size
  placed : Placed hash table.buckets
  sound : SoundEntries (flat table.buckets)
  counted : table.entries = (flat table.buckets).length

theorem find?_eq_some_iff {table : TagTable hash} (valid : table.Valid) (tag : Tag)
    (entry : TagEntry) :
    table.find? tag = some entry ↔ entry ∈ flat table.buckets ∧ entry.tag = tag := by
  simp only [find?, Option.bind_eq_some_iff]
  constructor
  · rintro ⟨chain, foundChain, found⟩
    have member : entry ∈ flat table.buckets :=
      (mem_flat _ _).mpr ⟨_, chain, foundChain, List.mem_of_find?_eq_some found⟩
    have matched : entry.isFor (hash tag) tag = true := by simpa using List.find?_some found
    exact ⟨member, (valid.placed.isFor_iff_tag member tag).mp matched⟩
  · rintro ⟨member, rfl⟩
    obtain ⟨position, chain, foundChain, inside⟩ := (mem_flat _ _).mp member
    obtain ⟨hashed, here⟩ := valid.placed position chain foundChain entry inside
    have own : table.bucket entry.tag = position := by rw [bucket, ← hashed, here]
    refine ⟨chain, by rw [own, foundChain], ?_⟩
    cases found : chain.find? (·.isFor (hash entry.tag) entry.tag) with
    | none =>
        have missed := List.find?_eq_none.mp found entry inside
        exact absurd ((valid.placed.isFor_iff_tag member entry.tag).mpr rfl) missed
    | some other =>
        have otherIn : other ∈ flat table.buckets :=
          (mem_flat _ _).mpr ⟨position, chain, foundChain, List.mem_of_find?_eq_some found⟩
        have matched : other.isFor (hash entry.tag) entry.tag = true := by
          simpa using List.find?_some found
        have sameTag := (valid.placed.isFor_iff_tag otherIn entry.tag).mp matched
        rw [valid.sound.eq_of_tag otherIn member sameTag]

theorem ids_of_mem {table : TagTable hash} (valid : table.Valid) {entry : TagEntry}
    (member : entry ∈ flat table.buckets) : table.ids entry.tag = entry.ids := by
  rw [ids, (find?_eq_some_iff valid entry.tag entry).mpr ⟨member, rfl⟩]
  rfl

theorem ids_of_absent {table : TagTable hash} (valid : table.Valid) {tag : Tag}
    (absent : ∀ entry ∈ flat table.buckets, entry.tag ≠ tag) : table.ids tag = [] := by
  have missing : table.find? tag = none := by
    rw [Option.eq_none_iff_forall_ne_some]
    intro entry found
    obtain ⟨member, same⟩ := (find?_eq_some_iff valid tag entry).mp found
    exact absent entry member same
  rw [ids, missing]
  rfl

theorem ids_eq_iff {table : TagTable hash} (valid : table.Valid) (tag : Tag)
    (list : List VectorId) :
    table.ids tag = list ↔
      (∃ entry ∈ flat table.buckets, entry.tag = tag ∧ entry.ids = list) ∨
      ((∀ entry ∈ flat table.buckets, entry.tag ≠ tag) ∧ list = []) := by
  by_cases present : ∃ entry ∈ flat table.buckets, entry.tag = tag
  · obtain ⟨entry, member, rfl⟩ := present
    rw [ids_of_mem valid member]
    constructor
    · intro same
      exact Or.inl ⟨entry, member, rfl, same⟩
    · rintro (⟨other, otherIn, same, rfl⟩ | ⟨absent, _⟩)
      · rw [valid.sound.eq_of_tag otherIn member same]
      · exact absurd rfl (absent entry member)
  · have absent : ∀ entry ∈ flat table.buckets, entry.tag ≠ tag :=
      fun entry member same => present ⟨entry, member, same⟩
    rw [ids_of_absent valid absent]
    constructor
    · intro same
      exact Or.inr ⟨absent, same.symm⟩
    · rintro (⟨entry, member, same, _⟩ | ⟨_, same⟩)
      · exact absurd same (absent entry member)
      · exact same.symm

theorem nodup_ids {table : TagTable hash} (valid : table.Valid) (tag : Tag) :
    (table.ids tag).Nodup := by
  rcases (ids_eq_iff valid tag _).mp rfl with ⟨entry, member, _, same⟩ | ⟨_, empty⟩
  · rw [← same]
    exact valid.sound.nodup entry member
  · rw [empty]
    exact List.nodup_nil

theorem ids_ne_nil_iff {table : TagTable hash} (valid : table.Valid) (tag : Tag) :
    table.ids tag ≠ [] ↔ ∃ entry ∈ flat table.buckets, entry.tag = tag := by
  constructor
  · intro occupied
    by_contra absent
    exact occupied (ids_of_absent valid fun entry member same => absent ⟨entry, member, same⟩)
  · rintro ⟨entry, member, rfl⟩
    rw [ids_of_mem valid member]
    exact valid.sound.inUse entry member

theorem countP_eq_card {table : TagTable hash} (valid : table.Valid) (test : TagEntry → Bool)
    (tags : Finset Tag)
    (live : ∀ tag, tag ∈ tags ↔ ∃ entry ∈ flat table.buckets, entry.tag = tag ∧ test entry = true) :
    (flat table.buckets).countP test = tags.card := by
  have nodup : (((flat table.buckets).filter test).map (·.tag)).Nodup :=
    valid.sound.distinct.sublist (List.filter_sublist.map _)
  have same : tags = (((flat table.buckets).filter test).map (·.tag)).toFinset := by
    ext tag
    simp only [live, List.mem_toFinset, List.mem_map, List.mem_filter]
    constructor
    · rintro ⟨entry, member, same, passes⟩
      exact ⟨entry, ⟨member, passes⟩, same⟩
    · rintro ⟨entry, ⟨member, passes⟩, same⟩
      exact ⟨entry, member, same, passes⟩
  rw [same, List.toFinset_card_of_nodup nodup, List.length_map, List.countP_eq_length_filter]

theorem isFor_outside {table : TagTable hash} (valid : table.Valid) {tag : Tag} {other : Nat}
    {chain : List TagEntry} (different : other ≠ table.bucket tag)
    (found : table.buckets[other]? = some chain) {entry : TagEntry} (inside : entry ∈ chain) :
    entry.isFor (hash tag) tag = false := by
  rw [Bool.eq_false_iff, ne_eq, TagEntry.isFor_iff]
  rintro ⟨sameCode, _⟩
  have here := (valid.placed other chain found entry inside).2
  rw [sameCode] at here
  exact different here.symm

/-! A new table. -/

theorem valid_withBuckets (requested : Nat) : (withBuckets requested : TagTable hash).Valid where
  positive := by
    simpa [withBuckets] using
      Nat.pos_of_isPowerOfTwo (Nat.isPowerOfTwo_nextPowerOfTwo (max requested 1))
  placed := placed_replicate hash _
  sound := by
    simp only [withBuckets, flat_replicate]
    exact ⟨List.nodup_nil, by simp, by simp⟩
  counted := by simp [withBuckets, flat_replicate]

theorem ids_withBuckets (requested : Nat) (tag : Tag) :
    (withBuckets requested : TagTable hash).ids tag = [] :=
  ids_of_absent (valid_withBuckets requested) (by simp [withBuckets, flat_replicate])

/-! Changing the list of one tag. -/

theorem flat_changeIds_perm {table : TagTable hash} (valid : table.Valid) (tag : Tag)
    (change : List VectorId → List VectorId) :
    (flat (table.changeIds tag change).buckets).Perm
      (modifyEntry (hash tag) tag change (flat table.buckets)) := by
  have perm := flatten_modify_perm (modifyEntry (hash tag) tag change)
    (modifyEntry (hash tag) tag change) table.buckets.toList (table.bucket tag)
    (fun _ _ => List.Perm.refl _)
    (fun other chain different found => modifyEntry_of_absent _ _ _ _ fun entry inside =>
      isFor_outside valid different (by simpa using found) inside)
  have flattened : (table.buckets.toList.map (modifyEntry (hash tag) tag change)).flatten =
      modifyEntry (hash tag) tag change (flat table.buckets) := by
    simp only [flat, modifyEntry, List.map_flatten]
    rfl
  rw [flattened] at perm
  simpa [flat, changeIds] using perm

theorem mem_changeIds {table : TagTable hash} (valid : table.Valid) (tag : Tag)
    (change : List VectorId → List VectorId) (entry : TagEntry) :
    entry ∈ flat (table.changeIds tag change).buckets ↔
      ∃ before ∈ flat table.buckets,
        entry = if before.tag = tag then { before with ids := change before.ids } else before := by
  rw [(flat_changeIds_perm valid tag change).mem_iff, modifyEntry, List.mem_map]
  constructor
  · rintro ⟨before, member, rfl⟩
    refine ⟨before, member, ?_⟩
    simp only [valid.placed.isFor_iff_tag member tag]
  · rintro ⟨before, member, rfl⟩
    refine ⟨before, member, ?_⟩
    simp only [valid.placed.isFor_iff_tag member tag]

theorem Valid.changeIds {table : TagTable hash} (valid : table.Valid) (tag : Tag)
    (change : List VectorId → List VectorId) (occupied : change (table.ids tag) ≠ [])
    (nodup : (change (table.ids tag)).Nodup) : (table.changeIds tag change).Valid where
  positive := by simpa [TagTable.changeIds] using valid.positive
  placed := by
    apply valid.placed.modify
    intro chain found entry inside
    obtain ⟨before, member, rfl⟩ := List.mem_map.mp inside
    have here := valid.placed _ chain found before member
    split
    · exact here
    · exact here
  sound := by
    refine SoundEntries.perm ⟨?_, ?_, ?_⟩ (flat_changeIds_perm valid tag change)
    · rw [map_tag_modifyEntry]
      exact valid.sound.distinct
    · intro entry changed
      rw [← (flat_changeIds_perm valid tag change).mem_iff] at changed
      obtain ⟨before, member, rfl⟩ := (mem_changeIds valid tag change entry).mp changed
      split
      · rename_i same
        subst same
        rwa [ids_of_mem valid member] at occupied
      · exact valid.sound.inUse before member
    · intro entry changed
      rw [← (flat_changeIds_perm valid tag change).mem_iff] at changed
      obtain ⟨before, member, rfl⟩ := (mem_changeIds valid tag change entry).mp changed
      split
      · rename_i same
        subst same
        rwa [ids_of_mem valid member] at nodup
      · exact valid.sound.nodup before member
  counted := by
    have size := (flat_changeIds_perm valid tag change).length_eq
    rw [modifyEntry, List.length_map] at size
    exact valid.counted.trans size.symm

theorem ids_changeIds {table : TagTable hash} (valid : table.Valid) (tag : Tag)
    (change : List VectorId → List VectorId) (changed : (table.changeIds tag change).Valid)
    (present : table.ids tag ≠ []) (other : Tag) :
    (table.changeIds tag change).ids other =
      if other = tag then change (table.ids tag) else table.ids other := by
  by_cases inUse : table.ids other = []
  · have different : other ≠ tag := fun same => present (same ▸ inUse)
    rw [if_neg different, inUse]
    apply ids_of_absent changed
    intro entry member same
    obtain ⟨before, beforeIn, rfl⟩ := (mem_changeIds valid tag change entry).mp member
    have sameTag : before.tag = other := by
      rw [← same]
      split <;> rfl
    exact (ids_ne_nil_iff valid other).mpr ⟨before, beforeIn, sameTag⟩ inUse
  · obtain ⟨before, beforeIn, rfl⟩ := (ids_ne_nil_iff valid other).mp inUse
    have member := (mem_changeIds valid tag change _).mpr ⟨before, beforeIn, rfl⟩
    have result := ids_of_mem changed member
    by_cases same : before.tag = tag
    · subst same
      simpa [ids_of_mem valid beforeIn] using result
    · simpa [same, ids_of_mem valid beforeIn] using result

/-! Taking a tag out of use. -/

theorem flat_dropTag_perm {table : TagTable hash} (valid : table.Valid) (tag : Tag) :
    (flat (table.dropTag tag).buckets).Perm
      ((flat table.buckets).filter (!·.isFor (hash tag) tag)) := by
  have perm := flatten_modify_perm (dropEntry (hash tag) tag)
    (List.filter (!·.isFor (hash tag) tag)) table.buckets.toList (table.bucket tag)
    (fun chain found => dropEntry_perm _ _ _ (valid.sound.distinct.sublist
      ((List.sublist_flatten_of_mem (List.mem_of_getElem? found)).map _)))
    (fun other chain different found => List.filter_eq_self.mpr fun entry inside => by
      simp [isFor_outside valid different (by simpa using found) inside])
  rw [← List.filter_flatten] at perm
  simpa [flat, dropTag] using perm

theorem mem_dropTag {table : TagTable hash} (valid : table.Valid) (tag : Tag) (entry : TagEntry) :
    entry ∈ flat (table.dropTag tag).buckets ↔ entry ∈ flat table.buckets ∧ entry.tag ≠ tag := by
  rw [(flat_dropTag_perm valid tag).mem_iff, List.mem_filter]
  refine and_congr_right fun member => ?_
  simp [← valid.placed.isFor_iff_tag member tag]

theorem Valid.dropTag {table : TagTable hash} (valid : table.Valid) (tag : Tag)
    (present : table.ids tag ≠ []) : (table.dropTag tag).Valid where
  positive := by simpa [TagTable.dropTag] using valid.positive
  placed := by
    apply valid.placed.modify
    intro chain found entry inside
    have distinct : (chain.map (·.tag)).Nodup := valid.sound.distinct.sublist
      ((List.sublist_flatten_of_mem (Array.mem_toList_iff.mpr (Array.mem_of_getElem? found))).map _)
    have kept := (dropEntry_perm (hash tag) tag chain distinct).mem_iff.mp inside
    exact valid.placed _ chain found entry (List.mem_filter.mp kept).1
  sound := by
    refine SoundEntries.perm ⟨?_, ?_, ?_⟩ (flat_dropTag_perm valid tag)
    · exact valid.sound.distinct.sublist (List.filter_sublist.map _)
    · exact fun entry member => valid.sound.inUse entry (List.mem_filter.mp member).1
    · exact fun entry member => valid.sound.nodup entry (List.mem_filter.mp member).1
  counted := by
    obtain ⟨entry, member, rfl⟩ := (ids_ne_nil_iff valid tag).mp present
    have one : (flat table.buckets).countP (·.isFor (hash entry.tag) entry.tag) = 1 := by
      rw [countP_eq_card valid _ {entry.tag}, Finset.card_singleton]
      intro other
      rw [Finset.mem_singleton]
      constructor
      · rintro rfl
        exact ⟨entry, member, rfl, (valid.placed.isFor_iff_tag member _).mpr rfl⟩
      · rintro ⟨found, foundIn, rfl, matched⟩
        exact (valid.placed.isFor_iff_tag foundIn _).mp matched
    have total : (flat table.buckets).length =
        (flat table.buckets).countP (·.isFor (hash entry.tag) entry.tag) +
          (flat table.buckets).countP (!·.isFor (hash entry.tag) entry.tag) := by
      simpa using List.length_eq_countP_add_countP (l := flat table.buckets) _
    have size := (flat_dropTag_perm valid entry.tag).length_eq
    rw [← List.countP_eq_length_filter] at size
    have counted : (table.dropTag entry.tag).entries = table.entries - 1 := rfl
    rw [counted, valid.counted]
    omega

theorem ids_dropTag {table : TagTable hash} (valid : table.Valid) (tag : Tag)
    (dropped : (table.dropTag tag).Valid) (other : Tag) :
    (table.dropTag tag).ids other = if other = tag then [] else table.ids other := by
  by_cases same : other = tag
  · rw [if_pos same]
    apply ids_of_absent dropped
    intro entry member
    rw [same]
    exact ((mem_dropTag valid tag entry).mp member).2
  · rw [if_neg same, ids_eq_iff dropped]
    rcases (ids_eq_iff valid other _).mp rfl with ⟨entry, member, tagged, list⟩ | ⟨absent, empty⟩
    · refine Or.inl ⟨entry, (mem_dropTag valid tag entry).mpr ⟨member, ?_⟩, tagged, list⟩
      rwa [tagged]
    · exact Or.inr ⟨fun entry member => absent entry ((mem_dropTag valid tag entry).mp member).1,
        empty⟩

/-! Taking a tag into use. -/

theorem makeRoom_buckets {table : TagTable hash} (valid : table.Valid) :
    0 < table.makeRoom.buckets.size ∧ Placed hash table.makeRoom.buckets ∧
      (flat table.makeRoom.buckets).Perm (flat table.buckets) ∧
      table.makeRoom.entries = table.entries := by
  unfold makeRoom
  split
  · exact ⟨valid.positive, valid.placed, List.Perm.refl _, rfl⟩
  · obtain ⟨size, placed, perm⟩ := double_buckets table valid.positive valid.placed
    have positive := valid.positive
    exact ⟨by omega, placed, perm, rfl⟩

theorem flat_openTag_perm {table : TagTable hash} (valid : table.Valid) (tag : Tag)
    (id : VectorId) :
    (flat (table.openTag tag id).buckets).Perm (⟨tag, hash tag, [id]⟩ :: flat table.buckets) := by
  obtain ⟨positive, _, perm, _⟩ := makeRoom_buckets valid
  exact (flat_pushEntry_perm positive _).trans (perm.cons _)

theorem Valid.openTag {table : TagTable hash} (valid : table.Valid) (tag : Tag) (id : VectorId)
    (absent : table.ids tag = []) : (table.openTag tag id).Valid where
  positive := by simpa [TagTable.openTag] using (makeRoom_buckets valid).1
  placed := (makeRoom_buckets valid).2.1.pushEntry rfl
  sound := by
    refine SoundEntries.perm ⟨?_, ?_, ?_⟩ (flat_openTag_perm valid tag id)
    · rw [List.map_cons, List.nodup_cons]
      refine ⟨fun member => ?_, valid.sound.distinct⟩
      obtain ⟨entry, entryIn, same⟩ := List.mem_map.mp member
      exact (ids_ne_nil_iff valid tag).mpr ⟨entry, entryIn, same⟩ absent
    · intro entry member
      rcases List.mem_cons.mp member with rfl | old
      · simp
      · exact valid.sound.inUse entry old
    · intro entry member
      rcases List.mem_cons.mp member with rfl | old
      · simp
      · exact valid.sound.nodup entry old
  counted := by
    rw [(flat_openTag_perm valid tag id).length_eq, List.length_cons, ← valid.counted]
    simp [TagTable.openTag, (makeRoom_buckets valid).2.2.2]

theorem ids_openTag {table : TagTable hash} (valid : table.Valid) (tag : Tag) (id : VectorId)
    (opened : (table.openTag tag id).Valid) (other : Tag) :
    (table.openTag tag id).ids other = if other = tag then [id] else table.ids other := by
  have members (entry : TagEntry) := (flat_openTag_perm valid tag id).mem_iff (a := entry)
  by_cases same : other = tag
  · rw [if_pos same, ids_eq_iff opened]
    exact Or.inl ⟨_, (members _).mpr List.mem_cons_self, same.symm, rfl⟩
  · rw [if_neg same, ids_eq_iff opened]
    rcases (ids_eq_iff valid other _).mp rfl with ⟨entry, member, tagged, list⟩ | ⟨absent, empty⟩
    · exact Or.inl ⟨entry, (members _).mpr (List.mem_cons_of_mem _ member), tagged, list⟩
    · refine Or.inr ⟨fun entry member => ?_, empty⟩
      rcases List.mem_cons.mp ((members _).mp member) with rfl | old
      · exact fun tagged => same tagged.symm
      · exact absent entry old

end TagTable

end VectorSearch

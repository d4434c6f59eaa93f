import Mathlib.Data.List.Perm.Basic
import VectorSearch.Tags.TagIndex
/-!
The chains of the table of tags. The entries of all chains form one list; every change within a
chain is a change of that list up to the order of its entries.
-/

namespace VectorSearch

theorem TagEntry.isFor_iff (entry : TagEntry) (code : UInt64) (tag : Tag) :
    entry.isFor code tag = true ↔ entry.code = code ∧ entry.tag = tag := by
  simp [TagEntry.isFor]

namespace TagTable

variable {hash : Tag → UInt64}

def Placed (hash : Tag → UInt64) (buckets : Array (List TagEntry)) : Prop :=
  ∀ position chain, buckets[position]? = some chain → ∀ entry ∈ chain,
    entry.code = hash entry.tag ∧ bucketOf buckets.size entry.code = position

def flat (buckets : Array (List TagEntry)) : List TagEntry := buckets.toList.flatten

theorem mem_flat (buckets : Array (List TagEntry)) (entry : TagEntry) :
    entry ∈ flat buckets ↔
      ∃ (position : Nat) (chain : List TagEntry),
        buckets[position]? = some chain ∧ entry ∈ chain := by
  simp only [flat, List.mem_flatten, Array.mem_toList_iff, Array.mem_iff_getElem?]
  constructor
  · rintro ⟨chain, ⟨position, found⟩, member⟩
    exact ⟨position, chain, found, member⟩
  · rintro ⟨position, chain, found, member⟩
    exact ⟨chain, ⟨position, found⟩, member⟩

theorem Placed.code_of_mem {buckets : Array (List TagEntry)} (placed : Placed hash buckets)
    {entry : TagEntry} (member : entry ∈ flat buckets) : entry.code = hash entry.tag := by
  obtain ⟨position, chain, found, inside⟩ := (mem_flat buckets entry).mp member
  exact (placed position chain found entry inside).1

theorem Placed.isFor_iff_tag {buckets : Array (List TagEntry)} (placed : Placed hash buckets)
    {entry : TagEntry} (member : entry ∈ flat buckets) (tag : Tag) :
    entry.isFor (hash tag) tag = true ↔ entry.tag = tag := by
  rw [TagEntry.isFor_iff, placed.code_of_mem member]
  exact ⟨And.right, fun same => ⟨by rw [same], same⟩⟩

theorem placed_replicate (hash : Tag → UInt64) (count : Nat) :
    Placed hash (Array.replicate count []) := by
  intro position chain found entry inside
  simp only [Array.getElem?_replicate] at found
  split at found
  · simp only [Option.some.injEq] at found
    subst chain
    simp at inside
  · simp at found

theorem flat_replicate (count : Nat) : flat (Array.replicate count []) = [] := by
  simp [flat]

theorem Placed.modify {buckets : Array (List TagEntry)} (placed : Placed hash buckets)
    (position : Nat) (change : List TagEntry → List TagEntry)
    (kept : ∀ chain, buckets[position]? = some chain → ∀ entry ∈ change chain,
      entry.code = hash entry.tag ∧ bucketOf buckets.size entry.code = position) :
    Placed hash (buckets.modify position change) := by
  intro other chain found entry inside
  rw [Array.size_modify]
  rw [Array.getElem?_modify] at found
  by_cases same : position = other
  · subst other
    simp only [if_true, Option.map_eq_some_iff] at found
    obtain ⟨before, foundBefore, rfl⟩ := found
    exact kept before foundBefore entry inside
  · simp only [same, if_false] at found
    exact placed other chain found entry inside

/-- A change of one chain changes the whole list in the same way, if it only reorders what the
change of all chains gives and the other chains stay as they are under it. -/
theorem flatten_modify_perm (change target : List TagEntry → List TagEntry) :
    ∀ (chains : List (List TagEntry)) (position : Nat),
      (∀ chain, chains[position]? = some chain → (change chain).Perm (target chain)) →
      (∀ other chain, other ≠ position → chains[other]? = some chain → target chain = chain) →
      (chains.modify position change).flatten.Perm (chains.map target).flatten := by
  intro chains
  induction chains with
  | nil => intro position _ _; simp
  | cons first rest ih =>
      intro position inside outside
      cases position with
      | zero =>
          have same : rest.map target = rest := by
            conv_rhs => rw [← List.map_id rest]
            apply List.map_congr_left
            intro chain member
            obtain ⟨index, bound, rfl⟩ := List.getElem_of_mem member
            exact outside (index + 1) rest[index] (by omega) (by simp [bound])
          simpa [same] using (inside first (by simp)).append_right rest.flatten
      | succ position =>
          have firstSame : target first = first := outside 0 first (by omega) (by simp)
          have tail := ih position (fun chain found => inside chain (by simpa using found))
            (fun other chain different found =>
              outside (other + 1) chain (by omega) (by simpa using found))
          simpa [firstSame] using tail.append_left first

theorem flatten_push_perm (entry : TagEntry) :
    ∀ (chains : List (List TagEntry)) (position : Nat), position < chains.length →
      (chains.modify position (· ++ [entry])).flatten.Perm (entry :: chains.flatten) := by
  intro chains
  induction chains with
  | nil => intro position bound; simp at bound
  | cons first rest ih =>
      intro position bound
      cases position with
      | zero => simp
      | succ position =>
          have tail := ih position (by simpa using bound)
          have moved : (first ++ entry :: rest.flatten).Perm (entry :: (first ++ rest.flatten)) :=
            List.perm_middle
          simpa using (tail.append_left first).trans moved

theorem bucketOf_lt {count : Nat} (positive : 0 < count) (code : UInt64) :
    bucketOf count code < count := Nat.mod_lt _ positive

@[simp] theorem size_pushEntry (buckets : Array (List TagEntry)) (entry : TagEntry) :
    (pushEntry buckets entry).size = buckets.size := by
  simp [pushEntry]

theorem flat_pushEntry_perm {buckets : Array (List TagEntry)} (positive : 0 < buckets.size)
    (entry : TagEntry) : (flat (pushEntry buckets entry)).Perm (entry :: flat buckets) := by
  simp only [flat, pushEntry, Array.toList_modify]
  exact flatten_push_perm entry _ _ (bucketOf_lt positive entry.code)

theorem Placed.pushEntry {buckets : Array (List TagEntry)} (placed : Placed hash buckets)
    {entry : TagEntry} (hashed : entry.code = hash entry.tag) :
    Placed hash (pushEntry buckets entry) := by
  apply placed.modify
  intro chain found other member
  rcases List.mem_append.mp member with old | new
  · exact placed _ chain found other old
  · rw [List.mem_singleton.mp new]
    exact ⟨hashed, rfl⟩

theorem foldl_pushEntry (entries : List TagEntry) :
    ∀ buckets, 0 < buckets.size → Placed hash buckets →
      (∀ entry ∈ entries, entry.code = hash entry.tag) →
      (entries.foldl TagTable.pushEntry buckets).size = buckets.size ∧
      Placed hash (entries.foldl TagTable.pushEntry buckets) ∧
      (flat (entries.foldl TagTable.pushEntry buckets)).Perm (entries ++ flat buckets) := by
  induction entries with
  | nil => intro buckets _ placed _; exact ⟨rfl, placed, List.Perm.refl _⟩
  | cons first rest ih =>
      intro buckets positive placed hashed
      obtain ⟨size, restPlaced, perm⟩ := ih (TagTable.pushEntry buckets first)
        (by simpa using positive) (placed.pushEntry (hashed first (by simp)))
        (fun entry member => hashed entry (by simp [member]))
      refine ⟨by simpa using size, restPlaced, ?_⟩
      have moved : (rest ++ first :: flat buckets).Perm (first :: (rest ++ flat buckets)) :=
        List.perm_middle
      exact perm.trans (((flat_pushEntry_perm positive first).append_left rest).trans moved)

theorem double_buckets (table : TagTable hash) (positive : 0 < table.buckets.size)
    (placed : Placed hash table.buckets) :
    table.double.buckets.size = 2 * table.buckets.size ∧ Placed hash table.double.buckets ∧
      (flat table.double.buckets).Perm (flat table.buckets) := by
  obtain ⟨size, doubled, perm⟩ := @foldl_pushEntry hash (flat table.buckets)
    (Array.replicate (2 * table.buckets.size) []) (by simp [positive])
    (placed_replicate hash _) (fun entry member => placed.code_of_mem member)
  refine ⟨by simpa [double, flat] using size, doubled, ?_⟩
  simpa [double, flat] using perm

/-! Changes of the entry of one tag. -/

theorem modifyEntry_of_absent (code : UInt64) (tag : Tag)
    (change : List VectorId → List VectorId) (chain : List TagEntry)
    (absent : ∀ entry ∈ chain, entry.isFor code tag = false) :
    modifyEntry code tag change chain = chain := by
  unfold modifyEntry
  conv_rhs => rw [← List.map_id chain]
  apply List.map_congr_left
  intro entry member
  simp [absent entry member]

theorem map_tag_modifyEntry (code : UInt64) (tag : Tag)
    (change : List VectorId → List VectorId) (chain : List TagEntry) :
    (modifyEntry code tag change chain).map (·.tag) = chain.map (·.tag) := by
  simp only [modifyEntry, List.map_map]
  apply List.map_congr_left
  intro entry _
  simp only [Function.comp_apply]
  split <;> rfl

theorem eraseP_eq_filter (test : TagEntry → Bool) (chain : List TagEntry)
    (once : chain.Pairwise fun first second => test first = true → test second = false) :
    chain.eraseP test = chain.filter (!test ·) := by
  induction chain with
  | nil => rfl
  | cons first rest ih =>
      obtain ⟨firstOnly, restOnce⟩ := List.pairwise_cons.mp once
      by_cases hit : test first = true
      · have kept : rest.filter (!test ·) = rest :=
          List.filter_eq_self.mpr fun entry member => by simp [firstOnly entry member hit]
        simp [hit, kept]
      · simp [hit, ih restOnce]

theorem dropLast_set_perm (chain : List TagEntry) (position : Nat) (last : TagEntry)
    (bound : position < chain.length) (found : chain.getLast? = some last) :
    (chain.set position last).dropLast.Perm (chain.eraseIdx position) := by
  obtain ⟨front, rfl⟩ := List.getLast?_eq_some_iff.mp found
  by_cases inner : position < front.length
  · rw [List.set_append_left _ _ inner, List.dropLast_concat,
      List.eraseIdx_append_of_lt_length inner]
    exact (List.set_perm_cons_eraseIdx inner last).trans (List.perm_append_singleton _ _).symm
  · have atEnd : position = front.length := by simp at bound; omega
    subst position
    simp [List.eraseIdx_append_of_length_le]

theorem dropEntry_perm (code : UInt64) (tag : Tag) (chain : List TagEntry)
    (distinct : (chain.map (·.tag)).Nodup) :
    (dropEntry code tag chain).Perm (chain.filter (!·.isFor code tag)) := by
  have once : chain.Pairwise fun first second =>
      first.isFor code tag = true → second.isFor code tag = false := by
    refine (List.pairwise_map.mp distinct).imp ?_
    intro first second different firstFor
    rw [TagEntry.isFor_iff] at firstFor
    rw [Bool.eq_false_iff, ne_eq, TagEntry.isFor_iff]
    exact fun secondFor => different (firstFor.2.trans secondFor.2.symm)
  rw [← eraseP_eq_filter _ chain once, List.eraseP_eq_eraseIdx]
  unfold dropEntry
  cases foundAt : chain.findIdx? (·.isFor code tag) with
  | none => exact List.Perm.refl _
  | some position =>
      have bound : position < chain.length := (List.findIdx?_eq_some_iff_getElem.mp foundAt).1
      cases lastEq : chain.getLast? with
      | none => simp [List.getLast?_eq_none_iff.mp lastEq] at bound
      | some last => exact dropLast_set_perm chain position last bound lastEq

end TagTable

end VectorSearch

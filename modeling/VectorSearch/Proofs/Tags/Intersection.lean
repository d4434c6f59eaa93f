import VectorSearch.Proofs.Ordered
import VectorSearch.Proofs.Tags.TagMap
import VectorSearch.Tags.TagIndex
/-!
Vectors that carry several tags. They are found in the list of the tag that the fewest vectors
carry, which is the first one in order of length; the order of the other tags and their
repetitions do not matter.
-/

namespace VectorSearch.TagTable

variable {hash : Tag → UInt64} {table : TagTable hash}

/-- The earliest of some tags that no more vectors carry than any other one. -/
def IsFewest (table : TagTable hash) (tags : List Tag) (tag : Tag) : Prop :=
  ∃ front back, tags = front ++ tag :: back ∧
    (∀ other ∈ front, table.count tag < table.count other) ∧
    ∀ other ∈ back, table.count tag ≤ table.count other

theorem exists_isFewest (table : TagTable hash) {tags : List Tag} (some : tags ≠ []) :
    ∃ tag, table.IsFewest tags tag := by
  induction tags with
  | nil => exact absurd rfl some
  | cons first rest ih =>
      by_cases alone : rest = []
      · subst alone
        exact ⟨first, [], [], rfl, by simp, by simp⟩
      · obtain ⟨tag, front, back, rfl, ahead, behind⟩ := ih alone
        by_cases fewer : table.count tag < table.count first
        · refine ⟨tag, first :: front, back, rfl, ?_, behind⟩
          simpa [fewer] using ahead
        · refine ⟨first, [], _, rfl, by simp, ?_⟩
          intro other member
          simp only [List.mem_append, List.mem_cons] at member
          rcases member with early | rfl | late
          · have := ahead other early
            omega
          · omega
          · have := behind other late
            omega

theorem intersect_eq {tags : List Tag} {tag : Tag} (fewest : table.IsFewest tags tag) :
    table.intersect tags =
      (table.ids tag).filter fun id => tags.all fun other => table.contains other id := by
  obtain ⟨front, back, rfl, ahead, behind⟩ := fewest
  have ordered (first second : List VectorId) :
      decide (first.length ≤ second.length) = true ↔ first.length ≤ second.length :=
    decide_eq_true_iff
  have shorter : ∀ list ∈ front.map table.ids, (table.ids tag).length < list.length := by
    simpa [count] using ahead
  have noLonger : ∀ list ∈ back.map table.ids, (table.ids tag).length ≤ list.length := by
    simpa [count] using behind
  obtain ⟨rest, sorted, perm⟩ := Ordered.mergeSort_eq_cons ordered shorter noLonger
  rw [intersect, List.map_append, List.map_cons, sorted]
  apply List.filter_congr
  intro id member
  rw [perm.all_eq]
  simp [contains, member, Function.comp_def]

theorem mem_intersect (table : TagTable hash) (tags : List Tag) (id : VectorId) :
    id ∈ table.intersect tags ↔ tags ≠ [] ∧ ∀ tag ∈ tags, table.contains tag id = true := by
  by_cases some : tags = []
  · simp [some, intersect]
  · obtain ⟨tag, fewest⟩ := table.exists_isFewest some
    have listed : tag ∈ tags := by
      obtain ⟨front, back, rfl, _, _⟩ := fewest
      simp
    rw [intersect_eq fewest, List.mem_filter, List.all_eq_true]
    constructor
    · exact fun found => ⟨some, found.2⟩
    · intro found
      exact ⟨by simpa [contains] using found.2 tag listed, found.2⟩

theorem nodup_intersect (valid : table.Valid) (tags : List Tag) : (table.intersect tags).Nodup := by
  by_cases some : tags = []
  · simp [some, intersect]
  · obtain ⟨tag, fewest⟩ := table.exists_isFewest some
    rw [intersect_eq fewest]
    exact (nodup_ids valid tag).filter _

theorem length_intersect_le (valid : table.Valid) {tags : List Tag} {tag : Tag}
    (listed : tag ∈ tags) : (table.intersect tags).length ≤ table.count tag := by
  have carried : table.intersect tags ⊆ table.ids tag := by
    intro id found
    simpa [contains] using ((mem_intersect table tags id).mp found).2 tag listed
  exact (List.subperm_of_subset (nodup_intersect valid tags) carried).length_le

/-- After any calls on a table an intersection has the vectors that carry all of some tags, each
one once, in the order of the earliest tag that the fewest of them carry. Other tags have the same
intersection if they are the same but for order and repetition; more tags have a smaller one, unless
there were no tags at first. -/
theorem intersect_run (hash : Tag → UInt64) (requested : Nat) (calls : List TagCall)
    (tags : List Tag) :
    let table := run hash requested calls
    (table.intersect tags).Nodup ∧
    (∀ id, id ∈ table.intersect tags ↔
      tags ≠ [] ∧ ∀ tag ∈ tags, table.contains tag id = true) ∧
    (tags ≠ [] → ∃ tag, table.IsFewest tags tag) ∧
    (∀ tag, table.IsFewest tags tag → (table.intersect tags).Sublist (table.ids tag)) ∧
    (∀ others, (∀ tag, tag ∈ others ↔ tag ∈ tags) →
      ∀ id, id ∈ table.intersect others ↔ id ∈ table.intersect tags) ∧
    (∀ tag ∈ tags, (table.intersect tags).length ≤ table.count tag) ∧
    (tags ≠ [] → ∀ others, tags ⊆ others → table.intersect others ⊆ table.intersect tags) := by
  intro table
  have valid : table.Valid := valid_run hash requested calls
  refine ⟨nodup_intersect valid tags, mem_intersect table tags, table.exists_isFewest, ?_, ?_,
    fun tag => length_intersect_le valid, ?_⟩
  · intro tag fewest
    rw [intersect_eq fewest]
    exact List.filter_sublist
  · intro others same id
    have empty : others = [] ↔ tags = [] := by
      simp only [List.eq_nil_iff_forall_not_mem, same]
    simp only [mem_intersect, same, ne_eq, empty]
  · intro some others more id found
    rw [mem_intersect] at found ⊢
    exact ⟨some, fun tag listed => found.2 tag (more listed)⟩

theorem intersect_run_two :
    let red : Tag := ⟨"color", "red"⟩
    let large : Tag := ⟨"size", "xl"⟩
    let table := run Tag.hashCode 1 [.add red 3, .add red 1, .add red 2, .add large 2, .add large 3]
    [red, large] ≠ [] ∧ table.IsFewest [red, large] large ∧
      (table.intersect [red, large]).Sublist (table.ids large) ∧
      (∀ tag, tag ∈ [large, red, large] ↔ tag ∈ [red, large]) ∧
      (3 ∈ table.intersect [large, red, large] ↔ 3 ∈ table.intersect [red, large]) ∧
      large ∈ [red, large] ∧ (table.intersect [red, large]).length ≤ table.count large ∧
      [red, large] ⊆ [large, red, large] ∧
      table.intersect [large, red, large] ⊆ table.intersect [red, large] := by
  intro red large table
  obtain ⟨_, _, _, sublist, alike, few, more⟩ := intersect_run Tag.hashCode 1
    [.add red 3, .add red 1, .add red 2, .add large 2, .add large 3] [red, large]
  have some : [red, large] ≠ [] := by simp
  have fewest : table.IsFewest [red, large] large :=
    ⟨[red], [], rfl, by decide +kernel, by simp⟩
  have same (tag : Tag) : tag ∈ [large, red, large] ↔ tag ∈ [red, large] := by
    grind
  have listed : large ∈ [red, large] := by simp
  have subset : [red, large] ⊆ [large, red, large] := by simp
  exact ⟨some, fewest, sublist large fewest, same, alike _ same 3, listed, few large listed, subset,
    more some _ subset⟩

/-- A tag adds vectors if there were no tags before it. -/
theorem not_forall_intersect_cons_subset :
    ¬ ∀ (requested : Nat) (calls : List TagCall) (tags : List Tag) (tag : Tag),
      (run Tag.hashCode requested calls).intersect (tag :: tags) ⊆
        (run Tag.hashCode requested calls).intersect tags := by
  intro all
  let red : Tag := ⟨"color", "red"⟩
  have found : 1 ∈ (run Tag.hashCode 1 [.add red 1]).intersect [red] := by decide +kernel
  have absent : 1 ∉ (run Tag.hashCode 1 [.add red 1]).intersect [] := by decide +kernel
  exact absent (all 1 [.add red 1] [] red found)

end VectorSearch.TagTable

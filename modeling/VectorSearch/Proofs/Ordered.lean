import Mathlib.Data.List.Perm.Basic
import Mathlib.Order.Lattice
/-!
Prefixes of ordered lists. When a list is ordered by a relation of which no two items stand in both
directions, the items in front of one are just those that come before it.
-/

namespace VectorSearch.Ordered

variable {α : Type} {before : α → α → Bool}

theorem countP_before {front back : List α} {item : α}
    (ordered : (front ++ item :: back).Pairwise fun first second => before first second = true)
    (asymmetric : ∀ first ∈ front ++ item :: back, ∀ second ∈ front ++ item :: back,
      before first second = true → ¬ before second first = true) :
    (front ++ item :: back).countP (fun other => before other item) = front.length := by
  obtain ⟨_, tail, cross⟩ := List.pairwise_append.mp ordered
  have ahead : front.countP (fun other => before other item) = front.length := by
    rw [List.countP_eq_length]
    intro other found
    exact cross other found item (by simp)
  have behind : (item :: back).countP (fun other => before other item) = 0 := by
    rw [List.countP_eq_zero]
    intro other found reversed
    rcases List.mem_cons.mp found with rfl | later
    · exact asymmetric other (by simp) other (by simp) reversed reversed
    · exact asymmetric item (by simp) other (by simp [later])
        ((List.pairwise_cons.mp tail).1 other later) reversed
  rw [List.countP_append, ahead, behind, Nat.add_zero]

theorem mem_take_append_cons {front back : List α} {item : α} (absent : item ∉ front)
    (count : Nat) : item ∈ (front ++ item :: back).take count ↔ front.length < count := by
  rw [List.take_append]
  constructor
  · intro taken
    rcases List.mem_append.mp taken with early | late
    · exact absurd (List.mem_of_mem_take early) absent
    · by_contra short
      rw [Nat.sub_eq_zero_of_le (Nat.le_of_not_lt short), List.take_zero] at late
      exact absurd late List.not_mem_nil
  · intro room
    obtain ⟨extra, more⟩ := Nat.exists_eq_add_of_lt room
    rw [more, Nat.add_assoc, Nat.add_sub_cancel_left, List.take_succ_cons]
    exact List.mem_append_right _ List.mem_cons_self

theorem mem_take_iff {items ordered : List α} (perm : ordered.Perm items)
    (sorted : ordered.Pairwise fun first second => before first second = true)
    (asymmetric : ∀ first ∈ items, ∀ second ∈ items,
      before first second = true → ¬ before second first = true)
    {item : α} (member : item ∈ items) (count : Nat) :
    item ∈ ordered.take count ↔ items.countP (fun other => before other item) < count := by
  have kept : ∀ first ∈ ordered, ∀ second ∈ ordered,
      before first second = true → ¬ before second first = true :=
    fun first one second two => asymmetric first (perm.mem_iff.mp one) second (perm.mem_iff.mp two)
  rw [← perm.countP_eq]
  obtain ⟨front, back, rfl⟩ := List.append_of_mem (perm.mem_iff.mpr member)
  have absent : item ∉ front := fun early => by
    have itself := (List.pairwise_append.mp sorted).2.2 item early item (by simp)
    exact kept item (by simp) item (by simp) itself itself
  rw [mem_take_append_cons absent, countP_before sorted kept]

/-! Sorting by a key. -/

variable {κ : Type} [LinearOrder κ] {key : α → κ} {le : α → α → Bool}

theorem mergeSort_ascending (ordered : ∀ first second, le first second = true ↔
    key first ≤ key second) (items : List α) :
    (items.mergeSort le).Pairwise fun first second => key first ≤ key second := by
  refine (List.pairwise_mergeSort ?_ ?_ items).imp fun before => (ordered _ _).mp before
  · intro first second third
    rw [ordered, ordered, ordered]
    exact le_trans
  · intro first second
    rw [Bool.or_eq_true, ordered, ordered]
    exact le_total _ _

theorem mergeSort_eq_cons (ordered : ∀ first second, le first second = true ↔
    key first ≤ key second) {item : α} {front back : List α}
    (ahead : ∀ other ∈ front, key item < key other)
    (behind : ∀ other ∈ back, key item ≤ key other) :
    ∃ rest, (front ++ item :: back).mergeSort le = item :: rest ∧ rest.Perm (front ++ back) := by
  have trans (first second third : α) :
      le first second = true → le second third = true → le first third = true := by
    simpa only [ordered] using le_trans
  have total (first second : α) : (le first second || le second first) = true := by
    simpa only [Bool.or_eq_true, ordered] using le_total _ _
  suffices first : ∃ rest, (front ++ item :: back).mergeSort le = item :: rest by
    obtain ⟨rest, sorted⟩ := first
    have perm := List.mergeSort_perm (front ++ item :: back) le
    rw [sorted] at perm
    exact ⟨rest, sorted, (perm.trans List.perm_middle).cons_inv⟩
  induction front with
  | nil =>
      obtain ⟨early, late, whole, part, larger⟩ := List.mergeSort_cons trans total item back
      have none : early = [] := by
        rw [List.eq_nil_iff_forall_not_mem]
        intro other member
        have inside : other ∈ back := by
          rw [← (List.mergeSort_perm back le).mem_iff, part]
          exact List.mem_append_left _ member
        simpa [(ordered item other).mpr (behind other inside)] using larger other member
      exact ⟨late, by simpa [none] using whole⟩
  | cons first front ih =>
      obtain ⟨rest, sorted⟩ := ih fun other member => ahead other (by simp [member])
      obtain ⟨early, late, whole, part, _⟩ :=
        List.mergeSort_cons trans total first (front ++ item :: back)
      cases early with
      | nil =>
          -- The new item would come before the smallest one.
          have ascending := List.pairwise_mergeSort trans total (first :: (front ++ item :: back))
          rw [whole, ← List.nil_append late, ← part, sorted] at ascending
          have before := (List.pairwise_cons.mp ascending).1 item (by simp)
          exact absurd ((ordered first item).mp before) (not_le_of_gt (ahead first (by simp)))
      | cons other early =>
          rw [part, List.cons_append] at sorted
          rw [List.cons_append, whole, (List.cons.inj sorted).1]
          exact ⟨_, rfl⟩

/-- An item is among the first `count` in the order of a key exactly when fewer than `count` of
the items have a smaller key. -/
theorem mem_take_mergeSort_iff (ordered : ∀ first second, le first second = true ↔
    key first ≤ key second) {items : List α} (distinct : (items.map key).Nodup) {item : α}
    (member : item ∈ items) (count : Nat) :
    item ∈ (items.mergeSort le).take count ↔
      items.countP (fun other => decide (key other < key item)) < count := by
  have perm := List.mergeSort_perm items le
  have different := List.pairwise_map.mp (((perm.map key).nodup_iff).mpr distinct)
  have sorted : (items.mergeSort le).Pairwise fun first second =>
      decide (key first < key second) = true :=
    ((mergeSort_ascending ordered items).and different).imp fun both =>
      decide_eq_true (lt_of_le_of_ne both.1 both.2)
  refine mem_take_iff perm sorted ?_ member count
  intro first _ second _ less reversed
  exact lt_asymm (of_decide_eq_true less) (of_decide_eq_true reversed)

theorem mem_map_take_mergeSort_iff (ordered : ∀ first second, le first second = true ↔
    key first ≤ key second) {ι : Type} {entry : ι → α} {label : α → ι}
    (labelled : ∀ name, label (entry name) = name)
    (separate : ∀ first second, key (entry first) = key (entry second) → first = second)
    {names : List ι} (distinct : names.Nodup) (count : Nat) (name : ι) :
    name ∈ (((names.map entry).mergeSort le).take count).map label ↔
      name ∈ names ∧
        names.countP (fun other => decide (key (entry other) < key (entry name))) < count := by
  have keys : ((names.map entry).map key).Nodup := by
    rw [List.map_map]
    exact List.pairwise_map.mpr (distinct.imp fun different same => different (separate _ _ same))
  have taken : name ∈ (((names.map entry).mergeSort le).take count).map label ↔
      name ∈ names ∧ entry name ∈ ((names.map entry).mergeSort le).take count := by
    rw [List.mem_map]
    constructor
    · rintro ⟨item, found, rfl⟩
      have known := List.mem_mergeSort.mp (List.mem_of_mem_take found)
      obtain ⟨other, member, rfl⟩ := List.mem_map.mp known
      rw [labelled]
      exact ⟨member, found⟩
    · exact fun found => ⟨_, found.2, labelled name⟩
  rw [taken]
  refine and_congr_right fun member => ?_
  rw [mem_take_mergeSort_iff ordered keys (List.mem_map_of_mem member), List.countP_map]
  rfl

end VectorSearch.Ordered

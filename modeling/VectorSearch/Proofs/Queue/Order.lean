import Mathlib.Order.Lattice
import VectorSearch.Proofs.Queue
/-!
The first item of a queue. Where being above means having the smaller key, the array stays ordered
along the branches of its tree, and the item that a queue gives first has the least key.
-/

namespace VectorSearch.PriorityQueue

variable {α κ : Type} [LinearOrder κ] {key : α → κ} {items : Array α}

def Under (key : α → κ) (items : Array α) (upper lower : Nat) : Prop :=
  ∀ one ∈ items[upper]?, ∀ two ∈ items[lower]?, key one ≤ key two

theorem under_of_le {upper lower : Nat} (upperInside : upper < items.size)
    (lowerInside : lower < items.size) (le : key items[upper] ≤ key items[lower]) :
    Under key items upper lower := by
  intro one oneAt two twoAt
  rw [Array.getElem?_eq_getElem upperInside, Option.mem_some_iff] at oneAt
  rw [Array.getElem?_eq_getElem lowerInside, Option.mem_some_iff] at twoAt
  rwa [← oneAt, ← twoAt]

theorem under_of_outside {lower : Nat} (outside : items.size ≤ lower) (upper : Nat) :
    Under key items upper lower := by
  intro _ _ two twoAt
  rw [Array.getElem?_eq_none outside] at twoAt
  cases twoAt

theorem Under.trans {upper middle lower : Nat} (one : Under key items upper middle)
    (two : Under key items middle lower) (inside : middle < items.size) :
    Under key items upper lower := by
  intro first firstAt last lastAt
  have between : items[middle] ∈ items[middle]? := by simp
  exact (one first firstAt _ between).trans (two _ between last lastAt)

theorem getElem?_swap_eq {first second : Nat} (firstInside : first < items.size)
    (secondInside : second < items.size) (position : Nat) :
    (items.swap first second)[position]? =
      items[if position = first then second
        else if position = second then first else position]? := by
  rw [Array.getElem?_swap]
  split
  · rename_i atSecond
    subst atSecond
    split <;> simp_all
  · split <;> simp_all [eq_comm]

theorem under_swap {first second upper lower : Nat} (firstInside : first < items.size)
    (secondInside : second < items.size) :
    Under key (items.swap first second) upper lower ↔
      Under key items (if upper = first then second else if upper = second then first else upper)
        (if lower = first then second else if lower = second then first else lower) := by
  simp only [Under, getElem?_swap_eq]

def Heaped (key : α → κ) (items : Array α) : Prop :=
  ∀ child, 0 < child → Under key items ((child - 1) / 2) child

structure Rising (key : α → κ) (items : Array α) (position : Nat) : Prop where
  elsewhere : ∀ child, 0 < child → child ≠ position → Under key items ((child - 1) / 2) child
  across : ∀ child, 0 < child → (child - 1) / 2 = position → 0 < position →
    Under key items ((position - 1) / 2) child

structure Sinking (key : α → κ) (items : Array α) (position : Nat) : Prop where
  elsewhere : ∀ child, 0 < child → child ≠ position → (child - 1) / 2 ≠ position →
    Under key items ((child - 1) / 2) child
  across : ∀ child, 0 < child → (child - 1) / 2 = position → 0 < position →
    Under key items ((position - 1) / 2) child

/-- Being above means having the smaller key, among the items at hand. -/
def Ranks (above : α → α → Bool) (key : α → κ) (items : Array α) : Prop :=
  ∀ one ∈ items, ∀ two ∈ items, above one two = true ↔ key one < key two

theorem Ranks.subset {above : α → α → Bool} {other : Array α} (ranks : Ranks above key items)
    (inside : ∀ item ∈ other, item ∈ items) : Ranks above key other :=
  fun one oneIn two twoIn => ranks one (inside one oneIn) two (inside two twoIn)

theorem Ranks.perm {above : α → α → Bool} {other : Array α} (ranks : Ranks above key items)
    (perm : other.Perm items) : Ranks above key other :=
  ranks.subset fun _ => perm.mem_iff.mp

/-! Rising. -/

theorem Rising.heaped_of_root (rising : Rising key items 0) : Heaped key items :=
  fun child positive => rising.elsewhere child positive (by omega)

theorem Rising.swap {position : Nat} (rising : Rising key items position) (positive : 0 < position)
    (inside : position < items.size) (parentInside : (position - 1) / 2 < items.size)
    (smaller : Under key items position ((position - 1) / 2)) :
    Rising key (items.swap position ((position - 1) / 2)) ((position - 1) / 2) where
  elsewhere child childPositive other := by
    rw [under_swap]
    by_cases itself : child = position
    · subst itself
      rw [if_neg (by omega), if_pos rfl, if_pos rfl]
      exact smaller
    rw [if_neg itself, if_neg other]
    have edge := rising.elsewhere child childPositive itself
    by_cases below : (child - 1) / 2 = position
    · rw [if_pos below]
      exact rising.across child childPositive below positive
    by_cases sibling : (child - 1) / 2 = (position - 1) / 2
    · rw [if_neg below, if_pos sibling]
      exact smaller.trans (sibling ▸ edge) parentInside
    · rw [if_neg below, if_neg sibling]
      exact edge
  across child childPositive below parentPositive := by
    have edge := rising.elsewhere ((position - 1) / 2) parentPositive (by omega)
    rw [under_swap, if_neg (by omega), if_neg (by omega)]
    by_cases itself : child = position
    · rw [if_pos itself]
      exact edge
    · rw [if_neg itself, if_neg (by omega)]
      exact edge.trans (below ▸ rising.elsewhere child childPositive itself) parentInside

theorem heaped_siftUp (above : α → α → Bool) (items : Array α) (position : Nat)
    (ranks : Ranks above key items) (rising : Rising key items position)
    (inside : position < items.size) : Heaped key (siftUp above items position) := by
  fun_induction siftUp above items position with
  | case1 items position bounds parentInside isAbove ih =>
      refine ih (ranks.perm (Array.swap_perm _ _)) (rising.swap bounds.1 inside parentInside ?_)
        (by simpa using parentInside)
      exact under_of_le bounds.2 parentInside
        ((ranks _ (Array.getElem_mem _) _ (Array.getElem_mem _)).mp isAbove).le
  | case2 items position bounds parentInside notAbove =>
      intro child positive
      by_cases itself : child = position
      · subst itself
        exact under_of_le parentInside bounds.2 (not_lt.mp fun less => notAbove
          ((ranks _ (Array.getElem_mem _) _ (Array.getElem_mem _)).mpr less))
      · exact rising.elsewhere child positive itself
  | case3 items position outside =>
      obtain rfl : position = 0 := by omega
      exact rising.heaped_of_root

/-! Sinking. -/

theorem Sinking.rising {position : Nat} (sinking : Sinking key items position)
    (leaf : items.size ≤ 2 * position + 1) : Rising key items position where
  elsewhere child positive other := by
    by_cases below : (child - 1) / 2 = position
    · exact under_of_outside (by omega) _
    · exact sinking.elsewhere child positive other below
  across := sinking.across

theorem Sinking.swap {position child : Nat} (sinking : Sinking key items position)
    (inside : position < items.size) (childInside : child < items.size)
    (below : 0 < child ∧ (child - 1) / 2 = position)
    (least : ∀ other, 0 < other → (other - 1) / 2 = position → Under key items child other) :
    Sinking key (items.swap position child) child where
  elsewhere other positive different notBelow := by
    rw [under_swap]
    by_cases itself : other = position
    · subst itself
      rw [if_neg (by omega), if_neg notBelow, if_pos rfl]
      exact sinking.across child below.1 below.2 positive
    rw [if_neg itself, if_neg different]
    by_cases sibling : (other - 1) / 2 = position
    · rw [if_pos sibling]
      exact least other positive sibling
    · rw [if_neg sibling, if_neg notBelow]
      exact sinking.elsewhere other positive itself sibling
  across other positive under _ := by
    rw [under_swap, below.2, if_pos rfl, if_neg (by omega), if_neg (by omega)]
    exact under ▸ sinking.elsewhere other positive (by omega) (by omega)

theorem rising_sinkToLeaf (above : α → α → Bool) (items : Array α) (position : Nat)
    (ranks : Ranks above key items) (sinking : Sinking key items position)
    (inside : position < items.size) :
    Rising key (sinkToLeaf above items position).1 (sinkToLeaf above items position).2 ∧
      (sinkToLeaf above items position).2 < (sinkToLeaf above items position).1.size := by
  fun_induction sinkToLeaf above items position with
  | case1 items position both isAbove ih =>
      have smaller := ((ranks _ (Array.getElem_mem _) _ (Array.getElem_mem _)).mp isAbove).le
      refine ih (ranks.perm (Array.swap_perm _ _)) (sinking.swap inside (by omega) (by omega) ?_)
        (by rw [Array.size_swap]; omega)
      intro other positive below
      obtain rfl | rfl : other = 2 * position + 1 ∨ other = 2 * position + 2 := by omega
      · exact under_of_le (by omega) (by omega) le_rfl
      · exact under_of_le (by omega) both smaller
  | case2 items position both notAbove ih =>
      have smaller := not_lt.mp fun less =>
        notAbove ((ranks _ (Array.getElem_mem _) _ (Array.getElem_mem _)).mpr less)
      refine ih (ranks.perm (Array.swap_perm _ _)) (sinking.swap inside both (by omega) ?_)
        (by rw [Array.size_swap]; omega)
      intro other positive below
      obtain rfl | rfl : other = 2 * position + 1 ∨ other = 2 * position + 2 := by omega
      · exact under_of_le both (by omega) smaller
      · exact under_of_le both both le_rfl
  | case3 items position notBoth one =>
      have moved : Sinking key (items.swap position (2 * position + 1)) (2 * position + 1) := by
        refine sinking.swap inside one (by omega) fun other positive below => ?_
        obtain rfl | outside : other = 2 * position + 1 ∨ items.size ≤ other := by omega
        · exact under_of_le one one le_rfl
        · exact under_of_outside outside _
      exact ⟨moved.rising (by rw [Array.size_swap]; omega), by rw [Array.size_swap]; omega⟩
  | case4 items position notBoth notOne => exact ⟨sinking.rising (by omega), inside⟩

/-! Queues. -/

theorem Heaped.first_le (heaped : Heaped key items) (position : Nat) :
    Under key items 0 position := by
  induction position using Nat.strongRecOn with
  | ind position ih =>
      by_cases root : position = 0
      · subst root
        intro one oneAt two twoAt
        rw [Option.mem_unique oneAt twoAt]
      by_cases inside : position < items.size
      · exact (ih ((position - 1) / 2) (by omega)).trans (heaped position (by omega)) (by omega)
      · exact under_of_outside (by omega) 0

theorem Heaped.peek?_le {queue : PriorityQueue α} (heaped : Heaped key queue.items) {first item : α}
    (begins : queue.peek? = some first) (member : item ∈ queue.items.toList) :
    key first ≤ key item := by
  obtain ⟨position, found⟩ := List.mem_iff_getElem?.mp member
  exact heaped.first_le position first begins item (by simpa using found)

theorem heaped_of_few (few : items.size ≤ 1) : Heaped key items :=
  fun _ positive => under_of_outside (by omega) _

theorem Heaped.push {above : α → α → Bool} {queue : PriorityQueue α} {item : α}
    (heaped : Heaped key queue.items) (ranks : Ranks above key (queue.items.push item)) :
    Heaped key (queue.push above item).items := by
  refine heaped_siftUp above _ _ ranks ⟨fun child positive other => ?_, fun child _ below _ => ?_⟩
    (by simp)
  · by_cases inside : child < queue.items.size
    · have edge := heaped child positive
      simp only [Under] at edge ⊢
      rwa [Array.getElem?_push_lt inside, Array.getElem?_push_lt (by omega),
        ← Array.getElem?_eq_getElem, ← Array.getElem?_eq_getElem]
    · exact under_of_outside (by rw [Array.size_push]; omega) _
  · exact under_of_outside (by rw [Array.size_push]; omega) _

theorem Heaped.sinking (heaped : Heaped key items) (last : α) (inside : 0 < items.pop.size) :
    Sinking key (items.pop.set 0 last) 0 := by
  refine ⟨fun child positive _ notBelow => ?_, fun child _ _ impossible => ?_⟩
  · have edge := heaped child positive
    intro one oneAt two twoAt
    simp only [Array.getElem?_set, Array.getElem?_pop] at oneAt twoAt
    rw [if_neg (Ne.symm notBelow)] at oneAt
    rw [if_neg (by omega)] at twoAt
    split at oneAt <;> split at twoAt <;> simp_all [Under]
  · omega

theorem Ranks.set_pop {above : α → α → Bool} (ranks : Ranks above key items) {last : α}
    (lastIn : last ∈ items) (inside : 0 < items.pop.size) :
    Ranks above key (items.pop.set 0 last) := by
  refine ranks.subset fun item member => ?_
  rcases Array.mem_or_eq_of_mem_set member with old | rfl
  · rw [← Array.mem_toList_iff, Array.toList_pop] at old
    exact Array.mem_toList_iff.mp ((List.dropLast_sublist _).subset old)
  · exact lastIn

theorem Heaped.pop? {above : α → α → Bool} {queue rest : PriorityQueue α} {item : α}
    (heaped : Heaped key queue.items) (ranks : Ranks above key queue.items)
    (popped : queue.pop? above = some (item, rest)) :
    Heaped key rest.items ∧ ∀ other ∈ queue.items.toList, key item ≤ key other := by
  unfold PriorityQueue.pop? at popped
  cases lastEq : queue.items.back? with
  | none => simp [lastEq] at popped
  | some last =>
      simp only [lastEq] at popped
      split at popped
      · rename_i inside
        simp only [Option.some.injEq, Prod.mk.injEq] at popped
        obtain ⟨rfl, rfl⟩ := popped
        have begins : queue.peek? = some queue.items.pop[0] := by
          rw [Array.size_pop] at inside
          rw [peek?, Array.getElem_pop]
          exact Array.getElem?_eq_getElem (by omega)
        have ranked := ranks.set_pop (Array.mem_of_back? lastEq) inside
        obtain ⟨rising, leafInside⟩ := rising_sinkToLeaf above _ 0 ranked
          (heaped.sinking last inside) (by simpa using inside)
        exact ⟨heaped_siftUp above _ _ (ranked.perm (sinkToLeaf_perm above _ 0)) rising leafInside,
          fun other member => heaped.peek?_le begins member⟩
      · rename_i single
        simp only [Option.some.injEq, Prod.mk.injEq] at popped
        obtain ⟨rfl, rfl⟩ := popped
        have begins : queue.peek? = some last := by
          rw [Array.size_pop] at single
          rw [Array.back?_eq_getElem?] at lastEq
          rw [peek?, ← lastEq]
          congr 1
          omega
        have vacant : queue.items.pop.size = 0 := by omega
        exact ⟨fun child _ => under_of_outside (by simp only [vacant]; omega) _,
          fun other member => heaped.peek?_le begins member⟩

end VectorSearch.PriorityQueue

import Mathlib.Data.List.Perm.Basic
import VectorSearch.PriorityQueue
/-!
Priority queues keep their items: pushing adds one, popping takes one out, and the moves along the
tree only put items at other places.
-/

namespace VectorSearch.PriorityQueue

variable {α : Type}

theorem siftUp_perm (above : α → α → Bool) (items : Array α) (position : Nat) :
    (siftUp above items position).Perm items := by
  fun_induction siftUp above items position with
  | case1 items position inside parentInside isAbove ih => exact ih.trans (Array.swap_perm _ _)
  | case2 => exact Array.Perm.refl _
  | case3 => exact Array.Perm.refl _

theorem sinkToLeaf_perm (above : α → α → Bool) (items : Array α) (position : Nat) :
    (sinkToLeaf above items position).1.Perm items := by
  fun_induction sinkToLeaf above items position with
  | case1 items position both isAbove ih => exact ih.trans (Array.swap_perm _ _)
  | case2 items position both notAbove ih => exact ih.trans (Array.swap_perm _ _)
  | case3 items position both one => exact Array.swap_perm _ _
  | case4 => exact Array.Perm.refl _

theorem push_perm (above : α → α → Bool) (queue : PriorityQueue α) (item : α) :
    (queue.push above item).items.toList.Perm (item :: queue.items.toList) := by
  have sifted := (siftUp_perm above (queue.items.push item) queue.items.size).toList
  rw [Array.toList_push] at sifted
  exact sifted.trans (List.perm_append_singleton item _)

theorem pop?_perm {above : α → α → Bool} {queue rest : PriorityQueue α} {item : α}
    (popped : queue.pop? above = some (item, rest)) :
    queue.items.toList.Perm (item :: rest.items.toList) := by
  unfold pop? at popped
  cases lastEq : queue.items.back? with
  | none => simp [lastEq] at popped
  | some last =>
      have whole : queue.items.toList = queue.items.pop.toList ++ [last] := by
        obtain ⟨front, same⟩ := Array.back?_eq_some_iff.mp lastEq
        simp [same]
      simp only [lastEq] at popped
      split at popped
      · rename_i occupied
        simp only [Option.some.injEq, Prod.mk.injEq] at popped
        obtain ⟨rfl, rfl⟩ := popped
        generalize queue.items.pop = front at occupied whole ⊢
        have sunk := ((siftUp_perm above (sinkToLeaf above (front.set 0 last) 0).1
          (sinkToLeaf above (front.set 0 last) 0).2).trans
            (sinkToLeaf_perm above (front.set 0 last) 0)).toList
        obtain ⟨head, tail, frontEq⟩ := List.exists_cons_of_length_pos
          (l := front.toList) (by simpa using occupied)
        have headEq : front[0] = head := by simp [← Array.getElem_toList, frontEq]
        rw [Array.toList_set, frontEq, List.set_cons_zero] at sunk
        rw [whole, headEq, frontEq]
        have moved : (head :: tail ++ [last]).Perm (head :: last :: tail) :=
          (List.perm_append_singleton last tail).cons head
        exact moved.trans (sunk.symm.cons head)
      · rename_i single
        simp only [Option.some.injEq, Prod.mk.injEq] at popped
        obtain ⟨rfl, rfl⟩ := popped
        rw [whole]
        exact List.perm_append_singleton _ _

theorem toList_of_pop?_eq_none {above : α → α → Bool} {queue : PriorityQueue α}
    (popped : queue.pop? above = none) : queue.items.toList = [] := by
  unfold pop? at popped
  cases lastEq : queue.items.back? with
  | none => simpa using lastEq
  | some last =>
      simp only [lastEq] at popped
      split at popped <;> exact absurd popped (Option.some_ne_none _)

theorem size_push (above : α → α → Bool) (queue : PriorityQueue α) (item : α) :
    (queue.push above item).size = queue.size + 1 := by
  have length := (push_perm above queue item).length_eq
  simpa [size] using length

theorem size_of_pop? {above : α → α → Bool} {queue rest : PriorityQueue α} {item : α}
    (popped : queue.pop? above = some (item, rest)) : queue.size = rest.size + 1 := by
  have length := (pop?_perm popped).length_eq
  simpa [size] using length

end VectorSearch.PriorityQueue

/-!
Priority queues. The items lie in an array as a binary tree, the children of position `i` at
`2 * i + 1` and `2 * i + 2`, and no item is above its parent. What being above means is given as a
relation; the array order matters only for items that the relation does not tell apart.
-/

namespace VectorSearch

structure PriorityQueue (α : Type) where
  items : Array α

namespace PriorityQueue

variable {α : Type}

def empty : PriorityQueue α := ⟨#[]⟩

def size (queue : PriorityQueue α) : Nat := queue.items.size

def peek? (queue : PriorityQueue α) : Option α := queue.items[0]?

def siftUp (above : α → α → Bool) (items : Array α) (position : Nat) : Array α :=
  if inside : 0 < position ∧ position < items.size then
    have parentInside : (position - 1) / 2 < items.size := by omega
    if above items[position] items[(position - 1) / 2] then
      siftUp above (items.swap position ((position - 1) / 2)) ((position - 1) / 2)
    else items
  else items
termination_by position
decreasing_by omega

/-- Moves an item down to a leaf, always below the child that the other one is not above; of two
children that neither is above, the right one moves up. Also answers where the item ends. -/
def sinkToLeaf (above : α → α → Bool) (items : Array α) (position : Nat) : Array α × Nat :=
  if both : 2 * position + 2 < items.size then
    if above items[2 * position + 1] items[2 * position + 2] then
      sinkToLeaf above (items.swap position (2 * position + 1)) (2 * position + 1)
    else
      sinkToLeaf above (items.swap position (2 * position + 2)) (2 * position + 2)
  else if one : 2 * position + 1 < items.size then
    (items.swap position (2 * position + 1), 2 * position + 1)
  else (items, position)
termination_by items.size - position
decreasing_by all_goals simp only [Array.size_swap]; omega

def push (above : α → α → Bool) (queue : PriorityQueue α) (item : α) : PriorityQueue α :=
  ⟨siftUp above (queue.items.push item) queue.items.size⟩

/-- Takes the first item out. The last item of the array takes its place, sinks to a leaf, and
rises from there to where it belongs. -/
def pop? (above : α → α → Bool) (queue : PriorityQueue α) : Option (α × PriorityQueue α) :=
  match queue.items.back? with
  | none => none
  | some last =>
    let rest := queue.items.pop
    if occupied : 0 < rest.size then
      let (sunk, leaf) := sinkToLeaf above (rest.set 0 last) 0
      some (rest[0], ⟨siftUp above sunk leaf⟩)
    else some (last, ⟨rest⟩)

end PriorityQueue

end VectorSearch

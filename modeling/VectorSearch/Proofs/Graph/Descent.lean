import VectorSearch.Index.Graph.Descent
/-!
Where a greedy descent ends. It never leaves the nodes of the layers that it walks on, provided
that links lead only to nodes of the same layer and that each layer is part of the one below.
-/

namespace VectorSearch.Descent

variable {score : VectorId → Option Float32}

theorem bestOf_inside {allowed : VectorId → Prop} (neighbors : List VectorId) :
    ∀ current : Hit, allowed current.id → (∀ neighbor ∈ neighbors, allowed neighbor) →
      allowed (bestOf score current neighbors).id := by
  induction neighbors with
  | nil => intro current inside _; exact inside
  | cons first rest ih =>
      intro current inside all
      refine ih _ ?_ (fun neighbor member => all neighbor (by simp [member]))
      have firstInside := all first (by simp)
      dsimp only
      split
      · split
        · exact firstInside
        · exact inside
      · exact inside

theorem walkFrom_inside {allowed : VectorId → Prop} {links : VectorId → List VectorId}
    (closed : ∀ id, allowed id → ∀ link ∈ links id, allowed link) (steps : Nat) :
    ∀ current, allowed current → allowed (walkFrom links score steps current) := by
  induction steps with
  | zero => intro current inside; exact inside
  | succ steps ih =>
      intro current inside
      unfold walkFrom
      split
      · exact inside
      · dsimp only
        split
        · exact inside
        · exact ih _ (bestOf_inside _ _ inside (closed current inside))

theorem descend_inside {allowed : Nat → VectorId → Prop} {links : Nat → VectorId → List VectorId}
    (closed : ∀ layer id, allowed (layer + 1) id → ∀ link ∈ links layer id,
      allowed (layer + 1) link)
    (lower : ∀ layer id, allowed (layer + 1) id → allowed layer id) (nodes low count : Nat) :
    ∀ current, allowed (low + count) current →
      allowed low (descend links score nodes low count current) := by
  induction count with
  | zero => intro current inside; exact inside
  | succ count ih =>
      intro current inside
      apply ih
      apply lower
      exact walkFrom_inside (closed (low + count)) nodes current inside

/-! Whatever the links are, it never leaves the nodes that have scores. -/

theorem isSome_bestOf (neighbors : List VectorId) :
    ∀ current : Hit, (score current.id).isSome = true →
      (score (bestOf score current neighbors).id).isSome = true := by
  induction neighbors with
  | nil => intro current scored; exact scored
  | cons first rest ih =>
      intro current scored
      refine ih _ ?_
      dsimp only
      split
      · rename_i value found
        split
        · exact Option.isSome_of_eq_some found
        · exact scored
      · exact scored

theorem isSome_walkFrom (links : VectorId → List VectorId) (steps : Nat) :
    ∀ current, (score current).isSome = true →
      (score (walkFrom links score steps current)).isSome = true := by
  induction steps with
  | zero => intro current scored; exact scored
  | succ steps ih =>
      intro current scored
      unfold walkFrom
      split
      · exact scored
      · dsimp only
        split
        · exact scored
        · exact ih _ (isSome_bestOf _ _ scored)

theorem isSome_descend (links : Nat → VectorId → List VectorId) (nodes low count : Nat) :
    ∀ current, (score current).isSome = true →
      (score (descend links score nodes low count current)).isSome = true := by
  induction count with
  | zero => intro current scored; exact scored
  | succ count ih => intro current scored; exact ih _ (isSome_walkFrom _ _ _ scored)

end VectorSearch.Descent

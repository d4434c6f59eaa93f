import VectorSearch.Ranking
/-!
Greedy descent. On a layer the walk moves from a node to its best neighbour as long as that one is
better; it then goes on from there on the layer below.
-/

namespace VectorSearch.Descent

/-- Whether a walk prefers a node to the one it has: a higher score, or an equal score and a
smaller identifier. -/
def improves (candidate current : Hit) : Bool :=
  decide (current.score < candidate.score) ||
    (candidate.score == current.score && decide (candidate.id < current.id))

def bestOf (score : VectorId → Option Float32) (current : Hit) (neighbors : List VectorId) : Hit :=
  neighbors.foldl
    (fun best neighbor =>
      match score neighbor with
      | some value => if improves ⟨neighbor, value⟩ best then ⟨neighbor, value⟩ else best
      | none => best) current

/-- Walks on one layer until no neighbour is better. Every step reaches a better node, so a walk
has fewer steps than there are nodes. -/
def walkFrom (links : VectorId → List VectorId) (score : VectorId → Option Float32) :
    (steps : Nat) → VectorId → VectorId
  | 0, current => current
  | steps + 1, current =>
    match score current with
    | none => current
    | some value =>
      let best := bestOf score ⟨current, value⟩ (links current)
      if best.id = current then current else walkFrom links score steps best.id

def descend (links : Nat → VectorId → List VectorId) (score : VectorId → Option Float32)
    (nodes low : Nat) : (count : Nat) → VectorId → VectorId
  | 0, current => current
  | count + 1, current =>
    descend links score nodes low count (walkFrom (links (low + count)) score nodes current)

end VectorSearch.Descent

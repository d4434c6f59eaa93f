import VectorSearch.Count
import VectorSearch.Hit
import VectorSearch.Random.Draws
/-!
What the host of the search core supplies: its sort, its order of undefined numbers, its random
draws and its logarithm. The core relies on nothing about them but the laws that stand here.
-/

namespace VectorSearch

class Host where
  sorted : List Hit → List Hit
  givesUp : List Hit → Bool
  complaint : Option String
  sorted_perm : ∀ hits, (sorted hits).Perm hits
  /-- Up to twenty hits are put in order one after another. The sort is stable, so more of them end
  up the same, but only if they are in an order at all. -/
  sorted_eq : ∀ hits, hits.length ≤ 20 ∨ Hit.Consistent hits →
    givesUp hits = false ∧ sorted hits = Hit.insertionSort hits
  /-- Where the order of all floating-point numbers has the distance of two rows if it is undefined:
  before all numbers if this is negative, and otherwise after them. -/
  undefinedPlace : Embedding → Embedding → Int
  Draws : Type
  draws : DrawSource Draws
  drawsFrom : (seed : UInt64) → Draws
  log2 : Float → Float
  log2_range : ∀ count, 2 ≤ count → 1 ≤ log2 (Count.toFloat count) ∧ log2 (Count.toFloat count) ≤ 64

namespace Host

/-- A logarithm of counts above one. The bounds are those of the logarithm itself. -/
def boundedLog2 (value : Float) : Float :=
  let logarithm := value.log2
  if 1 ≤ logarithm ∧ logarithm ≤ 64 then logarithm else 1

/-- A host whose sort never breaks down and which has all undefined distances behind the others. -/
instance standard : Host where
  sorted := Hit.insertionSort
  givesUp _ := false
  complaint := none
  sorted_perm := Hit.insertionSort_perm
  sorted_eq _ _ := ⟨rfl, rfl⟩
  undefinedPlace _ _ := 0
  Draws := ChaCha.Stream
  draws := .seeded
  drawsFrom := .ofSeed
  log2 := boundedLog2
  log2_range count _ := by
    unfold boundedLog2
    dsimp only
    split
    · assumption
    · decide +kernel

end Host

end VectorSearch

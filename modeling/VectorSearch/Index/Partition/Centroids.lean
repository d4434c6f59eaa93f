import VectorSearch.Host
import VectorSearch.Similarity
/-!
Centroids: which one is nearest to a vector, and the order of all of them by distance.
-/

namespace VectorSearch

structure Reach where
  centroid : Nat
  distance : Float32
  deriving DecidableEq

namespace Reach

def nearer (best other : Reach) : Reach :=
  if other.distance < best.distance then other else best

/-- Zero for a defined distance. Undefined ones have places of their own, which are negative before
all numbers and positive after them. -/
def rank (places : Nat → Int) (reach : Reach) : Int :=
  if reach.distance.isNaN then
    if places reach.centroid < 0 then places reach.centroid else places reach.centroid + 1
  else 0

/-- Whether a centroid is probed no later than another: it is nearer, or as near with a number
that is no greater. -/
def probedBefore (places : Nat → Int) (first second : Reach) : Bool :=
  decide (first.rank places < second.rank places) ||
    (first.rank places == second.rank places &&
      (decide (first.distance < second.distance) ||
        (!decide (second.distance < first.distance) &&
          decide (first.centroid ≤ second.centroid))))

end Reach

namespace Centroids

def reaches (centroids : List Embedding) (row : Embedding) : List Reach :=
  centroids.zipIdx.map fun (centroid, number) => ⟨number, squaredDistance row centroid⟩

/-- The number of the nearest centroid, and zero when no distance is finite. -/
def nearest (centroids : List Embedding) (row : Embedding) : Nat :=
  ((reaches centroids row).foldl Reach.nearer ⟨0, 1 / 0⟩).centroid

def undefinedPlace [Host] (centroids : List Embedding) (row : Embedding) (number : Nat) : Int :=
  Host.undefinedPlace row ((centroids[number]?).getD #[])

/-- The numbers of all centroids by their distance to a row, in the order of all floating-point
numbers, and then by number. -/
def probeOrder [Host] (centroids : List Embedding) (row : Embedding) : List Nat :=
  ((reaches centroids row).mergeSort
    (Reach.probedBefore (undefinedPlace centroids row))).map (·.centroid)

end Centroids

end VectorSearch

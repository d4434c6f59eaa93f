import VectorSearch.Embedding
/-!
Hits and their order. A hit precedes another when its score is higher, or when neither score is
higher and its identifier is smaller. Scores that are undefined count as neither higher nor lower
than any score, so that among such hits `precedes` need not be an order.
-/

namespace VectorSearch

structure Hit where
  id : VectorId
  score : Float32
  deriving DecidableEq

namespace Hit

def precedes (first second : Hit) : Bool :=
  decide (second.score < first.score) ||
    (!decide (first.score < second.score) && decide (first.id < second.id))

/-- Among these hits one that precedes another precedes every third one, or the third one precedes
the other: no two precede each other, so they are in a strict weak order. -/
def Consistent (hits : List Hit) : Prop :=
  ∀ first ∈ hits, ∀ second ∈ hits, ∀ third ∈ hits, first.precedes second = true →
    first.precedes third = true ∨ third.precedes second = true

/-- Puts a hit into a list that is held from its last place to its first: the hit moves forward
past every hit that it precedes and stops behind the first one that it does not precede. -/
def place (hit : Hit) : List Hit → List Hit
  | [] => [hit]
  | last :: earlier =>
    if hit.precedes last then last :: place hit earlier else hit :: last :: earlier

def insertionSort (hits : List Hit) : List Hit :=
  (hits.foldl (fun placed hit => place hit placed) []).reverse

theorem place_perm (hit : Hit) (placed : List Hit) : (place hit placed).Perm (hit :: placed) := by
  induction placed with
  | nil => exact List.Perm.refl _
  | cons last earlier ih =>
      unfold place
      split
      · exact (ih.cons last).trans (List.Perm.swap hit last earlier)
      · exact List.Perm.refl _

theorem foldl_place_perm (hits : List Hit) :
    ∀ placed, (hits.foldl (fun placed hit => place hit placed) placed).Perm (hits ++ placed) := by
  induction hits with
  | nil => intro placed; exact List.Perm.refl _
  | cons first rest ih =>
      intro placed
      have moved : (rest ++ first :: placed).Perm (first :: (rest ++ placed)) := List.perm_middle
      exact (ih _).trans (((place_perm first placed).append_left rest).trans moved)

theorem insertionSort_perm (hits : List Hit) : (insertionSort hits).Perm hits := by
  have perm := foldl_place_perm hits []
  rw [List.append_nil] at perm
  exact (List.reverse_perm _).trans perm

end Hit

end VectorSearch

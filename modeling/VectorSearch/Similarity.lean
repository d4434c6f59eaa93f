import VectorSearch.Embedding
import VectorSearch.Metric
/-!
Similarity of two embeddings. Sums run over the coordinates from the first to the last, in single
precision, and start from negative zero, which is what an empty sum is.
-/

namespace VectorSearch

/-- The sum of a list of numbers, added from the first to the last. -/
def sum (values : Array Float32) : Float32 :=
  values.foldl (· + ·) (-0.0)

def dotProduct (first second : Embedding) : Float32 :=
  sum (Array.zipWith (· * ·) first second)

def squaredDistance (first second : Embedding) : Float32 :=
  sum (Array.zipWith (fun x y => (x - y) * (x - y)) first second)

def norm (row : Embedding) : Float32 :=
  (sum (row.map fun x => x * x)).sqrt

/-- The cosine of the angle between two embeddings, and zero where one of them has no length. -/
def cosine (first second : Embedding) : Float32 :=
  if norm first == 0 || norm second == 0 then 0
  else dotProduct first second / (norm first * norm second)

def closeness (first second : Embedding) : Float32 :=
  1 / (1 + (squaredDistance first second).sqrt)

def similarity (metric : Metric) (first second : Embedding) : Float32 :=
  match metric with
  | .cosine => cosine first second
  | .euclidean => closeness first second
  | .dotProduct => dotProduct first second

end VectorSearch

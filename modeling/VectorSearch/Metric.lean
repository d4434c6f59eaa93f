/-!
Similarity metrics. A metric has one written name; a reader also accepts a few other names.
-/

namespace VectorSearch

/-- How two embeddings are compared. Under every metric a higher score means more alike. -/
inductive Metric where
  | cosine
  | euclidean
  | dotProduct
  deriving DecidableEq, Repr, Inhabited

namespace Metric

def name : Metric → String
  | cosine => "cosine"
  | euclidean => "euclidean"
  | dotProduct => "dot_product"

def ofName? : String → Option Metric
  | "cosine" => some cosine
  | "euclidean" => some euclidean
  | "dot_product" => some dotProduct
  | _ => none

/-- The metric that a written name or another common name stands for, in any mix of cases.

Only ASCII letters are folded: no other character has a letter of these names as its lower case. -/
def parse? (text : String) : Option Metric :=
  match text.map Char.toLower with
  | "cosine" => some cosine
  | "euclidean" | "l2" => some euclidean
  | "dot_product" | "dot" | "inner_product" => some dotProduct
  | _ => none

theorem ofName?_name (metric : Metric) : ofName? metric.name = some metric := by
  cases metric <;> rfl

end Metric

end VectorSearch

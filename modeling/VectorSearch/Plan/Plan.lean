import VectorSearch.Plan.Strategy
import VectorSearch.Settings.Basic
/-!
Query plans.
-/

namespace VectorSearch

/-- How one query is to be carried out. A number that does not apply to the strategy is zero. -/
structure Plan where
  strategy : Strategy
  breadth : Nat
  probes : Nat
  candidates : Nat
  oversample : Nat
  usesTags : Bool
  cost : Float
  expectedRecall : Float
  explanation : String

namespace Plan

def knobs (plan : Plan) : Knobs where
  breadth := plan.breadth
  probes := plan.probes
  candidates := plan.candidates

/-- The number of results to ask of the index for `count` results in the end. -/
def fetchCount (plan : Plan) (count : Nat) : Nat :=
  match plan.strategy with
  | .oversampleFilter => max plan.oversample count
  | .exactScan | .indexSearch => count

end Plan

end VectorSearch

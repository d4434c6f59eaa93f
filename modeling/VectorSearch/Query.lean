import VectorSearch.Index
import VectorSearch.Plan.Planner
import VectorSearch.Tags.TagIndex
/-!
Queries with a filter. A filtered query asks the planner with the share of vectors that its tag has,
fetches as many results as the plan says and keeps those that have the tag.
-/

namespace VectorSearch

/-- A query for `count` results, of which each has a tag if one is given. -/
structure Query where
  target : Embedding
  count : Nat
  filter : Option Tag

namespace Query

variable {hash : Tag → UInt64}

def selectivity (query : Query) (tags : TagTable hash) (total : Nat) : Option Float :=
  query.filter.map fun tag => tags.selectivity tag total

def plan [Host] (query : Query) (planner : Planner) (tags : TagTable hash) (total : Nat) : Plan :=
  planner.plan query.count (query.selectivity tags total)

def keeps (query : Query) (tags : TagTable hash) (hit : Hit) : Bool :=
  match query.filter with
  | some tag => tags.contains tag hit.id
  | none => true

def run [Host] (query : Query) (index : Index) (tags : TagTable hash) (plan : Plan) :
    Except Failure (List Hit) := do
  let hits ← index.search query.target (plan.fetchCount query.count) plan.knobs
  return (hits.filter (query.keeps tags)).take query.count

end Query

end VectorSearch

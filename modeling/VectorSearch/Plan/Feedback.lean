import VectorSearch.Plan.Plan
/-!
Running averages of what searches have shown. The first sample sets an average; each later one is
blended in with a fixed weight. The numbers may be of any type with the operations that blending
needs.
-/

namespace VectorSearch

structure Feedback (α : Type) where
  meanLatency : α
  meanRecall : α
  samples : Nat

structure Observation (α : Type) where
  plan : Plan
  latency : Nat
  found : α

namespace Feedback

variable {α : Type} [Add α] [Sub α] [Mul α] [OfNat α 0] [OfNat α 1]

def empty : Feedback α := ⟨0, 0, 0⟩

def blend (weight sample average : α) : α := weight * sample + (1 - weight) * average

def record (weight latency found : α) (feedback : Feedback α) : Feedback α :=
  if feedback.samples = 0 then ⟨latency, found, 1⟩
  else
    { meanLatency := blend weight latency feedback.meanLatency
      meanRecall := blend weight found feedback.meanRecall
      samples := feedback.samples + 1 }

/-- The averages with one more search in them. There is one average for all strategies, so the plan
of the search does not count. -/
def observe (toNumber : Nat → α) (weight : α) (feedback : Feedback α)
    (observation : Observation α) : Feedback α :=
  feedback.record weight (toNumber observation.latency) observation.found

def ofObservations (toNumber : Nat → α) (weight : α) (searches : List (Observation α)) :
    Feedback α :=
  searches.foldl (observe toNumber weight) empty

end Feedback

end VectorSearch

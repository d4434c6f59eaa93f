import Std.Data.TreeSet
import VectorSearch.PriorityQueue
import VectorSearch.Ranking
/-!
Beam search. From a start node the search visits neighbours, best first, and keeps the best nodes
it has seen, as many as the beam is wide. It ends when the best node not yet visited is worse than
every node of a full beam. The graph is given by its links and the scores of its nodes.
-/

namespace VectorSearch

structure Beam where
  seen : Std.TreeSet VectorId
  /-- Nodes whose neighbours are still to be looked at, best first. -/
  candidates : PriorityQueue Hit
  /-- The best nodes so far, worst first. -/
  results : PriorityQueue Hit

namespace Beam

def bestFirst (first second : Hit) : Bool := first.precedes second

def worstFirst (first second : Hit) : Bool := second.precedes first

def start (hit : Hit) : Beam where
  seen := (∅ : Std.TreeSet VectorId).insert hit.id
  candidates := PriorityQueue.empty.push bestFirst hit
  results := PriorityQueue.empty.push worstFirst hit

def accepts (width : Nat) (beam : Beam) (score : Float32) : Bool :=
  decide (beam.results.size < width) ||
    match beam.results.peek? with
    | some worst => decide (worst.score < score)
    | none => true

def isSettled (width : Nat) (beam : Beam) (nearest : Hit) : Bool :=
  decide (width ≤ beam.results.size) &&
    match beam.results.peek? with
    | some worst => decide (nearest.score < worst.score)
    | none => false

def keep (width : Nat) (beam : Beam) (hit : Hit) : Beam :=
  let results := beam.results.push worstFirst hit
  { beam with
    candidates := beam.candidates.push bestFirst hit
    results :=
      if width < results.size then
        match results.pop? worstFirst with
        | some (_, rest) => rest
        | none => results
      else results }

def visit (width : Nat) (score : VectorId → Option Float32) (beam : Beam) (neighbor : VectorId) :
    Beam :=
  if beam.seen.contains neighbor then beam
  else
    let beam := { beam with seen := beam.seen.insert neighbor }
    match score neighbor with
    | none => beam
    | some value => if beam.accepts width value then beam.keep width ⟨neighbor, value⟩ else beam

/-- Visits the neighbours of the best candidate until the beam is settled. Every round takes a
candidate out, and a node is a candidate at most once. -/
def expandFrom (width : Nat) (links : VectorId → List VectorId)
    (score : VectorId → Option Float32) : (rounds : Nat) → Beam → Beam
  | 0, beam => beam
  | rounds + 1, beam =>
    match beam.candidates.pop? bestFirst with
    | none => beam
    | some (nearest, candidates) =>
      if beam.isSettled width nearest then beam
      else
        expandFrom width links score rounds
          ((links nearest.id).foldl (visit width score) { beam with candidates })

/-- The best nodes that a beam of this width finds from a start in a graph with at most `nodes`
scored nodes. -/
def found (links : VectorId → List VectorId) (score : VectorId → Option Float32) (nodes : Nat)
    (width : Nat) (first : VectorId) : List Hit :=
  match score first with
  | none => []
  | some value => (expandFrom width links score nodes (start ⟨first, value⟩)).results.items.toList

def search [Host] (links : VectorId → List VectorId) (score : VectorId → Option Float32)
    (nodes : Nat) (width : Nat) (first : VectorId) : List Hit :=
  Hit.sort (found links score nodes width first)

end Beam

end VectorSearch

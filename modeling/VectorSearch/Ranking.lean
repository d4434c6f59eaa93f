import VectorSearch.Change
import VectorSearch.Host
/-!
Ranking of search results by the sort of the host.
-/

namespace VectorSearch.Hit

def sort [Host] (hits : List Hit) : List Hit := Host.sorted hits

def rank [Host] (hits : List Hit) (count : Nat) : List Hit :=
  (sort hits).take count

def trySort [Host] (hits : List Hit) : Except Stop (List Hit) :=
  if Host.givesUp hits then .error (.panicked Host.complaint) else .ok (sort hits)

/-- Ranks what a search has found, unless the sort breaks down. Without room for results nothing is
sorted. -/
def tryRank [Host] (found : Except Failure (List Hit)) (count : Nat) : Except Stop (List Hit) := do
  let hits ← found.mapError .refused
  if count = 0 then return []
  return (← trySort hits).take count

end VectorSearch.Hit

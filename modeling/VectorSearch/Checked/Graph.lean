import VectorSearch.Checked.Access
import VectorSearch.Index.Graph.Basic
/-!
The graph index with checked access. Scores are read from the store one at a time, and only for
nodes that are looked at.
-/

namespace VectorSearch

/-! Beam search. -/

namespace Beam

def visitChecked (width : Nat) (score : VectorId → Checked (Option Float32)) (beam : Beam)
    (neighbor : VectorId) : Checked Beam := do
  if beam.seen.contains neighbor then return beam
  let found ← score neighbor
  return beam.visit width (fun _ => found) neighbor

def expandChecked (width : Nat) (links : VectorId → List VectorId)
    (score : VectorId → Checked (Option Float32)) : (rounds : Nat) → Beam → Checked Beam
  | 0, beam => return beam
  | rounds + 1, beam => do
    match beam.candidates.pop? bestFirst with
    | none => return beam
    | some (nearest, candidates) =>
      if beam.isSettled width nearest then return beam
      let visited ← (links nearest.id).foldlM (visitChecked width score) { beam with candidates }
      expandChecked width links score rounds visited

def searchChecked [Host] (links : VectorId → List VectorId)
    (score : VectorId → Checked (Option Float32))
    (nodes width : Nat) (first : VectorId) : Checked (List Hit) := do
  match ← score first with
  | none => return []
  | some value =>
    let beam ← expandChecked width links score nodes (start ⟨first, value⟩)
    return Hit.sort beam.results.items.toList

end Beam

/-! Descent. -/

namespace Descent

def bestOfChecked (score : VectorId → Checked (Option Float32)) (current : Hit)
    (neighbors : List VectorId) : Checked Hit :=
  neighbors.foldlM
    (fun best neighbor => do
      let found ← score neighbor
      return bestOf (fun _ => found) best [neighbor]) current

def walkChecked (links : VectorId → List VectorId) (score : VectorId → Checked (Option Float32)) :
    (steps : Nat) → VectorId → Checked VectorId
  | 0, current => return current
  | steps + 1, current => do
    match ← score current with
    | none => return current
    | some value =>
      let best ← bestOfChecked score ⟨current, value⟩ (links current)
      if best.id = current then return current
      walkChecked links score steps best.id

def descendChecked (links : Nat → VectorId → List VectorId)
    (score : VectorId → Checked (Option Float32)) (nodes low : Nat) :
    (count : Nat) → VectorId → Checked VectorId
  | 0, current => return current
  | count + 1, current => do
    let next ← walkChecked (links (low + count)) score nodes current
    descendChecked links score nodes low count next

end Descent

namespace GraphIndex

/-! Links. -/

def nearestLinksChecked [Host] (store : Store) (capacity : Nat) (id : VectorId) (links : LinkSet) :
    Checked LinkSet := do
  match ← store.getChecked id with
  | none => return links
  | some row =>
    let hits ← store.hitsOfChecked row links
    return LinkSet.insertAll ((Hit.rank hits capacity).map (·.id)) []

def linksWithChecked [Host] (store : Store) (capacity : Nat) (newcomer id : VectorId)
    (links : LinkSet) : Checked LinkSet := do
  let extended := LinkSet.insert newcomer links
  if capacity < extended.length then nearestLinksChecked store capacity id extended
  else return extended

/-- A node without the layer has no links there that would change. -/
def linkBackChecked [Host] (store : Store) (capacity layer : Nat) (newcomer : VectorId)
    (table : LinkTable) (id : VectorId) : Checked LinkTable := do
  match table.linksAt? layer id with
  | none => return table.modifyLinks layer id fun links => links
  | some links =>
    let changed ← linksWithChecked store capacity newcomer id links
    return table.modifyLinks layer id fun _ => changed

def linkToChecked [Host] (index : GraphIndex) (id : VectorId) (layer : Nat) (chosen : List VectorId)
    (table : LinkTable) : Checked LinkTable :=
  chosen.foldlM (linkBackChecked index.store (index.settings.capacity layer) layer id)
    (table.modifyLinks layer id (LinkSet.insertAll chosen))

def linkLayerChecked [Host] (index : GraphIndex) (id : VectorId) (row : Embedding) (layer : Nat)
    (state : LinkTable × VectorId) : Checked (LinkTable × VectorId) := do
  let (table, start) := state
  let found ← Beam.searchChecked (table.linksAt layer) (index.store.scoreChecked row)
    index.store.size index.settings.buildBreadth start
  let links ← index.linkToChecked id layer (index.choose id found) table
  return (links, (found.head?.map (·.id)).getD start)

def linkDownChecked [Host] (index : GraphIndex) (id : VectorId) (row : Embedding) :
    (layer : Nat) → LinkTable × VectorId → Checked (LinkTable × VectorId)
  | 0, state => index.linkLayerChecked id row 0 state
  | layer + 1, state => do
    let next ← index.linkLayerChecked id row (layer + 1) state
    index.linkDownChecked id row layer next

/-! Calls. -/

def attachChecked [Host] (index : GraphIndex) (id : VectorId) (row : Embedding) (level : Nat) :
    Checked GraphIndex := do
  let links := index.links.addNode id level
  match index.entry with
  | none => return { index with links, entry := some id, topLevel := level }
  | some entry =>
    let start ← Descent.descendChecked links.linksAt (index.store.scoreChecked row)
      index.store.size (level + 1) (index.topLevel - level) entry
    let (links, _) ← index.linkDownChecked id row (min level index.topLevel) (links, start)
    if index.topLevel < level then
      return { index with links, entry := some id, topLevel := level }
    else return { index with links }

def insertChecked [Host] (index : GraphIndex) (id : VectorId) (row : Embedding) :
    Checked (Except Failure GraphIndex) := do
  Checked.after (← index.store.upsertChecked id row) fun store => do
    if index.store.contains id then return .ok { index with store }
    let draw := index.drawn + 1
    let stored := { index with store, drawn := draw }
    return .ok (← stored.attachChecked id row (Level.ofDraw index.settings draw))

def searchChecked [Host] (index : GraphIndex) (query : Embedding) (count : Nat) (knobs : Knobs) :
    Checked (Except Failure (List Hit)) :=
  Checked.after (index.store.checkDimension query) fun _ => do
    match index.entry with
    | none => return .ok []
    | some entry =>
      if count = 0 then return .ok []
      let score := index.store.scoreChecked query
      let start ← Descent.descendChecked index.links.linksAt score index.store.size 1
        index.topLevel entry
      let found ← Beam.searchChecked (index.links.linksAt 0) score index.store.size
        (index.breadth count knobs) start
      return .ok (found.take count)

end GraphIndex

end VectorSearch

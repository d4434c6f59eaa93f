import VectorSearch.Index.Graph.Beam
import VectorSearch.Index.Graph.Descent
import VectorSearch.Index.Graph.Links
import VectorSearch.Settings.Basic
import VectorSearch.Store
/-!
The graph index. Layer zero holds every vector, each higher layer a smaller part of them. A new
vector is linked on its layers to near neighbours that a beam search finds, and they are linked
back to it; a node with too many links keeps the nearest ones. A search walks down from the entry
and ends with a beam search on layer zero.
-/

namespace VectorSearch

/-! Drawn levels. The level of a node is the whole part of an exponentially distributed number, so
that each layer has about as many times fewer nodes than the one below as a node has links. -/

namespace Level

def seed : UInt64 := 42

def mix (counter : UInt64) : UInt64 :=
  let word := counter + 0x9e3779b97f4a7c15
  let word := (word ^^^ (word >>> 30)) * 0xbf58476d1ce4e5b9
  let word := (word ^^^ (word >>> 27)) * 0x94d049bb133111eb
  word ^^^ (word >>> 31)

/-- The draw of this number as a fraction of the greatest word, never quite zero. -/
def fraction (draw : Nat) : Float :=
  let word := mix (seed + UInt64.ofNat draw)
  let share := word.toFloat / Count.toFloat Count.limit
  if share < 1e-15 then 1e-15 else share

def ofDraw (settings : GraphSettings) (draw : Nat) : Nat :=
  Count.ofFloat (-(fraction draw).log * settings.levelScale)

end Level

/-! The index. -/

structure GraphIndex where
  settings : GraphSettings
  store : Store
  links : LinkTable
  entry : Option VectorId
  topLevel : Nat
  drawn : Nat

namespace GraphIndex

def empty (dimension : Nat) (metric : Metric) (settings : GraphSettings) : GraphIndex where
  settings
  store := Store.empty dimension metric
  links := ∅
  entry := none
  topLevel := 0
  drawn := 0

def nearestLinks [Host] (store : Store) (capacity : Nat) (id : VectorId) (links : LinkSet) :
    LinkSet :=
  match store.get? id with
  | none => links
  | some row =>
    LinkSet.insertAll ((Hit.rank (store.hitsOf row links) capacity).map (·.id)) []

def linksWith [Host] (store : Store) (capacity : Nat) (newcomer id : VectorId) (links : LinkSet) :
    LinkSet :=
  let extended := LinkSet.insert newcomer links
  if capacity < extended.length then nearestLinks store capacity id extended else extended

def linkBack [Host] (store : Store) (capacity layer : Nat) (newcomer : VectorId) (table : LinkTable)
    (id : VectorId) : LinkTable :=
  table.modifyLinks layer id (linksWith store capacity newcomer id)

def linkTo [Host] (index : GraphIndex) (id : VectorId) (layer : Nat) (chosen : List VectorId)
    (table : LinkTable) : LinkTable :=
  chosen.foldl (linkBack index.store (index.settings.capacity layer) layer id)
    (table.modifyLinks layer id (LinkSet.insertAll chosen))

def nearby [Host] (index : GraphIndex) (row : Embedding) (layer : Nat) (table : LinkTable)
    (start : VectorId) : List Hit :=
  Beam.search (table.linksAt layer) (index.store.score row) index.store.size
    index.settings.buildBreadth start

def choose (index : GraphIndex) (id : VectorId) (found : List Hit) : List VectorId :=
  ((found.filter (·.id ≠ id)).take index.settings.maxLinks).map (·.id)

/-- Links a new node on one layer, beginning the search at `start`. Also answers where to begin on
the layer below: at the nearest node found. -/
def linkLayer [Host] (index : GraphIndex) (id : VectorId) (row : Embedding) (layer : Nat)
    (state : LinkTable × VectorId) : LinkTable × VectorId :=
  let (table, start) := state
  let found := index.nearby row layer table start
  (index.linkTo id layer (index.choose id found) table, (found.head?.map (·.id)).getD start)

def linkDown [Host] (index : GraphIndex) (id : VectorId) (row : Embedding) :
    (layer : Nat) → LinkTable × VectorId → LinkTable × VectorId
  | 0, state => index.linkLayer id row 0 state
  | layer + 1, state => index.linkDown id row layer (index.linkLayer id row (layer + 1) state)

def attach [Host] (index : GraphIndex) (id : VectorId) (row : Embedding) (level : Nat) :
    GraphIndex :=
  let links := index.links.addNode id level
  match index.entry with
  | none => { index with links, entry := some id, topLevel := level }
  | some entry =>
    let start := Descent.descend links.linksAt (index.store.score row) index.store.size
      (level + 1) (index.topLevel - level) entry
    let (links, _) := index.linkDown id row (min level index.topLevel) (links, start)
    if index.topLevel < level then
      { index with links, entry := some id, topLevel := level }
    else { index with links }

/-- Stores a vector, given the levels of all draws. A vector that is already stored is replaced
and keeps its links. -/
def insertWith [Host] (levelOf : Nat → Nat) (index : GraphIndex) (id : VectorId) (row : Embedding) :
    Except Failure GraphIndex := do
  let store ← index.store.upsert id row
  if index.store.contains id then return { index with store }
  else
    let draw := index.drawn + 1
    return { index with store, drawn := draw }.attach id row (levelOf draw)

def insert [Host] (index : GraphIndex) (id : VectorId) (row : Embedding) :
    Except Failure GraphIndex :=
  index.insertWith (Level.ofDraw index.settings) id row

/-- The breadth of the last beam search: that of the knobs or the settings, and never less than
the number of results asked for. -/
def breadth (index : GraphIndex) (count : Nat) (knobs : Knobs) : Nat :=
  max (Knobs.orElse knobs.breadth index.settings.searchBreadth) count

def found (index : GraphIndex) (query : Embedding) (count : Nat) (knobs : Knobs) :
    Except Failure (List Hit) := do
  index.store.checkDimension query
  match index.entry with
  | none => return []
  | some entry =>
    let score := index.store.score query
    let start := Descent.descend index.links.linksAt score index.store.size 1 index.topLevel entry
    let breadth := index.breadth count knobs
    return Beam.found (index.links.linksAt 0) score index.store.size breadth start

def search [Host] (index : GraphIndex) (query : Embedding) (count : Nat) (knobs : Knobs) :
    Except Failure (List Hit) := do
  return Hit.rank (← index.found query count knobs) count

end GraphIndex

end VectorSearch

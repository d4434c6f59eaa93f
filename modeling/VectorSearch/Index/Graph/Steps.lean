import VectorSearch.Index.Graph.Basic
/-!
The steps in which a graph grows. An insertion changes one set of links after another: on each of
its layers a new node gets links to the nodes that it selects, and then one after another of these
is offered a link back.
-/

namespace VectorSearch

inductive LinkStep where
  | addNode (id : VectorId) (level : Nat)
  | select (id : VectorId) (layer : Nat) (chosen : List VectorId)
  | linkBack (newcomer : VectorId) (layer : Nat) (id : VectorId)

namespace LinkStep

def apply [Host] (store : Store) (settings : GraphSettings) (table : LinkTable) : LinkStep →
    LinkTable
  | addNode id level => table.addNode id level
  | select id layer chosen => table.modifyLinks layer id (LinkSet.insertAll chosen)
  | linkBack newcomer layer id =>
    GraphIndex.linkBack store (settings.capacity layer) layer newcomer table id

def offers (layer : Nat) (id : VectorId) : LinkStep → List VectorId
  | addNode _ _ => []
  | select selecting place chosen => if selecting = id ∧ place = layer then chosen else []
  | linkBack newcomer place selected => if selected = id ∧ place = layer then [newcomer] else []

def offered (layer : Nat) (id : VectorId) (log : List LinkStep) : List VectorId :=
  log.flatMap (offers layer id)

end LinkStep

namespace GraphIndex

def linkSteps (id : VectorId) (layer : Nat) (chosen : List VectorId) : List LinkStep :=
  .select id layer chosen :: chosen.map (.linkBack id layer)

def linkDownSteps [Host] (index : GraphIndex) (id : VectorId) (row : Embedding) :
    (layer : Nat) → LinkTable × VectorId → List LinkStep
  | 0, (table, start) => linkSteps id 0 (index.choose id (index.nearby row 0 table start))
  | layer + 1, (table, start) =>
    linkSteps id (layer + 1) (index.choose id (index.nearby row (layer + 1) table start)) ++
      index.linkDownSteps id row layer (index.linkLayer id row (layer + 1) (table, start))

def attachSteps [Host] (index : GraphIndex) (id : VectorId) (row : Embedding) (level : Nat) :
    List LinkStep :=
  let links := index.links.addNode id level
  .addNode id level ::
    match index.entry with
    | none => []
    | some entry =>
      let start := Descent.descend links.linksAt (index.store.score row) index.store.size
        (level + 1) (index.topLevel - level) entry
      index.linkDownSteps id row (min level index.topLevel) (links, start)

/-- The steps of an insertion. There are none when it is refused, and none for a vector that is
stored already. -/
def insertSteps [Host] (levelOf : Nat → Nat) (index : GraphIndex) (id : VectorId)
    (row : Embedding) : List LinkStep :=
  match index.store.upsert id row with
  | .error _ => []
  | .ok store =>
    if index.store.contains id then []
    else
      let draw := index.drawn + 1
      { index with store, drawn := draw }.attachSteps id row (levelOf draw)

end GraphIndex

end VectorSearch

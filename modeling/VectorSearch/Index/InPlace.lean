import VectorSearch.Change
import VectorSearch.Index
/-!
Indexes that are changed in place: the writes of every call, in the order in which they are made.
-/

namespace VectorSearch

namespace Store

def upsertInPlace (id : VectorId) (row : Embedding) : Change Store := do
  let store ← get
  if row.size ≠ store.dimension then
    Change.refuse (.dimensionMismatch store.dimension row.size)
  match store.offsets.get? id with
  | some offset => modify fun store => { store with data := overwrite store.data offset row }
  | none =>
    let offset := store.data.size
    modify fun store => { store with data := store.data ++ row }
    modify fun store => { store with offsets := store.offsets.insert id offset }

end Store

namespace FlatIndex

def insertInPlace (id : VectorId) (row : Embedding) : Change FlatIndex :=
  .within store (fun _ store => ⟨store⟩) (Store.upsertInPlace id row)

end FlatIndex

namespace GraphIndex

/-! Links in place. A sort that breaks down leaves the links that were made before it. -/

def pruneInPlace [Host] (store : Store) (capacity layer : Nat) (id : VectorId) :
    Change LinkTable := do
  match store.get? id with
  | none => return
  | some row =>
    let kept ← .ofExcept (Hit.trySort (store.hitsOf row ((← get).linksAt layer id)))
    modify (·.modifyLinks layer id fun _ =>
      LinkSet.insertAll ((kept.take capacity).map (·.id)) [])

def linkBackInPlace [Host] (store : Store) (capacity layer : Nat) (newcomer id : VectorId) :
    Change LinkTable := do
  modify (·.modifyLinks layer id (LinkSet.insert newcomer))
  if capacity < ((← get).linksAt layer id).length then pruneInPlace store capacity layer id

def linkLayerInPlace [Host] (index : GraphIndex) (id : VectorId) (row : Embedding) (layer : Nat)
    (start : VectorId) : Change LinkTable VectorId := do
  let found ← .ofExcept (Hit.trySort (Beam.found ((← get).linksAt layer) (index.store.score row)
    index.store.size index.settings.buildBreadth start))
  let chosen := index.choose id found
  modify (·.modifyLinks layer id (LinkSet.insertAll chosen))
  chosen.forM (linkBackInPlace index.store (index.settings.capacity layer) layer id)
  return (found.head?.map (·.id)).getD start

def linkDownInPlace [Host] (index : GraphIndex) (id : VectorId) (row : Embedding) :
    (layer : Nat) → VectorId → Change LinkTable
  | 0, start => discard (index.linkLayerInPlace id row 0 start)
  | layer + 1, start => do
    let next ← index.linkLayerInPlace id row (layer + 1) start
    index.linkDownInPlace id row layer next

def attachInPlace [Host] (id : VectorId) (row : Embedding) (level : Nat) : Change GraphIndex := do
  let index ← get
  let links := index.links.addNode id level
  modify fun index => { index with links }
  match index.entry with
  | none =>
    modify fun index => { index with entry := some id }
    modify fun index => { index with topLevel := level }
  | some entry =>
    let start := Descent.descend links.linksAt (index.store.score row) index.store.size (level + 1)
      (index.topLevel - level) entry
    .within GraphIndex.links (fun index links => { index with links })
      (index.linkDownInPlace id row (min level index.topLevel) start)
    if index.topLevel < level then
      modify fun index => { index with entry := some id }
      modify fun index => { index with topLevel := level }

/-- The level is drawn only when the vector is stored, so that a refused one uses up no draw. -/
def insertInPlace [Host] (id : VectorId) (row : Embedding) : Change GraphIndex := do
  let known := (← get).store.contains id
  .within store (fun index store => { index with store }) (Store.upsertInPlace id row)
  unless known do
    modify fun index => { index with drawn := index.drawn + 1 }
    let index ← get
    attachInPlace id row (Level.ofDraw index.settings index.drawn)

end GraphIndex

namespace PartitionIndex

def trainInPlace [Host] (buffer : Array Float32) : Change PartitionIndex := do
  let index ← get
  let dimension := index.store.dimension
  if dimension = 0 || buffer.size % dimension ≠ 0 then
    Change.refuse (raggedBuffer buffer.size dimension)
  let rows := (Embedding.rows buffer dimension (buffer.size / dimension)).toArray
  let count := partitionCount index.settings rows.size
  let centroids := KMeans.train Host.draws dimension rows count index.settings.iterations
    (Host.drawsFrom (UInt64.ofNat index.settings.seed))
  modify fun index => { index with centroids }
  modify fun index => { index with lists := Array.replicate count [] }
  modify fun index => { index with assignment := ∅ }
  modify fun index => { index with trained := true }

def insertInPlace (id : VectorId) (row : Embedding) : Change PartitionIndex := do
  if (← get).lists.isEmpty then Change.refuse notTrained
  .within store (fun index store => { index with store }) (Store.upsertInPlace id row)
  let index ← get
  let list := Centroids.nearest index.centroids row
  modify fun index => { index with assignment := index.assignment.insert id list }
  modify fun after => { after with lists := index.unlist id }
  modify fun index => { index with lists := index.lists.modify list (· ++ [id]) }

end PartitionIndex

namespace CodeIndex

def putCodeInPlace (id : VectorId) (code : SignCode) : Change CodeIndex := do
  let index ← get
  match index.slots.get? id with
  | some slot => modify fun index => { index with codes := index.overwriteSlot slot code.bytes }
  | none =>
    modify fun index => { index with slots := index.slots.insert id index.owners.size }
    modify fun index => { index with codes := index.codes ++ code.bytes }
    modify fun index => { index with owners := index.owners.push id }

def insertInPlace (id : VectorId) (row : Embedding) : Change CodeIndex := do
  let code ← .ofExcept ((SignCode.quantize row).mapError .refused)
  .within store (fun index store => { index with store }) (Store.upsertInPlace id row)
  putCodeInPlace id code

end CodeIndex

namespace Index

def trainInPlace [Host] (buffer : Array Float32) : Change Index := fun index =>
  match index with
  | partition index => (PartitionIndex.trainInPlace buffer).runIn partition index
  | other => .ok () other

def insertInPlace [Host] (id : VectorId) (row : Embedding) : Change Index := fun index =>
  match index with
  | flat index => (FlatIndex.insertInPlace id row).runIn flat index
  | graph index => (GraphIndex.insertInPlace id row).runIn graph index
  | partition index => (PartitionIndex.insertInPlace id row).runIn partition index
  | code index => (CodeIndex.insertInPlace id row).runIn code index

end Index

end VectorSearch

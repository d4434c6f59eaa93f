import Std.Data.TreeMap
import VectorSearch.Index.Partition.KMeans
import VectorSearch.Settings.Basic
import VectorSearch.Store
/-!
The partition index. Training places centroids; a vector is kept in the list of its nearest
centroid, and a search scores the vectors of the lists whose centroids are nearest to the query.
Distances to centroids are Euclidean whatever the metric of the index is.
-/

namespace VectorSearch

structure PartitionIndex where
  settings : PartitionSettings
  store : Store
  centroids : List Embedding
  lists : Array (List VectorId)
  assignment : Std.TreeMap VectorId Nat
  trained : Bool

namespace PartitionIndex

def empty (dimension : Nat) (metric : Metric) (settings : PartitionSettings) :
    PartitionIndex where
  settings
  store := Store.empty dimension metric
  centroids := []
  lists := #[]
  assignment := ∅
  trained := false

def nearestRoot (count : Nat) : Nat :=
  Count.ofFloat ((Count.toFloat count).sqrt + 0.5)

/-- The number of partitions for a number of rows: the one of the settings or else the square root,
and never more than there are rows. -/
def partitionCount (settings : PartitionSettings) (rows : Nat) : Nat :=
  min (if settings.partitions = 0 then max (nearestRoot rows) 1 else settings.partitions) rows

def raggedBuffer (size dimension : Nat) : Failure :=
  .invalidArgument ("training buffer of " ++ toString size ++
    " floats is not a multiple of dimension " ++ toString dimension)

def notTrained : Failure := .buildFailed "IVF index must be trained before insert"

/-- Places the centroids anew by draws from any source. All lists are empty afterwards; the vectors
in the store stay. -/
def trainWith {σ : Type} (draws : DrawSource σ) (state : σ) (index : PartitionIndex)
    (buffer : Array Float32) : Except Failure PartitionIndex :=
  let dimension := index.store.dimension
  if dimension = 0 || buffer.size % dimension ≠ 0 then
    .error (raggedBuffer buffer.size dimension)
  else
    let rows := (Embedding.rows buffer dimension (buffer.size / dimension)).toArray
    let count := partitionCount index.settings rows.size
    .ok { index with
      centroids := KMeans.train draws dimension rows count index.settings.iterations state
      lists := Array.replicate count []
      assignment := ∅
      trained := true }

def train [Host] (index : PartitionIndex) (buffer : Array Float32) :
    Except Failure PartitionIndex :=
  index.trainWith Host.draws (Host.drawsFrom (UInt64.ofNat index.settings.seed)) buffer

def unlist (index : PartitionIndex) (id : VectorId) : Array (List VectorId) :=
  match index.assignment.get? id with
  | none => index.lists
  | some previous => index.lists.modify previous (·.filter (· ≠ id))

def insert (index : PartitionIndex) (id : VectorId) (row : Embedding) :
    Except Failure PartitionIndex := do
  if index.lists.isEmpty then throw notTrained
  let store ← index.store.upsert id row
  let list := Centroids.nearest index.centroids row
  return { index with
    store
    lists := (index.unlist id).modify list (· ++ [id])
    assignment := index.assignment.insert id list }

def probeCount (index : PartitionIndex) (knobs : Knobs) : Nat :=
  min (max (Knobs.orElse knobs.probes index.settings.probes) 1) index.lists.size

def probed [Host] (index : PartitionIndex) (query : Embedding) (probes : Nat) : List VectorId :=
  ((Centroids.probeOrder index.centroids query).take probes).flatMap fun number =>
    (index.lists[number]?).getD []

def found [Host] (index : PartitionIndex) (query : Embedding) (knobs : Knobs) :
    Except Failure (List Hit) := do
  index.store.checkDimension query
  return index.store.hitsOf query (index.probed query (index.probeCount knobs))

def search [Host] (index : PartitionIndex) (query : Embedding) (count : Nat) (knobs : Knobs) :
    Except Failure (List Hit) := do
  return Hit.rank (← index.found query knobs) count

end PartitionIndex

end VectorSearch

import Std.Data.TreeMap
import VectorSearch.Embedding
import VectorSearch.Failure
import VectorSearch.Ranking
import VectorSearch.Similarity
/-!
The store of embeddings. All coordinates lie in one buffer; a map from identifiers to offsets says
which vectors are present and where each one begins. Vectors are listed by ascending identifier.
-/

namespace VectorSearch

structure Store where
  dimension : Nat
  metric : Metric
  data : Array Float32
  offsets : Std.TreeMap VectorId Nat

namespace Store

def empty (dimension : Nat) (metric : Metric) : Store where
  dimension
  metric
  data := #[]
  offsets := ∅

def size (store : Store) : Nat := store.offsets.size

def isEmpty (store : Store) : Bool := store.offsets.isEmpty

def contains (store : Store) (id : VectorId) : Bool := store.offsets.contains id

def get? (store : Store) (id : VectorId) : Option Embedding :=
  (store.offsets.get? id).map (Embedding.rowAt store.data store.dimension)

def ids (store : Store) : List VectorId := store.offsets.keys

def entries (store : Store) : List (VectorId × Embedding) :=
  store.offsets.toList.map fun (id, offset) =>
    (id, Embedding.rowAt store.data store.dimension offset)

def checkDimension (store : Store) (row : Embedding) : Except Failure Unit :=
  if row.size = store.dimension then .ok ()
  else .error (.dimensionMismatch store.dimension row.size)

def overwrite (data : Array Float32) (offset : Nat) (row : Embedding) : Array Float32 :=
  data.extract 0 offset ++ row ++ data.extract (offset + row.size) data.size

/-- Stores an embedding of the right length: a known identifier keeps its place in the buffer, a
new one is put behind all others. -/
def put (store : Store) (id : VectorId) (row : Embedding) : Store :=
  match store.offsets.get? id with
  | some offset => { store with data := overwrite store.data offset row }
  | none =>
    { store with
      data := store.data ++ row
      offsets := store.offsets.insert id store.data.size }

def upsert (store : Store) (id : VectorId) (row : Embedding) : Except Failure Store := do
  store.checkDimension row
  return store.put id row

/-- Stores an embedding where storage may be unable to grow. A known identifier needs no room. -/
def upsertWithin (store : Store) (roomy : Bool) (id : VectorId) (row : Embedding) :
    Except Failure Store := do
  store.checkDimension row
  if !roomy && !store.contains id then throw (.outOfMemory "vector heap")
  return store.put id row

structure Upsert where
  id : VectorId
  row : Embedding
  roomy : Bool := true

def respond (store : Store) (call : Upsert) : Except Failure Unit × Store :=
  match store.upsertWithin call.roomy call.id call.row with
  | .ok after => (.ok (), after)
  | .error failure => (.error failure, store)

def score (store : Store) (query : Embedding) (id : VectorId) : Option Float32 :=
  (store.get? id).map (VectorSearch.similarity store.metric query)

def hitsOf (store : Store) (query : Embedding) (ids : List VectorId) : List Hit :=
  ids.filterMap fun id => (store.score query id).map (Hit.mk id)

def hits (store : Store) (query : Embedding) : List Hit :=
  store.entries.map fun (id, row) => ⟨id, VectorSearch.similarity store.metric query row⟩

end Store

end VectorSearch

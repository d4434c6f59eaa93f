import Std.Data.TreeMap
import VectorSearch.Settings.Basic
import VectorSearch.SignCode.Hamming
import VectorSearch.Store
/-!
The index of sign codes. Every vector has a code beside its embedding. A search orders all codes by
their distance to the code of the query, keeps the first candidates, and scores those exactly.
-/

namespace VectorSearch

structure CodeIndex where
  settings : CodeSettings
  store : Store
  codes : Array UInt8
  owners : Array VectorId
  slots : Std.TreeMap VectorId Nat

namespace CodeIndex

def empty (dimension : Nat) (metric : Metric) (settings : CodeSettings) : CodeIndex where
  settings
  store := Store.empty dimension metric
  codes := #[]
  owners := #[]
  slots := ∅

def codeSize (index : CodeIndex) : Nat := bytesNeeded index.store.dimension

def slotBytes (index : CodeIndex) (slot : Nat) : Array UInt8 :=
  index.codes.extract (slot * index.codeSize) ((slot + 1) * index.codeSize)

def overwriteSlot (index : CodeIndex) (slot : Nat) (bytes : Array UInt8) : Array UInt8 :=
  index.codes.extract 0 (slot * index.codeSize) ++ bytes ++
    index.codes.extract ((slot + 1) * index.codeSize) index.codes.size

/-- Keeps the code of a vector: in its slot, or in a new one behind all others. -/
def putCode (index : CodeIndex) (id : VectorId) (code : SignCode) : CodeIndex :=
  match index.slots.get? id with
  | some slot => { index with codes := index.overwriteSlot slot code.bytes }
  | none =>
    { index with
      codes := index.codes ++ code.bytes
      owners := index.owners.push id
      slots := index.slots.insert id index.owners.size }

/-- Stores or replaces a vector and its code. The code is made first, so that a vector without
coordinates is refused for that before its length is looked at. -/
def insert (index : CodeIndex) (id : VectorId) (row : Embedding) : Except Failure CodeIndex := do
  let code ← SignCode.quantize row
  let store ← index.store.upsert id row
  return { index with store }.putCode id code

def code? (index : CodeIndex) (id : VectorId) : Option (Array UInt8) :=
  (index.slots.get? id).map index.slotBytes

def candidateCount (index : CodeIndex) (count : Nat) (knobs : Knobs) : Nat :=
  max (max knobs.candidates (Count.saturate (count * index.settings.candidateFactor))) count

def distances (index : CodeIndex) (query : SignCode) : Except Failure (List (Nat × VectorId)) :=
  index.owners.toList.zipIdx.mapM fun (id, slot) => do
    let code ← SignCode.wrap (index.slotBytes slot) index.store.dimension
    return (← query.hammingWide code, id)

def comesBefore (first second : Nat × VectorId) : Bool :=
  decide (first.1 < second.1) || (first.1 == second.1 && decide (first.2 ≤ second.2))

def found (index : CodeIndex) (query : Embedding) (count : Nat) (knobs : Knobs) :
    Except Failure (List Hit) := do
  index.store.checkDimension query
  if count = 0 || index.store.isEmpty then return []
  let ordered := (← index.distances (← SignCode.quantize query)).mergeSort comesBefore
  let candidates := (ordered.take (index.candidateCount count knobs)).map (·.2)
  return index.store.hitsOf query candidates

def search [Host] (index : CodeIndex) (query : Embedding) (count : Nat) (knobs : Knobs) :
    Except Failure (List Hit) := do
  return Hit.rank (← index.found query count knobs) count

end CodeIndex

end VectorSearch

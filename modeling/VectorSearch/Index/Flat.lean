import VectorSearch.Store
/-!
The exact index: every stored vector is scored.
-/

namespace VectorSearch

structure FlatIndex where
  store : Store

namespace FlatIndex

def empty (dimension : Nat) (metric : Metric) : FlatIndex := ⟨Store.empty dimension metric⟩

def insert (index : FlatIndex) (id : VectorId) (row : Embedding) : Except Failure FlatIndex := do
  return ⟨← index.store.upsert id row⟩

def found (index : FlatIndex) (query : Embedding) : Except Failure (List Hit) := do
  index.store.checkDimension query
  return index.store.hits query

def search [Host] (index : FlatIndex) (query : Embedding) (count : Nat) :
    Except Failure (List Hit) := do
  return Hit.rank (← index.found query) count

end FlatIndex

end VectorSearch

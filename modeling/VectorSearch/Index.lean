import VectorSearch.Index.Code
import VectorSearch.Index.Flat
import VectorSearch.Index.Graph.Basic
import VectorSearch.Index.Partition.Basic
import VectorSearch.IndexKind
/-!
Indexes of any family.
-/

namespace VectorSearch

inductive Index where
  | flat (index : FlatIndex)
  | graph (index : GraphIndex)
  | partition (index : PartitionIndex)
  | code (index : CodeIndex)

namespace Index

def empty (kind : IndexKind) (dimension : Nat) (settings : IndexSettings) : Index :=
  match kind with
  | .flat => flat (.empty dimension settings.metric)
  | .graph => graph (.empty dimension settings.metric settings.graph)
  | .partition => partition (.empty dimension settings.metric settings.partition)
  | .code => code (.empty dimension settings.metric settings.code)

def kind : Index → IndexKind
  | flat _ => .flat
  | graph _ => .graph
  | partition _ => .partition
  | code _ => .code

def store : Index → Store
  | flat index => index.store
  | graph index => index.store
  | partition index => index.store
  | code index => index.store

def get? (index : Index) (id : VectorId) : Option Embedding := index.store.get? id

def needsTraining : Index → Bool
  | partition index => !index.trained
  | _ => false

def train [Host] (index : Index) (buffer : Array Float32) : Except Failure Index :=
  match index with
  | partition index => partition <$> index.train buffer
  | other => .ok other

def insert [Host] (index : Index) (id : VectorId) (row : Embedding) : Except Failure Index :=
  match index with
  | flat index => flat <$> index.insert id row
  | graph index => graph <$> index.insert id row
  | partition index => partition <$> index.insert id row
  | code index => code <$> index.insert id row

def found [Host] (index : Index) (query : Embedding) (count : Nat) (knobs : Knobs) :
    Except Failure (List Hit) :=
  match index with
  | flat index => index.found query
  | graph index => index.found query count knobs
  | partition index => index.found query knobs
  | code index => index.found query count knobs

/-- Up to `count` near neighbours of a query, provided that the sort does not break down. -/
def search [Host] (index : Index) (query : Embedding) (count : Nat) (knobs : Knobs) :
    Except Failure (List Hit) :=
  match index with
  | flat index => index.search query count
  | graph index => index.search query count knobs
  | partition index => index.search query count knobs
  | code index => index.search query count knobs

/-- The same search, which breaks down with its sort. -/
def trySearch [Host] (index : Index) (query : Embedding) (count : Nat) (knobs : Knobs) :
    Except Stop (List Hit) :=
  Hit.tryRank (index.found query count knobs) count

end Index

end VectorSearch

import VectorSearch.Checked.Code
import VectorSearch.Checked.Graph
import VectorSearch.Checked.Partition
import VectorSearch.Index
/-!
Indexes of any family with checked access: what a caller can ask for, and the answers.
-/

namespace VectorSearch

inductive IndexRequest where
  | train (buffer : Array Float32)
  | insert (id : VectorId) (row : Embedding)
  | search (query : Embedding) (count : Nat) (knobs : Knobs)
  | get (id : VectorId)
  | code (id : VectorId)

inductive IndexAnswer where
  | changed (outcome : Except Failure Unit)
  | found (outcome : Except Failure (List Hit))
  | stored (row : Option Embedding)
  | packed (bytes : Option (Array UInt8))

namespace Index

def code? (index : Index) (id : VectorId) : Option (Array UInt8) :=
  match index with
  | code index => index.code? id
  | _ => none

/-- The answer to a change that was tried, and the index after it: a refused one changes nothing. -/
def change (index : Index) (outcome : Except Failure Index) : IndexAnswer × Index :=
  match outcome with
  | .ok after => (.changed (.ok ()), after)
  | .error failure => (.changed (.error failure), index)

def respond [Host] (index : Index) : IndexRequest → IndexAnswer × Index
  | .train buffer => index.change (index.train buffer)
  | .insert id row => index.change (index.insert id row)
  | .search query count knobs => (.found (index.search query count knobs), index)
  | .get id => (.stored (index.get? id), index)
  | .code id => (.packed (index.code? id), index)

/-! Checked access. -/

def trainChecked [Host] (index : Index) (buffer : Array Float32) : Checked
    (Except Failure Index) := do
  match index with
  | partition index => return (← index.trainChecked buffer).map partition
  | other => return .ok other

def insertChecked [Host] (index : Index) (id : VectorId) (row : Embedding) :
    Checked (Except Failure Index) := do
  match index with
  | flat index => return (← index.insertChecked id row).map flat
  | graph index => return (← index.insertChecked id row).map graph
  | partition index => return (← index.insertChecked id row).map partition
  | code index => return (← index.insertChecked id row).map code

def searchChecked [Host] (index : Index) (query : Embedding) (count : Nat) (knobs : Knobs) :
    Checked (Except Failure (List Hit)) :=
  match index with
  | flat index => index.searchChecked query count
  | graph index => index.searchChecked query count knobs
  | partition index => index.searchChecked query count knobs
  | code index => index.searchChecked query count knobs

def codeChecked (index : Index) (id : VectorId) : Checked (Option (Array UInt8)) :=
  match index with
  | code index => index.codeChecked id
  | _ => return none

def respondChecked [Host] (index : Index) : IndexRequest → Checked (IndexAnswer × Index)
  | .train buffer => return index.change (← index.trainChecked buffer)
  | .insert id row => return index.change (← index.insertChecked id row)
  | .search query count knobs => return (.found (← index.searchChecked query count knobs), index)
  | .get id => return (.stored (← index.store.getChecked id), index)
  | .code id => return (.packed (← index.codeChecked id), index)

def serveChecked [Host] (index : Index) : List IndexRequest → Checked (List IndexAnswer × Index)
  | [] => return ([], index)
  | request :: rest => do
    let (answer, next) ← index.respondChecked request
    let (answers, last) ← next.serveChecked rest
    return (answer :: answers, last)

end Index

end VectorSearch

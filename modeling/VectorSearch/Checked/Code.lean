import VectorSearch.Checked.Access
import VectorSearch.Index.Code
/-!
The index of sign codes with checked access. A search relies on making the code of its query and on
reading the codes of the stored vectors: it would be refused with them.
-/

namespace VectorSearch

namespace CodeIndex

def putCodeChecked (index : CodeIndex) (id : VectorId) (code : SignCode) : Checked CodeIndex := do
  match index.slots.get? id with
  | some slot =>
    let codes ← Checked.overwrite index.codes (slot * index.codeSize)
      ((slot + 1) * index.codeSize) code.bytes
    return { index with codes }
  | none =>
    return { index with
      codes := index.codes ++ code.bytes
      owners := index.owners.push id
      slots := index.slots.insert id index.owners.size }

def insertChecked (index : CodeIndex) (id : VectorId) (row : Embedding) :
    Checked (Except Failure CodeIndex) :=
  Checked.after (SignCode.quantize row) fun code => do
    Checked.after (← index.store.upsertChecked id row) fun store => do
      return .ok (← { index with store }.putCodeChecked id code)

def codeChecked (index : CodeIndex) (id : VectorId) : Checked (Option (Array UInt8)) := do
  match index.slots.get? id with
  | none => return none
  | some slot =>
    return some (← Checked.slice index.codes (slot * index.codeSize)
      ((slot + 1) * index.codeSize))

/-- The codes are read side by side with their owners. None of them is refused, and neither is the
code of the query. -/
def distancesChecked (index : CodeIndex) (query : Embedding) :
    Checked (List (Nat × VectorId)) := do
  let code ← Checked.rely (SignCode.quantize query)
  let pieces ← Checked.pieces index.codes index.codeSize
  (pieces.zip index.owners.toList).mapM fun (bytes, id) => do
    let other ← Checked.rely (SignCode.wrap bytes index.store.dimension)
    return (← Checked.rely (code.hammingWide other), id)

def searchChecked [Host] (index : CodeIndex) (query : Embedding) (count : Nat) (knobs : Knobs) :
    Checked (Except Failure (List Hit)) :=
  Checked.after (index.store.checkDimension query) fun _ => do
    if count = 0 || index.store.isEmpty then return .ok []
    let ordered := (← index.distancesChecked query).mergeSort comesBefore
    let candidates := (ordered.take (index.candidateCount count knobs)).map (·.2)
    return .ok (Hit.rank (← index.store.hitsOfChecked query candidates) count)

end CodeIndex

end VectorSearch

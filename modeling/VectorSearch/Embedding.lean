/-!
Identifiers and embeddings. An embedding is a row of single-precision numbers; a buffer is a
sequence of rows of one dimension, laid out one after another.
-/

namespace VectorSearch

abbrev VectorId := Nat

abbrev Embedding := Array Float32

def VectorId.display (id : VectorId) : String :=
  "VectorId(" ++ toString id ++ ")"

def VectorId.ascending (ids : List VectorId) : List VectorId :=
  ids.mergeSort (fun first second => decide (first ≤ second))

namespace Embedding

def rowAt (buffer : Array Float32) (dimension offset : Nat) : Embedding :=
  buffer.extract offset (offset + dimension)

def rows (buffer : Array Float32) (dimension count : Nat) : List Embedding :=
  (List.range count).map fun position => rowAt buffer dimension (position * dimension)

/-- A buffer cut into rows, the last one shorter where the buffer ends inside it. Rows have at
least one number, so that a buffer of any length is cut into finitely many. -/
def raggedRows (buffer : Array Float32) (dimension : Nat) : List Embedding :=
  let width := max dimension 1
  rows buffer width ((buffer.size + width - 1) / width)

end Embedding

end VectorSearch

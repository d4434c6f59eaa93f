/-!
The families of indexes. Each has a stable number and a written name.
-/

namespace VectorSearch

inductive IndexKind where
  | flat
  | graph
  | partition
  | code
  deriving DecidableEq, Repr

namespace IndexKind

def all : List IndexKind := [flat, graph, partition, code]

def number : IndexKind → Nat
  | flat => 0
  | graph => 1
  | partition => 2
  | code => 3

def ofNumber? : Nat → Option IndexKind
  | 0 => some flat
  | 1 => some graph
  | 2 => some partition
  | 3 => some code
  | _ => none

def name : IndexKind → String
  | flat => "flat"
  | graph => "hnsw"
  | partition => "ivf_flat"
  | code => "binary_flat"

def ofName? : String → Option IndexKind
  | "flat" => some flat
  | "hnsw" => some graph
  | "ivf_flat" => some partition
  | "binary_flat" => some code
  | _ => none

def label : IndexKind → String
  | flat => "Flat"
  | graph => "Hnsw"
  | partition => "IvfFlat"
  | code => "BinaryFlat"

def isExact (kind : IndexKind) : Bool := kind == flat

def rank (kind : IndexKind) : Nat :=
  all.countP fun other => decide (other.number < kind.number)

theorem ofNumber?_number (kind : IndexKind) : ofNumber? kind.number = some kind := by
  cases kind <;> rfl

theorem ofName?_name (kind : IndexKind) : ofName? kind.name = some kind := by
  cases kind <;> rfl

end IndexKind

end VectorSearch

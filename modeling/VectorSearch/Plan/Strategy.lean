/-!
The ways in which a query can be carried out.
-/

namespace VectorSearch

inductive Strategy where
  | exactScan
  | indexSearch
  | oversampleFilter
  deriving DecidableEq, Repr

namespace Strategy

def number : Strategy → Nat
  | exactScan => 0
  | indexSearch => 1
  | oversampleFilter => 2

def ofNumber? : Nat → Option Strategy
  | 0 => some exactScan
  | 1 => some indexSearch
  | 2 => some oversampleFilter
  | _ => none

def name : Strategy → String
  | exactScan => "EXACT_SCAN"
  | indexSearch => "INDEX_SEARCH"
  | oversampleFilter => "OVERSAMPLE_FILTER"

theorem ofNumber?_number (strategy : Strategy) : ofNumber? strategy.number = some strategy := by
  cases strategy <;> rfl

end Strategy

end VectorSearch

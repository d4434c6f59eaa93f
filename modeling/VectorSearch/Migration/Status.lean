/-!
The life of a migration: it waits, runs, and ends in one of three ways.
-/

namespace VectorSearch

inductive MigrationStatus where
  | pending
  | running
  | completed
  | failed
  | cancelled
  deriving DecidableEq, Repr, Inhabited

namespace MigrationStatus

def all : List MigrationStatus := [pending, running, completed, failed, cancelled]

def number : MigrationStatus → Nat
  | pending => 0
  | running => 1
  | completed => 2
  | failed => 3
  | cancelled => 4

def ofNumber? : Nat → Option MigrationStatus
  | 0 => some pending
  | 1 => some running
  | 2 => some completed
  | 3 => some failed
  | 4 => some cancelled
  | _ => none

def name : MigrationStatus → String
  | pending => "PENDING"
  | running => "RUNNING"
  | completed => "COMPLETED"
  | failed => "FAILED"
  | cancelled => "CANCELLED"

def label : MigrationStatus → String
  | pending => "Pending"
  | running => "Running"
  | completed => "Completed"
  | failed => "Failed"
  | cancelled => "Cancelled"

def isTerminal : MigrationStatus → Bool
  | pending | running => false
  | completed | failed | cancelled => true

theorem ofNumber?_number (status : MigrationStatus) :
    ofNumber? status.number = some status := by
  cases status <;> rfl

end MigrationStatus

end VectorSearch

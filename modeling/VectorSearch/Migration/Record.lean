import VectorSearch.Count
import VectorSearch.Index
import VectorSearch.Migration.Status
import VectorSearch.Text.Bounded
/-!
The record of a migration: what its worker publishes and what its owner can see.
-/

namespace VectorSearch

structure MigrationRecord where
  status : MigrationStatus := .pending
  progress : Float := 0
  migrated : Nat := 0
  total : Nat
  startTime : Nat := 0
  elapsed : Nat := 0
  message : String := ""
  index : Option Index := none

structure MigrationInfo where
  status : MigrationStatus
  progress : Float
  migrated : Nat
  total : Nat
  startTime : Nat
  elapsed : Nat
  message : String

inductive MigrationEnding where
  | completed (index : Index)
  | cancelled
  | failed (message : String)

def MigrationEnding.status : MigrationEnding → MigrationStatus
  | completed _ => .completed
  | cancelled => .cancelled
  | failed _ => .failed

namespace MigrationRecord

def runningCap : Float := 0.98

/-- The share of rows that are added, kept below what only completion shows. -/
def shareOf (migrated total : Nat) : Float :=
  let share := Count.toFloat migrated / Count.toFloat (max total 1)
  if share < runningCap then share else runningCap

def info (record : MigrationRecord) : MigrationInfo where
  status := record.status
  progress := record.progress
  migrated := record.migrated
  total := record.total
  startTime := record.startTime
  elapsed := record.elapsed
  message := record.message

def begin (record : MigrationRecord) : MigrationRecord := { record with status := .running }

/-- The record after a report of progress, which never falls. -/
def report (record : MigrationRecord) (migrated : Nat) (elapsed : Nat := 0) : MigrationRecord :=
  let share := shareOf migrated record.total
  { record with
    migrated
    progress := if record.progress < share then share else record.progress
    elapsed := Count.saturate elapsed }

def conclude (record : MigrationRecord) (ending : MigrationEnding) (elapsed : Nat := 0) :
    MigrationRecord :=
  let published := { record with status := ending.status, elapsed := Count.saturate elapsed }
  match ending with
  | .completed index =>
    { published with progress := 1, migrated := record.total, index := some index }
  | .cancelled => { published with message := "" }
  | .failed message => { published with message := Text.boundedMessage message }

end MigrationRecord

end VectorSearch

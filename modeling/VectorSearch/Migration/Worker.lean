import VectorSearch.Migration.Builder
import VectorSearch.Migration.Job
import VectorSearch.Migration.Record
/-!
Migrations and their workers. A worker moves in small steps, so that what its owner does may fall
between any two of them: it looks for a request to stop before it trains the index and before each
row, and it reports its progress after each batch.
-/

namespace VectorSearch

inductive Phase (β : Type) where
  | waiting
  | creating
  | beforeTraining (construction : Construction β)
  | training (construction : Construction β)
  | beforeRow (construction : Construction β) (position : Nat)
  | inserting (construction : Construction β) (position : Nat)
  | reporting (construction : Construction β) (position : Nat)
  | stopping (position : Nat)
  | reportingAll (construction : Construction β)
  | finishing (construction : Construction β)
  | concluding (ending : MigrationEnding)
  | ended

structure Migration (β : Type) where
  job : Job
  registry : Registry β
  record : MigrationRecord
  cancelRequested : Bool
  phase : Phase β

namespace Migration

variable {β : Type}

def start (job : Job) (registry : Registry β) (startTime : Nat := 0) :
    Except Failure (Migration β) := do
  job.check
  return {
    job
    registry
    record := { total := job.count, startTime := Count.saturate startTime }
    cancelRequested := false
    phase := .waiting }

/-- The phase after an answer of a builder. A builder that stopped ends the migration. -/
def phaseAfter {α : Type} (next : α → Phase β) : Built α → Phase β
  | .ok answer => next answer
  | .error error => .concluding (.failed error.message)

def turnTo (job : Job) (construction : Construction β) (position : Nat) : Phase β :=
  if position < job.rowCount then .beforeRow construction position
  else .reportingAll construction

/-- The phase after creation. An index over no rows is not trained. -/
def afterCreation (job : Job) (construction : Construction β) : Phase β :=
  if construction.needsTraining && job.size ≠ 0 then .beforeTraining construction
  else turnTo job construction 0

def afterRow (job : Job) (position : Nat) (construction : Construction β) : Phase β :=
  if (position + 1) % job.reportEvery = 0 then .reporting construction (position + 1)
  else turnTo job construction (position + 1)

def step (migration : Migration β) (elapsed : Nat := 0) : Migration β :=
  let job := migration.job
  match migration.phase with
  | .waiting => { migration with record := migration.record.begin, phase := .creating }
  | .creating =>
    { migration with
      phase := phaseAfter (afterCreation job)
        (migration.registry.create job.kind job.dimension job.settings) }
  | .beforeTraining construction =>
    { migration with
      phase := if migration.cancelRequested then .concluding .cancelled
        else .training construction }
  | .training construction =>
    { migration with
      phase := phaseAfter (turnTo job · 0) (construction.train job.content) }
  | .beforeRow construction position =>
    { migration with
      phase := if migration.cancelRequested then .stopping position
        else .inserting construction position }
  | .inserting construction position =>
    { migration with
      phase := phaseAfter (afterRow job position)
        (construction.insert position (job.row position)) }
  | .reporting construction position =>
    { migration with
      record := migration.record.report position elapsed
      phase := turnTo job construction position }
  | .stopping position =>
    { migration with
      record := migration.record.report position elapsed
      phase := .concluding .cancelled }
  | .reportingAll construction =>
    { migration with
      record := migration.record.report job.count elapsed
      phase := .finishing construction }
  | .finishing construction =>
    { migration with
      phase := phaseAfter (fun index => .concluding (.completed index)) construction.finish }
  | .concluding ending =>
    { migration with record := migration.record.conclude ending elapsed, phase := .ended }
  | .ended => migration

def steps : (count : Nat) → Migration β → Migration β
  | 0, migration => migration
  | count + 1, migration => steps count migration.step

/-- A number of steps that is enough for a worker to end: three for each row, and those before the
first and after the last. -/
def enoughSteps (migration : Migration β) : Nat := 3 * migration.job.rowCount + 8

def run (migration : Migration β) : Migration β := migration.steps migration.enoughSteps

def cancel (migration : Migration β) : Except Failure (Migration β) :=
  if migration.record.status.isTerminal then
    .error (.notApplicable ("migration already " ++ migration.record.status.name))
  else .ok { migration with cancelRequested := true }

def outcome? (migration : Migration β) : Option (Except Failure Unit) :=
  match migration.record.status with
  | .pending | .running => none
  | .completed => some (.ok ())
  | .failed | .cancelled => some (.error (.migrationEnded migration.record.status))

def takeIndex (migration : Migration β) : Option Index × Migration β :=
  if migration.record.status = .completed then
    (migration.record.index, { migration with record := { migration.record with index := none } })
  else (none, migration)

end Migration

end VectorSearch

import VectorSearch.Migration.Worker
/-!
The life of a migration among its worker and its owners. They take turns in any order, and whoever
has the turn is alone with the record.
-/

namespace VectorSearch

inductive MigrationTurn where
  | work (elapsed : Nat)
  | info
  | cancel
  | wait
  | takeIndex
  | release

namespace Migration

variable {β : Type}

def info (migration : Migration β) : MigrationInfo := migration.record.info

def release (migration : Migration β) : Migration β :=
  if migration.record.status.isTerminal then migration
  else { migration with cancelRequested := true }

/-- The migration after a turn. Looking at it changes nothing, and neither does waiting, which goes
on until it has ended. -/
def turn (migration : Migration β) : MigrationTurn → Migration β
  | .work elapsed => migration.step elapsed
  | .info | .wait => migration
  | .cancel =>
    match migration.cancel with
    | .ok next => next
    | .error _ => migration
  | .takeIndex => migration.takeIndex.2
  | .release => migration.release

def turns (migration : Migration β) (taken : List MigrationTurn) : Migration β :=
  taken.foldl turn migration

theorem turns_append (migration : Migration β) (taken more : List MigrationTurn) :
    migration.turns (taken ++ more) = (migration.turns taken).turns more :=
  List.foldl_append

end Migration

end VectorSearch

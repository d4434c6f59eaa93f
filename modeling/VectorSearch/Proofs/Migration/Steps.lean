import VectorSearch.Proofs.Migration.History
/-!
The steps of a worker. Whatever its builder answers, a worker can only come to a few phases from
each one; invariants of migrations are kept because each of these moves keeps them.
-/

namespace VectorSearch

variable {β : Type}

/-- What a worker can come to in one step, and how many rows are added in it. -/
inductive Phase.Moves (job : Job) (requested : Bool) : Phase β → Nat → Phase β → Prop
  | begin : Moves job requested .waiting 0 .creating
  | notMade (message : String) : Moves job requested .creating 0 (.concluding (.failed message))
  | made (construction : Construction β) (some : job.size ≠ 0) :
    Moves job requested .creating 0 (.beforeTraining construction)
  | madeForRows (construction : Construction β) (left : 0 < job.rowCount) :
    Moves job requested .creating 0 (.beforeRow construction 0)
  | madeForNone (construction : Construction β) (none : job.rowCount = 0) :
    Moves job requested .creating 0 (.reportingAll construction)
  | stopTraining (construction : Construction β) (asked : requested = true) :
    Moves job requested (.beforeTraining construction) 0 (.concluding .cancelled)
  | train (construction : Construction β) (unasked : requested = false) :
    Moves job requested (.beforeTraining construction) 0 (.training construction)
  | notTrained (construction : Construction β) (message : String) :
    Moves job requested (.training construction) 0 (.concluding (.failed message))
  | trained (construction next : Construction β) (left : 0 < job.rowCount) :
    Moves job requested (.training construction) 0 (.beforeRow next 0)
  | trainedForNone (construction next : Construction β) (none : job.rowCount = 0) :
    Moves job requested (.training construction) 0 (.reportingAll next)
  | stopRow (construction : Construction β) (position : Nat) (asked : requested = true) :
    Moves job requested (.beforeRow construction position) 0 (.stopping position)
  | insert (construction : Construction β) (position : Nat) (unasked : requested = false) :
    Moves job requested (.beforeRow construction position) 0 (.inserting construction position)
  | notInserted (construction : Construction β) (position : Nat) (message : String) :
    Moves job requested (.inserting construction position) 0 (.concluding (.failed message))
  | filled (construction next : Construction β) (position : Nat)
    (full : job.reportEvery ∣ position + 1) :
    Moves job requested (.inserting construction position) 1 (.reporting next (position + 1))
  | inserted (construction next : Construction β) (position : Nat)
    (short : ¬ job.reportEvery ∣ position + 1) (left : position + 1 < job.rowCount) :
    Moves job requested (.inserting construction position) 1 (.beforeRow next (position + 1))
  | insertedLast (construction next : Construction β) (position : Nat)
    (short : ¬ job.reportEvery ∣ position + 1) (none : job.rowCount ≤ position + 1) :
    Moves job requested (.inserting construction position) 1 (.reportingAll next)
  | reported (construction : Construction β) (position : Nat) (left : position < job.rowCount) :
    Moves job requested (.reporting construction position) 0 (.beforeRow construction position)
  | reportedLast (construction : Construction β) (position : Nat)
    (none : job.rowCount ≤ position) :
    Moves job requested (.reporting construction position) 0 (.reportingAll construction)
  | stopped (position : Nat) : Moves job requested (.stopping position) 0 (.concluding .cancelled)
  | reportedAll (construction : Construction β) :
    Moves job requested (.reportingAll construction) 0 (.finishing construction)
  | notFinished (construction : Construction β) (message : String) :
    Moves job requested (.finishing construction) 0 (.concluding (.failed message))
  | finished (construction : Construction β) (index : Index) :
    Moves job requested (.finishing construction) 0 (.concluding (.completed index))
  | conclude (ending : MigrationEnding) : Moves job requested (.concluding ending) 0 .ended
  | rest : Moves job requested .ended 0 .ended

def Phase.published (job : Job) (record : MigrationRecord) (elapsed : Nat) :
    Phase β → MigrationRecord
  | .waiting => record.begin
  | .reporting _ position | .stopping position => record.report position elapsed
  | .reportingAll _ => record.report job.count elapsed
  | .concluding ending => record.conclude ending elapsed
  | _ => record

namespace Migration

theorem record_step (migration : Migration β) (elapsed : Nat) :
    (migration.step elapsed).record =
      migration.phase.published migration.job migration.record elapsed := by
  unfold step
  cases migration.phase <;> rfl

theorem moves_step (migration : Migration β) (elapsed : Nat) :
    migration.phase.Moves migration.job migration.cancelRequested
      ((migration.callsOf (.work elapsed)).countP BuilderCall.addsRow)
      (migration.step elapsed).phase := by
  simp only [Migration.step, callsOf, nextCall?]
  cases place : migration.phase with
    simp only [Option.toList_none, Option.toList_some, List.countP_nil, List.countP_singleton,
      BuilderCall.addsRow, Bool.false_eq_true, if_false]
  | waiting => exact .begin
  | creating =>
      cases migration.registry.create migration.job.kind migration.job.dimension
        migration.job.settings with
      | error error => exact .notMade error.message
      | ok construction =>
          simp only [phaseAfter, afterCreation, turnTo]
          split
          · rename_i trains
            exact .made construction (of_decide_eq_true (Bool.and_eq_true _ _ |>.mp trains).2)
          · split
            · exact .madeForRows construction ‹_›
            · exact .madeForNone construction (by omega)
  | beforeTraining construction =>
      split
      · exact .stopTraining construction ‹_›
      · exact .train construction (eq_false_of_ne_true ‹_›)
  | training construction =>
      cases construction.train migration.job.content with
      | error error => exact .notTrained construction error.message
      | ok next =>
          simp only [phaseAfter, turnTo]
          split
          · exact .trained construction next ‹_›
          · exact .trainedForNone construction next (by omega)
  | beforeRow construction position =>
      split
      · exact .stopRow construction position ‹_›
      · exact .insert construction position (eq_false_of_ne_true ‹_›)
  | inserting construction position =>
      cases construction.insert position (migration.job.row position) with
      | error error => exact .notInserted construction position error.message
      | ok next =>
          simp only [phaseAfter, afterRow, turnTo, Except.isOk, Except.toBool, if_true]
          split
          · exact .filled construction next position (Nat.dvd_of_mod_eq_zero ‹_›)
          · rename_i partly
            have short : ¬ migration.job.reportEvery ∣ position + 1 := fun full =>
              partly (Nat.mod_eq_zero_of_dvd full)
            split
            · exact .inserted construction next position short ‹_›
            · exact .insertedLast construction next position short (by omega)
  | reporting construction position =>
      simp only [turnTo]
      split
      · exact .reported construction position ‹_›
      · exact .reportedLast construction position (by omega)
  | stopping position => exact .stopped position
  | reportingAll construction => exact .reportedAll construction
  | finishing construction =>
      cases construction.finish with
      | error error => exact .notFinished construction error.message
      | ok index => exact .finished construction index
  | concluding ending => exact .conclude ending
  | ended => rw [place]; exact .rest

end Migration

end VectorSearch

import VectorSearch.Proofs.Migration.Steps
/-!
The end of a migration. A worker that goes on ends, whatever its builder does: each of its steps
takes it nearer to its end, and its owners cannot keep it.
-/

namespace VectorSearch

variable {β : Type}

/-- A bound on the steps of a worker until it has ended. -/
def Phase.stepsLeft (job : Job) : Phase β → Nat
  | .waiting => 3 * job.rowCount + 7
  | .creating => 3 * job.rowCount + 6
  | .beforeTraining _ => 3 * job.rowCount + 5
  | .training _ => 3 * job.rowCount + 4
  | .beforeRow _ position => 3 * (job.rowCount - position) + 3
  | .inserting _ position => 3 * (job.rowCount - position) + 2
  | .reporting _ position => 3 * (job.rowCount - position) + 4
  | .reportingAll _ => 3
  | .stopping _ | .finishing _ => 2
  | .concluding _ => 1
  | .ended => 0

theorem Phase.Moves.stepsLeft_le {job : Job} {requested : Bool} {rows : Nat}
    {before after : Phase β}
    (moves : before.Moves job requested rows after) {record : MigrationRecord}
    (fits : before.Fits record) (total : job.rowCount = record.total) :
    after.stepsLeft job ≤ before.stepsLeft job - 1 := by
  -- That a row is still there when it is inserted is known from the record only.
  cases moves <;> simp only [Phase.stepsLeft, Phase.Fits] at fits ⊢ <;> omega

namespace Migration

variable {migration begun : Migration β} {job : Job}

theorem Consistent.stepsLeft_turns (consistent : migration.Consistent)
    (taken : List MigrationTurn) :
    (migration.turns taken).phase.stepsLeft migration.job ≤
      migration.phase.stepsLeft migration.job - taken.countP isWork := by
  induction taken generalizing migration with
  | nil => simp
  | cons first rest ih =>
      have later := ih (consistent.turn first).consistent
      rw [job_turn] at later
      rw [turns_cons]
      rcases work_or_owner first with ⟨elapsed, rfl⟩ | owner
      · have one : (migration.turn (.work elapsed)).phase.stepsLeft migration.job ≤
            migration.phase.stepsLeft migration.job - 1 :=
          (migration.moves_step elapsed).stepsLeft_le consistent.fits consistent.rows
        rw [List.countP_cons_of_pos rfl]
        omega
      · rw [List.countP_cons_of_neg (by simp [owner])]
        rw [migration.turn_of_owner owner] at later ⊢
        exact later

theorem Consistent.ended (consistent : migration.Consistent)
    (terminal : migration.record.status.isTerminal = true) : migration.phase = .ended := by
  have fits := consistent.fits
  cases place : migration.phase <;> rw [place] at fits <;>
    simp_all [Phase.Fits, MigrationStatus.isTerminal]

theorem terminal_of_enoughSteps {registry : Registry β} {startTime : Nat}
    (accepted : start job registry startTime = .ok begun) {taken : List MigrationTurn}
    (enough : begun.enoughSteps ≤ taken.countP isWork) :
    (begun.turns taken).record.status.isTerminal = true := by
  have consistent := Consistent.start accepted
  have fits := (consistent.turns taken).1.fits
  have left := consistent.stepsLeft_turns taken
  have fresh : begun.phase = .waiting := by
    obtain ⟨_, rfl⟩ := start_eq_ok accepted
    rfl
  rw [fresh, Phase.stepsLeft] at left
  unfold enoughSteps at enough
  have none : (begun.turns taken).phase.stepsLeft begun.job = 0 := by omega
  cases place : (begun.turns taken).phase with
    rw [place] at none fits
  | ended => exact fits
  | _ => simp [Phase.stepsLeft] at none

end Migration

end VectorSearch

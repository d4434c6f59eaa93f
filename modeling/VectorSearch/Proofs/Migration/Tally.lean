import VectorSearch.Proofs.Migration.Ending
/-!
The number of rows that a migration shows. The worker reports whole batches, and all rows after the
last one; on its way to a stop it also reports the rows of a batch that is not full. A builder that
gives up leaves such a batch unreported.
-/

namespace VectorSearch

namespace Job

/-- What a record shows of some added rows without a report at a stop. -/
def reported (job : Job) (rows : Nat) : Nat :=
  if rows = job.count then rows else rows / job.reportEvery * job.reportEvery

theorem reported_zero (job : Job) : job.reported 0 = 0 := by
  simp [reported]

theorem reported_count (job : Job) : job.reported job.count = job.count := by
  simp [reported]

theorem reported_eq_iff (job : Job) (rows : Nat) :
    job.reported rows = rows ↔ rows = job.count ∨ job.reportEvery ∣ rows := by
  unfold reported
  split
  · simp [*]
  · rename_i short
    simp only [short, false_or]
    constructor
    · intro whole
      rw [← whole]
      exact Nat.dvd_mul_left _ _
    · exact Nat.div_mul_cancel

theorem reported_succ {job : Job} {rows : Nat} (inside : rows + 1 < job.count)
    (short : ¬ job.reportEvery ∣ rows + 1) : job.reported (rows + 1) = job.reported rows := by
  have now : rows + 1 ≠ job.count := by omega
  have before : rows ≠ job.count := by omega
  simp [reported, now, before, Nat.succ_div_of_not_dvd short]

end Job

variable {β : Type}

structure MigrationStatus.Tallies (status : MigrationStatus) (job : Job) (requested : Bool)
    (rows shown : Nat) : Prop where
  cancelled : status = .cancelled → requested = true ∧ shown = rows
  failed : status = .failed → shown = job.reported rows

variable {job : Job} {record : MigrationRecord} {requested : Bool} {rows : Nat}

theorem MigrationStatus.Tallies.of_failed {shown : Nat} (reported : shown = job.reported rows) :
    MigrationStatus.failed.Tallies job requested rows shown :=
  ⟨nofun, fun _ => reported⟩

theorem MigrationStatus.Tallies.asked_more {status : MigrationStatus} {shown : Nat}
    (tallies : status.Tallies job requested rows shown) (more : Bool) :
    status.Tallies job (requested || more) rows shown where
  cancelled same := ⟨by simp [(tallies.cancelled same).1], (tallies.cancelled same).2⟩
  failed := tallies.failed

def Phase.Tallies (job : Job) (record : MigrationRecord) (requested : Bool) (rows : Nat) :
    Phase β → Prop
  | .waiting | .creating | .beforeTraining _ | .training _ => rows = 0 ∧ record.migrated = 0
  | .beforeRow _ position | .inserting _ position =>
    rows = position ∧ position < job.count ∧ record.migrated = job.reported position
  | .reporting _ position =>
    rows = position ∧ position ≤ job.count ∧ job.reportEvery ∣ position
  | .stopping position => rows = position ∧ requested = true
  | .reportingAll _ => rows = job.count
  | .finishing _ => rows = job.count ∧ record.migrated = job.count
  | .concluding ending => ending.status.Tallies job requested rows record.migrated
  | .ended => record.status.Tallies job requested rows record.migrated

theorem Phase.Moves.tallies {added : Nat} {before after : Phase β}
    (moves : before.Moves job requested added after) (whole : job.rowCount = job.count)
    (tallies : before.Tallies job record requested rows) (elapsed : Nat) :
    after.Tallies job (before.published job record elapsed) requested (rows + added) := by
  cases moves with
  | begin | made | train | insert | rest => exact tallies
  | notMade message | notTrained construction message =>
      obtain ⟨rfl, none⟩ := tallies
      exact .of_failed (none.trans job.reported_zero.symm)
  | madeForRows construction left | trained construction next left =>
      obtain ⟨rfl, none⟩ := tallies
      exact ⟨rfl, whole ▸ left, none.trans job.reported_zero.symm⟩
  | madeForNone construction empty | trainedForNone construction next empty =>
      obtain ⟨rfl, none⟩ := tallies
      exact (whole.symm.trans empty).symm
  | stopTraining construction asked =>
      obtain ⟨rfl, none⟩ := tallies
      exact ⟨fun _ => ⟨asked, none⟩, nofun⟩
  | stopRow construction position asked => exact ⟨tallies.1, asked⟩
  | notInserted construction position message =>
      obtain ⟨rfl, _, reported⟩ := tallies
      exact .of_failed reported
  | filled construction next position full =>
      obtain ⟨rfl, inside, _⟩ := tallies
      exact ⟨rfl, inside, full⟩
  | inserted construction next position short left =>
      obtain ⟨rfl, _, reported⟩ := tallies
      rw [whole] at left
      exact ⟨rfl, left, reported.trans (Job.reported_succ left short).symm⟩
  | insertedLast construction next position short none =>
      obtain ⟨rfl, inside, _⟩ := tallies
      simp only [Phase.Tallies]
      omega
  | reported construction position left =>
      obtain ⟨rfl, _, full⟩ := tallies
      exact ⟨rfl, whole ▸ left, ((Job.reported_eq_iff _ _).mpr (.inr full)).symm⟩
  | reportedLast construction position none =>
      obtain ⟨rfl, inside, _⟩ := tallies
      simp only [Phase.Tallies]
      omega
  | stopped position =>
      obtain ⟨rfl, asked⟩ := tallies
      exact ⟨fun _ => ⟨asked, rfl⟩, nofun⟩
  | reportedAll construction => exact ⟨tallies, rfl⟩
  | notFinished construction message =>
      obtain ⟨rfl, all⟩ := tallies
      exact .of_failed (all.trans job.reported_count.symm)
  | finished construction index => exact ⟨nofun, nofun⟩
  | conclude ending =>
      cases ending with
      | completed index => exact ⟨nofun, nofun⟩
      | cancelled | failed message => exact tallies

namespace Migration

variable {migration begun : Migration β} {job : Job} {rows : Nat}

def Tallied (migration : Migration β) (rows : Nat) : Prop :=
  migration.phase.Tallies migration.job migration.record migration.cancelRequested rows

theorem Tallied.step (tallied : migration.Tallied rows)
    (whole : migration.job.rowCount = migration.job.count) (elapsed : Nat) :
    (migration.step elapsed).Tallied
      (rows + (migration.callsOf (.work elapsed)).countP BuilderCall.addsRow) := by
  have ⟨job, _, requested⟩ := migration.step_same elapsed
  unfold Tallied
  rw [job, requested, record_step]
  exact (migration.moves_step elapsed).tallies whole tallied elapsed

theorem Tallied.turn (tallied : migration.Tallied rows)
    (whole : migration.job.rowCount = migration.job.count) (turn : MigrationTurn) :
    (migration.turn turn).Tallied
      (rows + (migration.callsOf turn).countP BuilderCall.addsRow) := by
  rcases work_or_owner turn with ⟨elapsed, rfl⟩ | owner
  · exact tallied.step whole elapsed
  · rw [migration.turn_of_owner owner, callsOf_of_owner _ owner]
    unfold Tallied at *
    cases place : migration.phase with rw [place] at tallied
    | stopping position => exact ⟨tallied.1, by simp [tallied.2]⟩
    | concluding ending => exact tallied.asked_more _
    | ended => exact tallied.asked_more _
    | _ => exact tallied

theorem tallied_turns {registry : Registry β} {startTime : Nat}
    (accepted : start job registry startTime = .ok begun) (taken : List MigrationTurn) :
    (begun.turns taken).Tallied (begun.rowsAdded taken) := by
  have consistent := Consistent.start accepted
  have whole : begun.job.rowCount = begun.job.count := consistent.rows.trans consistent.count
  induction taken using List.reverseRecOn with
  | nil =>
      obtain ⟨_, rfl⟩ := start_eq_ok accepted
      exact ⟨rfl, rfl⟩
  | append_singleton taken last ih =>
      rw [turns_concat, rowsAdded_concat]
      exact ih.turn (by simpa using whole) last

theorem tallies_at_end {registry : Registry β} {startTime : Nat}
    (accepted : start job registry startTime = .ok begun) (taken : List MigrationTurn)
    (terminal : (begun.turns taken).record.status.isTerminal = true) :
    (begun.turns taken).record.status.Tallies job (begun.turns taken).cancelRequested
      (begun.rowsAdded taken) (begun.turns taken).record.migrated := by
  have tallied := tallied_turns accepted taken
  have place := ((Consistent.start accepted).turns taken).1.ended terminal
  obtain ⟨_, rfl⟩ := start_eq_ok accepted
  rw [Tallied, place] at tallied
  simpa [Phase.Tallies] using tallied

/-- A migration that failed, at whatever point, shows all rows that were added only if they fill
whole batches or none is left; otherwise it shows the whole batches. -/
theorem migrated_of_failed (job : Job) (registry : Registry β) (startTime : Nat)
    (begun : Migration β) (accepted : start job registry startTime = .ok begun)
    (taken : List MigrationTurn) (failed : (begun.turns taken).info.status = .failed) :
    let rows := begun.rowsAdded taken
    let shown := (begun.turns taken).info.migrated
    shown = (if rows = job.count then rows else rows / job.reportEvery * job.reportEvery) ∧
    (shown = rows ↔ rows = job.count ∨ job.reportEvery ∣ rows) := by
  intro rows shown
  have terminal : (begun.turns taken).record.status.isTerminal = true :=
    congrArg MigrationStatus.isTerminal failed
  have reported : shown = job.reported rows :=
    (tallies_at_end accepted taken terminal).failed failed
  refine ⟨reported, ?_⟩
  rw [reported]
  exact job.reported_eq_iff rows

end Migration

def Builder.refusing (builder : Builder β) (refused : VectorId) : Builder β where
  create := builder.create
  needsTraining := builder.needsTraining
  train := builder.train
  insert work id row :=
    if id = refused then .error (.refused (.buildFailed "row refused"))
    else builder.insert work id row
  finish := builder.finish

namespace Migration

theorem migrated_of_failed_batch :
    let job : Job := ⟨some #[0, 1, 2, 3], 4, 1, .flat, {}, 2⟩
    let registry := Registry.standard.register .flat ((Builder.standard .flat).refusing 3)
    let begun : Migration Index := ⟨job, registry, { total := 4 }, false, .waiting⟩
    let taken := List.replicate 12 (MigrationTurn.work 0)
    start job registry 0 = .ok begun ∧ (begun.turns taken).info.status = .failed ∧
      begun.rowsAdded taken = 3 ∧ job.reportEvery = 2 ∧ (begun.turns taken).info.migrated = 2 := by
  intro job registry begun taken
  have accepted : start job registry 0 = .ok begun := rfl
  have failed : (begun.turns taken).info.status = .failed := by decide +kernel
  have rows : begun.rowsAdded taken = 3 := by decide +kernel
  have every : job.reportEvery = 2 := rfl
  refine ⟨accepted, failed, rows, every, ?_⟩
  rw [(migrated_of_failed job registry 0 begun accepted taken failed).1, rows, every]
  decide

theorem not_forall_failed_migrated_eq :
    ¬ ∀ (job : Job) (registry : Registry Index) (startTime : Nat) (begun : Migration Index)
      (taken : List MigrationTurn), start job registry startTime = .ok begun →
      (begun.turns taken).info.status = .failed →
      (begun.turns taken).info.migrated = begun.rowsAdded taken := by
  intro exact
  have same := exact ⟨some #[0, 1, 2, 3], 4, 1, .flat, {}, 2⟩
    (Registry.standard.register .flat ((Builder.standard .flat).refusing 3)) 0 _
    (List.replicate 12 (.work 0)) rfl (by decide +kernel)
  exact absurd same (by decide +kernel)

end Migration

end VectorSearch

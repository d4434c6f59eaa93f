import VectorSearch.Proofs.Migration.Tally
/-!
Requests to stop. A worker that is asked to stop makes at most one more call on its builder, and it
does not complete if it looks for a request once more; if it does not look, the request is as good
as never made.
-/

namespace VectorSearch

variable {β : Type}

namespace Phase

def ChecksAgain (job : Job) : Phase β → Prop
  | .waiting | .creating | .training _ => 0 < job.rowCount
  | .beforeTraining _ | .beforeRow _ _ => True
  | .inserting _ position => position + 1 < job.rowCount
  | .reporting _ position => position < job.rowCount
  | .stopping _ | .reportingAll _ | .finishing _ | .concluding _ | .ended => False

instance (job : Job) : (phase : Phase β) → Decidable (phase.ChecksAgain job)
  | .waiting | .creating | .training _ => inferInstanceAs (Decidable (0 < job.rowCount))
  | .beforeTraining _ | .beforeRow _ _ => inferInstanceAs (Decidable True)
  | .inserting _ position => inferInstanceAs (Decidable (position + 1 < job.rowCount))
  | .reporting _ position => inferInstanceAs (Decidable (position < job.rowCount))
  | .stopping _ | .reportingAll _ | .finishing _ | .concluding _ | .ended =>
    inferInstanceAs (Decidable False)

/-- The worker is on a way that cannot end in completion once it is asked to stop. -/
def Barred (job : Job) : Phase β → Prop
  | .stopping _ | .concluding .cancelled | .concluding (.failed _) | .ended => True
  | phase => phase.ChecksAgain job

def callsLeft : Phase β → Nat
  | .training _ | .inserting _ _ => 1
  | _ => 0

variable {job : Job} {rows : Nat} {before after : Phase β}

theorem Moves.callsLeft_eq (moves : before.Moves job true rows after) : after.callsLeft = 0 := by
  cases moves with
  | train construction unasked | insert construction position unasked => exact nomatch unasked
  | _ => rfl

theorem Moves.barred (moves : before.Moves job true rows after) (barred : before.Barred job) :
    after.Barred job := by
  cases moves with
  | insertedLast construction next position short none => exact absurd barred (Nat.not_lt.mpr none)
  | reportedLast construction position none => exact absurd barred (Nat.not_lt.mpr none)
  | _ => simp_all [Barred, ChecksAgain]

theorem Moves.unchecked {requested : Bool} (moves : before.Moves job requested rows after)
    (size : job.rowCount = 0 → job.size = 0) (unchecked : ¬ before.ChecksAgain job) :
    ¬ after.ChecksAgain job := by
  cases moves <;> simp_all [ChecksAgain]

end Phase

namespace Migration

variable {migration begun : Migration β} {job : Job}

theorem moves_asked (asked : migration.cancelRequested = true) (elapsed : Nat) :
    migration.phase.Moves migration.job true
      ((migration.callsOf (.work elapsed)).countP BuilderCall.addsRow)
      (migration.step elapsed).phase :=
  asked ▸ migration.moves_step elapsed

/-! Calls after a request. -/

theorem length_callsOf_le (migration : Migration β) (turn : MigrationTurn) :
    (migration.callsOf turn).length ≤ migration.phase.callsLeft := by
  cases turn with
  | work elapsed =>
      simp only [callsOf, nextCall?]
      cases migration.phase <;> simp [Phase.callsLeft]
  | _ => simp [callsOf]

theorem length_calls_le (asked : migration.cancelRequested = true) (taken : List MigrationTurn) :
    (migration.calls taken).length ≤ migration.phase.callsLeft := by
  induction taken generalizing migration with
  | nil => simp [calls]
  | cons first rest ih =>
      have now := migration.length_callsOf_le first
      have later := @ih (migration.turn first) (by rw [cancelRequested_turn, asked, Bool.true_or])
      rw [calls, List.length_append]
      rcases work_or_owner first with ⟨elapsed, rfl⟩ | owner
      · have quiet : (migration.turn (.work elapsed)).phase.callsLeft = 0 :=
          (moves_asked asked elapsed).callsLeft_eq
        omega
      · rw [callsOf_of_owner _ owner]
        rw [migration.turn_of_owner owner] at later ⊢
        simpa using later

/-! Requests that are seen. -/

structure Stopping (migration : Migration β) : Prop where
  asked : migration.cancelRequested = true
  barred : migration.phase.Barred migration.job
  incomplete : migration.record.status ≠ .completed

theorem Stopping.step (stopping : migration.Stopping) (elapsed : Nat) :
    (migration.step elapsed).Stopping := by
  obtain ⟨asked, barred, incomplete⟩ := stopping
  have ⟨job, _, requested⟩ := migration.step_same elapsed
  refine ⟨requested.trans asked, job ▸ (moves_asked asked elapsed).barred barred, ?_⟩
  rw [record_step]
  cases place : migration.phase with
    rw [place] at barred
  | concluding ending =>
      cases ending with
      | completed index => exact barred.elim
      | cancelled | failed message =>
          simp [Phase.published, MigrationRecord.conclude, MigrationEnding.status]
  | waiting => simp [Phase.published, MigrationRecord.begin]
  | _ => exact incomplete

theorem Stopping.turns (stopping : migration.Stopping) (taken : List MigrationTurn) :
    (migration.turns taken).Stopping := by
  refine turns_induction (fun _ elapsed stopping => stopping.step elapsed) ?_ stopping taken
  intro migration index asked stopping
  exact ⟨by simp [stopping.asked], stopping.barred, stopping.incomplete⟩

/-! Requests that are not seen. -/

/-- A migration whose worker does not look for a request any more. -/
structure Deaf (migration : Migration β) : Prop where
  size : migration.job.rowCount = 0 → migration.job.size = 0
  unchecked : ¬ migration.phase.ChecksAgain migration.job

theorem Deaf.step (deaf : migration.Deaf) (elapsed : Nat) : (migration.step elapsed).Deaf := by
  have ⟨job, _, _⟩ := migration.step_same elapsed
  exact ⟨job ▸ deaf.size, job ▸ (migration.moves_step elapsed).unchecked deaf.size deaf.unchecked⟩

theorem Deaf.step_asked (deaf : migration.Deaf) (elapsed : Nat) :
    { migration with cancelRequested := true }.step elapsed =
      { migration.step elapsed with cancelRequested := true } := by
  have unchecked := deaf.unchecked
  obtain ⟨job, registry, record, requested, phase⟩ := migration
  cases phase with
  | beforeTraining construction | beforeRow construction position => exact absurd trivial unchecked
  | _ => rfl

theorem Deaf.turn_asked (deaf : migration.Deaf) (turn : MigrationTurn) :
    { migration with cancelRequested := true }.turn turn =
      { migration.turn turn with cancelRequested := true } := by
  cases turn with
  | work elapsed => exact deaf.step_asked elapsed
  | info | wait => rfl
  | cancel =>
      cases ended : migration.record.status.isTerminal with
      | true => simp [Migration.turn, cancel, ended]
      | false => simp [Migration.turn, cancel, ended]
  | takeIndex =>
      simp only [Migration.turn, takeIndex]
      split <;> rfl
  | release =>
      simp only [Migration.turn, release]
      split <;> rfl

theorem Deaf.turns_asked (deaf : migration.Deaf) (taken : List MigrationTurn) :
    { migration with cancelRequested := true }.turns taken =
      { migration.turns taken with cancelRequested := true } := by
  induction taken using List.reverseRecOn with
  | nil => rfl
  | append_singleton taken last ih =>
      have still : (migration.turns taken).Deaf :=
        turns_induction (fun _ elapsed deaf => deaf.step elapsed)
          (fun _ _ _ deaf => ⟨deaf.size, deaf.unchecked⟩) deaf taken
      rw [turns_concat, turns_concat, ih, still.turn_asked]

/-! Requests in a history. -/

theorem cancel_eq_ok {next : Migration β} (granted : migration.cancel = .ok next) :
    migration.record.status.isTerminal = false ∧
      next = { migration with cancelRequested := true } := by
  cases ended : migration.record.status.isTerminal with
  | true => simp [cancel_of_ended ended] at granted
  | false =>
      rw [cancel_of_open ended] at granted
      exact ⟨rfl, (Except.ok.inj granted).symm⟩

theorem cancel_refused_iff (migration : Migration β) :
    (∃ text, migration.cancel = .error (.notApplicable text)) ↔
      migration.record.status.isTerminal = true := by
  cases ended : migration.record.status.isTerminal with
  | true => simp [cancel_of_ended ended]
  | false => simp [cancel_of_open ended]

theorem Consistent.takeIndex_of_cancelled (consistent : migration.Consistent)
    (cancelled : migration.record.status = .cancelled) (taken : List MigrationTurn) :
    (migration.turns taken).takeIndex.1 = none := by
  have frozen := (consistent.turns taken).2.frozen (by simp [info, MigrationRecord.info, cancelled,
    MigrationStatus.isTerminal])
  have same : (migration.turns taken).record.status = .cancelled :=
    (congrArg MigrationInfo.status frozen).trans cancelled
  simp [takeIndex, same]

/-- A request to stop is refused just when the migration has ended, and then changes nothing. Only
after a request that was not refused does a migration end as cancelled; then it shows the number of
rows that were added, and never gives an index. After a request the worker makes at most one more
call on its builder; it does not complete if it looks for a request once more, and otherwise goes on
as if there were none. -/
theorem cancel_turns (job : Job) (registry : Registry β) (startTime : Nat) (begun : Migration β)
    (accepted : start job registry startTime = .ok begun) (taken : List MigrationTurn) :
    let now := begun.turns taken
    ((∃ text, now.cancel = .error (.notApplicable text)) ↔
      now.record.status.isTerminal = true) ∧
    (now.record.status.isTerminal = true → now.turn .cancel = now) ∧
    (∀ next, now.cancel = .ok next → ∀ more : List MigrationTurn,
      (next.calls more).length ≤ 1 ∧
      (now.phase.ChecksAgain job → (next.turns more).record.status ≠ .completed) ∧
      (¬ now.phase.ChecksAgain job →
        next.turns more = { now.turns more with cancelRequested := true })) ∧
    (now.record.status = .cancelled →
      begun.Happened (fun migration turn => migration.requests turn = true) taken ∧
      now.record.migrated = begun.rowsAdded taken ∧
      ∀ more : List MigrationTurn, (now.turns more).takeIndex.1 = none) := by
  intro now
  have consistent : now.Consistent := ((Consistent.start accepted).turns taken).1
  refine ⟨now.cancel_refused_iff, fun ended => ?_, fun next granted more => ?_, fun cancelled => ?_⟩
  · simp [turn, cancel_of_ended ended]
  · obtain ⟨unended, rfl⟩ := cancel_eq_ok granted
    obtain ⟨checked, rfl⟩ := start_eq_ok accepted
    have sameJob : now.job = job := by simp [now]
    refine ⟨?_, fun again => ?_, fun unchecked => ?_⟩
    · have left : now.phase.callsLeft ≤ 1 := by
        cases now.phase <;> simp [Phase.callsLeft]
      exact (length_calls_le rfl more).trans left
    · have incomplete : now.record.status ≠ .completed := by
        intro complete
        simp [complete, MigrationStatus.isTerminal] at unended
      have barred : now.phase.Barred now.job := by
        rw [sameJob]
        cases place : now.phase <;> rw [place] at again <;>
          first | exact again | exact again.elim
      have stopping : { now with cancelRequested := true }.Stopping := ⟨rfl, barred, incomplete⟩
      exact (stopping.turns more).incomplete
    · have deaf : now.Deaf := by
        refine ⟨fun none => ?_, sameJob ▸ unchecked⟩
        rw [sameJob, Job.rowCount_eq checked] at none
        simp [sameJob, Job.size, none]
      exact deaf.turns_asked more
  · have terminal : now.record.status.isTerminal = true := by
      simp [cancelled, MigrationStatus.isTerminal]
    obtain ⟨asked, shown⟩ := (tallies_at_end accepted taken terminal).cancelled cancelled
    have fresh : begun.cancelRequested = false := by
      obtain ⟨_, rfl⟩ := start_eq_ok accepted
      rfl
    exact ⟨(cancelRequested_turns fresh taken).mp asked, shown,
      consistent.takeIndex_of_cancelled cancelled⟩

theorem cancel_turns_first :
    let job : Job := ⟨some #[1, 2], 2, 1, .flat, {}, 1⟩
    let begun : Migration Index := ⟨job, .standard, { total := 2 }, false, .waiting⟩
    let taken := List.replicate 3 (MigrationTurn.work 0)
    let more := List.replicate 6 (MigrationTurn.work 0)
    let all := taken ++ MigrationTurn.cancel :: more
    start job .standard 0 = .ok begun ∧
    (∃ next, (begun.turns taken).cancel = .ok next ∧ (next.calls more).length ≤ 1) ∧
    (begun.turns taken).phase.ChecksAgain job ∧
    (begun.turns all).record.status = .cancelled ∧
    (begun.turns all).turn .cancel = begun.turns all ∧
    (begun.turns all).record.migrated = 1 := by
  intro job begun taken more all
  have accepted : start job .standard 0 = .ok begun := rfl
  have unended : (begun.turns taken).record.status.isTerminal = false := by decide +kernel
  have again : (begun.turns taken).phase.ChecksAgain job := by decide +kernel
  have cancelled : (begun.turns all).record.status = .cancelled := by decide +kernel
  have rows : begun.rowsAdded all = 1 := by decide +kernel
  obtain ⟨_, _, request, _⟩ := cancel_turns job .standard 0 begun accepted taken
  obtain ⟨_, still, _, ended⟩ := cancel_turns job .standard 0 begun accepted all
  have granted := cancel_of_open unended
  refine ⟨accepted, ⟨_, granted, (request _ granted more).1⟩, again, cancelled, still ?_, ?_⟩
  · simp [cancelled, MigrationStatus.isTerminal]
  · rw [(ended cancelled).2.1, rows]

end Migration

end VectorSearch

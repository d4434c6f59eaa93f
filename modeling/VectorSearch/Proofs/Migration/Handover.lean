import VectorSearch.Proofs.Migration.Steps
/-!
The hand-over of the index. A migration that completes holds its index for the first who asks, and
has nothing to give before and after.
-/

namespace VectorSearch

/-- The index is held from completion on until it was claimed. -/
structure MigrationRecord.Holds (record : MigrationRecord) (claimed : Prop) : Prop where
  held_iff : record.index.isSome = true ↔ record.status = .completed ∧ ¬ claimed
  afterwards : claimed → record.status = .completed

theorem MigrationRecord.Holds.vacant {record : MigrationRecord} {claimed : Prop}
    (holds : record.Holds claimed) (incomplete : record.status ≠ .completed) :
    ¬ record.index.isSome = true ∧ ¬ claimed :=
  ⟨fun held => incomplete (holds.held_iff.mp held).1,
    fun early => incomplete (holds.afterwards early)⟩

namespace Migration

variable {β : Type} {migration begun : Migration β} {claimed : Prop}

def Claims (migration : Migration β) (turn : MigrationTurn) : Prop :=
  turn = .takeIndex ∧ migration.record.status = .completed

theorem record_cancel (migration : Migration β) :
    (migration.turn .cancel).record = migration.record := by
  cases ended : migration.record.status.isTerminal with
  | true => simp [Migration.turn, cancel_of_ended ended]
  | false => simp [Migration.turn, cancel_of_open ended]

theorem record_release (migration : Migration β) :
    (migration.turn .release).record = migration.record := by
  simp only [Migration.turn, release]
  split <;> rfl

theorem holds_step (holds : migration.record.Holds claimed) (consistent : migration.Consistent)
    (elapsed : Nat) : (migration.step elapsed).record.Holds claimed := by
  have fits := consistent.fits
  rw [record_step]
  cases place : migration.phase with
    rw [place] at fits
  | waiting =>
      obtain ⟨none, early⟩ := holds.vacant (by simp [fits.1])
      constructor <;> simp_all [Phase.published, MigrationRecord.begin]
  | concluding ending =>
      have running : migration.record.status = .running := fits
      obtain ⟨none, early⟩ := holds.vacant (by simp [running])
      cases ending <;> constructor <;>
        simp_all [Phase.published, MigrationRecord.conclude, MigrationEnding.status]
  | _ => exact ⟨holds.held_iff, holds.afterwards⟩

theorem holds_turn (holds : migration.record.Holds claimed) (consistent : migration.Consistent)
    (turn : MigrationTurn) :
    (migration.turn turn).record.Holds (claimed ∨ migration.Claims turn) := by
  cases turn with
  | work elapsed => simpa [Claims, Migration.turn] using holds_step holds consistent elapsed
  | takeIndex =>
      by_cases complete : migration.record.status = .completed
      · constructor <;> simp [Migration.turn, takeIndex, Claims, complete]
      · simpa [Migration.turn, takeIndex, Claims, complete] using holds
  | info | wait => simpa [Claims, Migration.turn] using holds
  | cancel => simpa [Claims, record_cancel] using holds
  | release => simpa [Claims, record_release] using holds

theorem holds_turns {job : Job} {registry : Registry β} {startTime : Nat}
    (accepted : start job registry startTime = .ok begun) (taken : List MigrationTurn) :
    (begun.turns taken).record.Holds (begun.Happened Claims taken) := by
  induction taken using List.reverseRecOn with
  | nil =>
      obtain ⟨_, rfl⟩ := start_eq_ok accepted
      constructor <;> simp
  | append_singleton taken last ih =>
      rw [turns_concat, happened_concat]
      exact holds_turn ih ((Consistent.start accepted).turns taken).1 last

theorem takeIndex_turns {job : Job} {registry : Registry β} {startTime : Nat}
    (accepted : start job registry startTime = .ok begun) (taken : List MigrationTurn) :
    let now := begun.turns taken
    now.takeIndex.1 = now.record.index ∧
      (now.takeIndex.1.isSome = true ↔
        now.record.status = .completed ∧ ¬ begun.Happened Claims taken) := by
  intro now
  have holds : now.record.Holds (begun.Happened Claims taken) := holds_turns accepted taken
  have same : now.takeIndex.1 = now.record.index := by
    unfold takeIndex
    split
    · rfl
    · rename_i incomplete
      have none := (holds.vacant incomplete).1
      simp only [Option.not_isSome_iff_eq_none] at none
      exact none.symm
  exact ⟨same, same ▸ holds.held_iff⟩

end Migration

end VectorSearch

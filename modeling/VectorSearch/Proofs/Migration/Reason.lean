import VectorSearch.Proofs.Migration.Steps
/-!
Why a migration failed. A migration fails only after its builder stopped, and its message is what
there is to say about that, cut to the length of a message.
-/

namespace VectorSearch

variable {α β : Type}

def errorOf : Built α → Option BuildError
  | .ok _ => none
  | .error error => some error

namespace Migration

variable {migration begun : Migration β} {job : Job} {construction : Construction β}
  {ending : MigrationEnding} {message : String}

def nextError? (migration : Migration β) : Option BuildError :=
  match migration.phase with
  | .creating =>
    errorOf (migration.registry.create migration.job.kind migration.job.dimension
      migration.job.settings)
  | .training construction => errorOf (construction.train migration.job.content)
  | .inserting construction position =>
    errorOf (construction.insert position (migration.job.row position))
  | .finishing construction => errorOf construction.finish
  | _ => none

def GivesUp (error : BuildError) (migration : Migration β) (turn : MigrationTurn) : Prop :=
  isWork turn = true ∧ migration.nextError? = some error

/-! Steps. -/

theorem turnTo_ne_concluding (position : Nat) :
    turnTo job construction position ≠ .concluding ending := by
  unfold turnTo
  split <;> exact nofun

theorem afterCreation_ne_concluding : afterCreation job construction ≠ .concluding ending := by
  unfold afterCreation
  split
  · exact nofun
  · exact turnTo_ne_concluding 0

theorem afterRow_ne_concluding (position : Nat) :
    afterRow job position construction ≠ .concluding ending := by
  unfold afterRow
  split
  · exact nofun
  · exact turnTo_ne_concluding (position + 1)

theorem error_of_phaseAfter {next : α → Phase β} {answer : Built α}
    (failed : phaseAfter next answer = .concluding (.failed message))
    (goesOn : ∀ value, next value ≠ .concluding (.failed message)) :
    ∃ error, errorOf answer = some error ∧ message = error.message := by
  cases answer with
  | ok value => exact absurd failed (goesOn value)
  | error error =>
      injection failed with same
      injection same with text
      exact ⟨error, rfl, text.symm⟩

theorem error_of_step {elapsed : Nat}
    (failed : (migration.step elapsed).phase = .concluding (.failed message)) :
    ∃ error, migration.nextError? = some error ∧ message = error.message := by
  unfold step at failed
  unfold nextError?
  cases place : migration.phase with
    rw [place] at failed
  | creating => exact error_of_phaseAfter failed fun _ => afterCreation_ne_concluding
  | training construction => exact error_of_phaseAfter failed fun _ => turnTo_ne_concluding 0
  | inserting construction position =>
      exact error_of_phaseAfter failed fun _ => afterRow_ne_concluding position
  | finishing construction => exact error_of_phaseAfter failed fun _ => by simp
  | beforeTraining construction | beforeRow construction position =>
      dsimp only at failed
      split at failed <;> simp at failed
  | reporting construction position => exact absurd failed (turnTo_ne_concluding position)
  | waiting | stopping position | reportingAll construction | concluding ending =>
      simp at failed
  | ended => simp [place] at failed

theorem message_of_step {elapsed : Nat}
    (failed : (migration.step elapsed).record.status = .failed) :
    (migration.record.status = .failed ∧
      (migration.step elapsed).record.message = migration.record.message) ∨
    ∃ message, migration.phase = .concluding (.failed message) ∧
      (migration.step elapsed).record.message = Text.boundedMessage message := by
  rw [record_step] at failed ⊢
  cases place : migration.phase with
    rw [place] at failed
  | waiting => simp [Phase.published, MigrationRecord.begin] at failed
  | concluding ending =>
      cases ending with
      | failed message => exact Or.inr ⟨message, rfl, rfl⟩
      | completed index | cancelled => exact nomatch failed
  | _ => exact Or.inl ⟨failed, rfl⟩

/-! Histories. -/

def Told (begun : Migration β) (taken : List MigrationTurn) (text : BuildError → Prop) : Prop :=
  ∃ error, begun.Happened (GivesUp error) taken ∧ text error

theorem Told.concat {taken : List MigrationTurn} {text : BuildError → Prop}
    (told : begun.Told taken text) (last : MigrationTurn) : begun.Told (taken ++ [last]) text := by
  obtain ⟨error, happened, same⟩ := told
  exact ⟨error, (happened_concat taken last).mpr (Or.inl happened), same⟩

/-- What a failed migration says, or is about to say, is told of an error of its builder. -/
structure Explained (begun : Migration β) (taken : List MigrationTurn) : Prop where
  coming : ∀ message, (begun.turns taken).phase = .concluding (.failed message) →
    begun.Told taken fun error => message = error.message
  shown : (begun.turns taken).record.status = .failed → begun.Told taken fun error =>
    (begun.turns taken).record.message = Text.boundedMessage error.message

theorem Explained.concat {taken : List MigrationTurn} (explained : begun.Explained taken)
    (last : MigrationTurn) : begun.Explained (taken ++ [last]) := by
  rcases work_or_owner last with ⟨elapsed, rfl⟩ | owner
  · refine ⟨fun message coming => ?_, fun failed => ?_⟩
    · rw [turns_concat] at coming
      obtain ⟨error, stops, same⟩ := error_of_step coming
      exact ⟨error, (happened_concat taken _).mpr (Or.inr ⟨rfl, stops⟩), same⟩
    · rw [turns_concat] at failed ⊢
      rcases message_of_step failed with ⟨before, kept⟩ | ⟨message, coming, published⟩
      · have told := (explained.shown before).concat (.work elapsed)
        rwa [← kept] at told
      · obtain ⟨error, happened, rfl⟩ := explained.coming message coming
        exact Told.concat ⟨error, happened, published⟩ (.work elapsed)
  · -- Owners change neither the phase nor what the record says.
    have same := (begun.turns taken).turn_of_owner owner
    refine ⟨fun message coming => ?_, fun failed => ?_⟩
    · rw [turns_concat, same] at coming
      exact (explained.coming message coming).concat last
    · rw [turns_concat, same] at failed ⊢
      exact (explained.shown failed).concat last

theorem explained_turns {registry : Registry β} {startTime : Nat}
    (accepted : start job registry startTime = .ok begun) (taken : List MigrationTurn) :
    begun.Explained taken := by
  induction taken using List.reverseRecOn with
  | nil =>
      obtain ⟨_, rfl⟩ := start_eq_ok accepted
      exact ⟨nofun, nofun⟩
  | append_singleton taken last ih => exact ih.concat last

end Migration

end VectorSearch

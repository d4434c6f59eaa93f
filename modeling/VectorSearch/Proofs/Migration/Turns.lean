import VectorSearch.Migration.Owner
import VectorSearch.Proofs.Migration.Progress
/-!
What can be seen of a migration while it lives. Whatever its builder does, and however the steps of
its worker fall between the turns of its owners, it waits, runs and ends once; what it shows never
goes back, and after its end it shows the same for ever.
-/

namespace VectorSearch

def MigrationStatus.Advances (before after : MigrationStatus) : Prop :=
  after = before ∨ before = .pending ∧ after = .running ∨
    before = .running ∧ after.isTerminal = true

namespace MigrationInfo

/-- What everyone sees who looks at a migration. -/
structure Sound (info : MigrationInfo) : Prop where
  progress_nonneg : 0 ≤ info.progress
  progress_capped : info.status ≠ .completed → info.progress ≤ 0.98
  completed : info.status = .completed → info.progress = 1 ∧ info.migrated = info.total
  migrated_le : info.migrated ≤ info.total
  unexplained : info.status ≠ .failed → info.message = ""
  message_size : info.message.utf8ByteSize ≤ 255

/-- What a later look shows after an earlier one. -/
structure LeadsTo (earlier later : MigrationInfo) : Prop where
  progress : earlier.progress ≤ later.progress
  migrated : earlier.migrated ≤ later.migrated
  total : later.total = earlier.total
  frozen : earlier.status.isTerminal = true → later = earlier

variable {first second third : MigrationInfo}

theorem sound_iff_of_open (notEnded : first.status.isTerminal = false) :
    first.Sound ↔ 0 ≤ first.progress ∧ first.progress ≤ 0.98 ∧ first.migrated ≤ first.total ∧
      first.message = "" := by
  have incomplete : first.status ≠ .completed := fun same => by
    rw [same] at notEnded
    exact nomatch notEnded
  have unfailed : first.status ≠ .failed := fun same => by
    rw [same] at notEnded
    exact nomatch notEnded
  constructor
  · intro sound
    exact ⟨sound.progress_nonneg, sound.progress_capped incomplete, sound.migrated_le,
      sound.unexplained unfailed⟩
  · rintro ⟨nonneg, capped, few, wordless⟩
    refine ⟨nonneg, fun _ => capped, fun complete => absurd complete incomplete, few,
      fun _ => wordless, ?_⟩
    rw [wordless]
    exact Nat.zero_le _

theorem Sound.leadsTo_self (sound : first.Sound) : first.LeadsTo first where
  progress := Progress.le_self sound.progress_nonneg
  migrated := Nat.le_refl _
  total := rfl
  frozen _ := rfl

theorem leadsTo_of_open (notEnded : first.status.isTerminal = false)
    (progress : first.progress ≤ second.progress) (migrated : first.migrated ≤ second.migrated)
    (total : second.total = first.total) : first.LeadsTo second :=
  ⟨progress, migrated, total, fun ended => absurd (notEnded.symm.trans ended) Bool.false_ne_true⟩

theorem LeadsTo.trans (one : first.LeadsTo second) (two : second.LeadsTo third) :
    first.LeadsTo third where
  progress := Progress.le_trans one.progress two.progress
  migrated := Nat.le_trans one.migrated two.migrated
  total := two.total.trans one.total
  frozen ended := by
    have same := one.frozen ended
    exact (two.frozen (same.symm ▸ ended)).trans same

end MigrationInfo

/-! What the worker publishes. -/

namespace MigrationRecord

open MigrationInfo

variable {record : MigrationRecord}

theorem sound_begin (sound : record.info.Sound) (waiting : record.status = .pending) :
    record.begin.info.Sound ∧ record.info.LeadsTo record.begin.info := by
  have notEnded : record.info.status.isTerminal = false := congrArg _ waiting
  refine ⟨(sound_iff_of_open rfl).mpr ((sound_iff_of_open notEnded).mp sound), ?_⟩
  exact leadsTo_of_open notEnded (Progress.le_self sound.progress_nonneg) (Nat.le_refl _) rfl

variable (sound : record.info.Sound) (running : record.status = .running)
include sound running

theorem sound_report {migrated : Nat} (few : record.migrated ≤ migrated)
    (inside : migrated ≤ record.total) (elapsed : Nat) :
    (record.report migrated elapsed).info.Sound ∧
      record.info.LeadsTo (record.report migrated elapsed).info := by
  have notEnded : record.info.status.isTerminal = false := congrArg _ running
  obtain ⟨nonneg, capped, _, wordless⟩ := (sound_iff_of_open notEnded).mp sound
  have grown := le_progress_report nonneg migrated elapsed
  have running : (record.report migrated elapsed).info.status.isTerminal = false := notEnded
  refine ⟨(sound_iff_of_open running).mpr ⟨Progress.le_trans nonneg grown,
    progress_report_le capped migrated elapsed, inside, wordless⟩, ?_⟩
  exact leadsTo_of_open notEnded grown few rfl

theorem sound_conclude (ending : MigrationEnding) (elapsed : Nat) :
    (record.conclude ending elapsed).info.Sound ∧
      record.info.LeadsTo (record.conclude ending elapsed).info := by
  have notEnded : record.info.status.isTerminal = false := congrArg _ running
  obtain ⟨nonneg, capped, few, wordless⟩ := (sound_iff_of_open notEnded).mp sound
  have same := Progress.le_self nonneg
  cases ending with
  | completed index =>
      have whole : (0 : Float) ≤ 1 := by decide
      have beyond : (0.98 : Float) ≤ 1 := by decide
      have short : record.message.utf8ByteSize ≤ 255 := sound.message_size
      refine ⟨⟨whole, fun incomplete => absurd rfl incomplete, fun _ => ⟨rfl, rfl⟩, Nat.le_refl _,
        fun _ => wordless, short⟩, ?_⟩
      exact leadsTo_of_open notEnded (Progress.le_trans capped beyond) few rfl
  | cancelled =>
      exact ⟨⟨nonneg, fun _ => capped, nofun, few, fun _ => rfl, Nat.zero_le _⟩,
        leadsTo_of_open notEnded same (Nat.le_refl _) rfl⟩
  | failed message =>
      exact ⟨⟨nonneg, fun _ => capped, nofun, few, fun failed => absurd rfl failed,
        Text.utf8ByteSize_boundedMessage message⟩,
        leadsTo_of_open notEnded same (Nat.le_refl _) rfl⟩

end MigrationRecord

variable {β : Type}

def Phase.Fits (record : MigrationRecord) : Phase β → Prop
  | .waiting => record.status = .pending ∧ record.migrated = 0
  | .creating | .beforeTraining _ | .training _ => record.status = .running ∧ record.migrated = 0
  | .beforeRow _ position | .inserting _ position =>
    record.status = .running ∧ record.migrated ≤ position ∧ position < record.total
  | .reporting _ position | .stopping position =>
    record.status = .running ∧ record.migrated ≤ position ∧ position ≤ record.total
  | .reportingAll _ | .finishing _ | .concluding _ => record.status = .running
  | .ended => record.status.isTerminal = true

theorem Job.check_eq_ok_iff {job : Job} : job.check = .ok () ↔
    job.count = 0 ∨ ∃ buffer, job.buffer = some buffer ∧ 0 < job.dimension ∧
      job.count * job.dimension ≤ Count.limit ∧ job.count * job.dimension ≤ buffer.size := by
  by_cases none : job.count = 0
  · simp [check, none]
  · cases supplied : job.buffer with
    | none => simp [check, none, supplied]
    | some buffer =>
        simp only [check, none, supplied]
        by_cases flat : job.dimension = 0
        · simp [flat]
        · by_cases large : Count.limit < job.count * job.dimension
          · simp [flat, large]
          · by_cases short : buffer.size < job.count * job.dimension
            · simp [flat, large, short]
            · have fits := And.intro (Nat.pos_of_ne_zero flat)
                (And.intro (Nat.le_of_not_lt large) (Nat.le_of_not_lt short))
              simpa [flat, large, short] using fits

theorem Job.check_eq_ok {job : Job} (accepted : job.check = .ok ()) :
    job.count = 0 ∨ ∃ buffer, job.buffer = some buffer ∧ 0 < job.dimension ∧
      job.count * job.dimension ≤ buffer.size :=
  (check_eq_ok_iff.mp accepted).imp_right fun ⟨buffer, supplied, positive, _, enough⟩ =>
    ⟨buffer, supplied, positive, enough⟩

theorem Job.rowCount_eq {job : Job} (accepted : job.check = .ok ()) : job.rowCount = job.count := by
  rcases check_eq_ok accepted with none | ⟨buffer, supplied, positive, enough⟩
  · simp [rowCount, size, none]
  · rw [rowCount, size, source, supplied, Option.getD_some, Nat.min_eq_left enough,
      Nat.max_eq_left positive, Nat.mul_div_cancel _ positive]

namespace Migration

/-- The record of a migration, its request and its worker go together. -/
structure Consistent (migration : Migration β) : Prop where
  rows : migration.job.rowCount = migration.record.total
  count : migration.record.total = migration.job.count
  sound : migration.info.Sound
  fits : migration.phase.Fits migration.record
  index : migration.record.index.isSome = true → migration.record.status = .completed

structure Succeeds (before after : Migration β) : Prop where
  consistent : after.Consistent
  leads : before.info.LeadsTo after.info
  advances : before.info.status.Advances after.info.status

variable {migration : Migration β}

/-! The phases. -/

theorem fits_phaseAfter {α : Type} {record : MigrationRecord} {next : α → Phase β} {built : Built α}
    (running : record.status = .running) (goesOn : ∀ answer, (next answer).Fits record) :
    (phaseAfter next built).Fits record := by
  cases built with
  | ok answer => exact goesOn answer
  | error error => exact running

theorem fits_turnTo {job : Job} {record : MigrationRecord} (rows : job.rowCount = record.total)
    (running : record.status = .running) {position : Nat} (few : record.migrated ≤ position)
    (construction : Construction β) : (turnTo job construction position).Fits record := by
  unfold turnTo
  split
  · rename_i inside
    exact ⟨running, few, rows ▸ inside⟩
  · exact running

theorem fits_afterCreation {job : Job} {record : MigrationRecord}
    (rows : job.rowCount = record.total) (running : record.status = .running)
    (none : record.migrated = 0) (construction : Construction β) :
    (afterCreation job construction).Fits record := by
  unfold afterCreation
  split
  · exact ⟨running, none⟩
  · exact fits_turnTo rows running none.le construction

theorem fits_afterRow {job : Job} {record : MigrationRecord} (rows : job.rowCount = record.total)
    (running : record.status = .running) {position : Nat} (few : record.migrated ≤ position)
    (inside : position < record.total) (construction : Construction β) :
    (afterRow job position construction).Fits record := by
  unfold afterRow
  split
  · exact ⟨running, Nat.le_succ_of_le few, inside⟩
  · exact fits_turnTo rows running (Nat.le_succ_of_le few) construction

/-! One step of the worker. -/

theorem Consistent.moves (consistent : migration.Consistent) {phase : Phase β}
    (fits : phase.Fits migration.record) : migration.Succeeds { migration with phase } where
  consistent := ⟨consistent.rows, consistent.count, consistent.sound, fits, consistent.index⟩
  leads := consistent.sound.leadsTo_self
  advances := .inl rfl

theorem Consistent.publishes (consistent : migration.Consistent) {record : MigrationRecord}
    {phase : Phase β} (published : record.info.Sound ∧ migration.info.LeadsTo record.info)
    (advances : migration.record.status.Advances record.status) (fits : phase.Fits record)
    (index : record.index.isSome = true → record.status = .completed) :
    migration.Succeeds { migration with record, phase } where
  consistent :=
    have total : record.total = migration.record.total := published.2.total
    ⟨consistent.rows.trans total.symm, total.trans consistent.count, published.1, fits, index⟩
  leads := published.2
  advances := advances

theorem Consistent.step (consistent : migration.Consistent) (elapsed : Nat) :
    migration.Succeeds (migration.step elapsed) := by
  have ⟨rows, count, sound, fits, index⟩ := consistent
  have empty (running : migration.record.status = .running) :
      ¬ migration.record.index.isSome = true := fun held =>
    absurd (running.symm.trans (index held)) (by decide)
  unfold Migration.step
  cases place : migration.phase with
  | waiting =>
      rw [place] at fits
      obtain ⟨waiting, none⟩ := fits
      refine consistent.publishes (MigrationRecord.sound_begin sound waiting)
        (.inr (.inl ⟨waiting, rfl⟩)) ⟨rfl, none⟩ fun held => ?_
      exact absurd (waiting.symm.trans (index held)) (by decide)
  | creating =>
      rw [place] at fits
      exact consistent.moves (fits_phaseAfter fits.1 (fits_afterCreation rows fits.1 fits.2))
  | beforeTraining construction =>
      rw [place] at fits
      refine consistent.moves ?_
      split
      · exact fits.1
      · exact fits
  | training construction =>
      rw [place] at fits
      exact consistent.moves (fits_phaseAfter fits.1 (fits_turnTo rows fits.1 fits.2.le))
  | beforeRow construction position =>
      rw [place] at fits
      refine consistent.moves ?_
      split
      · exact ⟨fits.1, fits.2.1, fits.2.2.le⟩
      · exact fits
  | inserting construction position =>
      rw [place] at fits
      obtain ⟨running, few, inside⟩ := fits
      exact consistent.moves (fits_phaseAfter running (fits_afterRow rows running few inside))
  | reporting construction position =>
      rw [place] at fits
      obtain ⟨running, few, inside⟩ := fits
      have left : migration.job.rowCount = (migration.record.report position elapsed).total := rows
      exact consistent.publishes (MigrationRecord.sound_report sound running few inside elapsed)
        (.inl rfl) (fits_turnTo left running (Nat.le_refl position) construction)
        fun held => absurd held (empty running)
  | stopping position =>
      rw [place] at fits
      obtain ⟨running, few, inside⟩ := fits
      exact consistent.publishes (MigrationRecord.sound_report sound running few inside elapsed)
        (.inl rfl) running fun held => absurd held (empty running)
  | reportingAll construction =>
      rw [place] at fits
      exact consistent.publishes (MigrationRecord.sound_report sound fits
        (count ▸ sound.migrated_le) count.ge elapsed) (.inl rfl) fits
        fun held => absurd held (empty fits)
  | finishing construction =>
      rw [place] at fits
      exact consistent.moves (fits_phaseAfter fits fun index => fits)
  | concluding ending =>
      rw [place] at fits
      have concluded := MigrationRecord.sound_conclude sound fits ending elapsed
      cases ending with
      | completed built =>
          exact consistent.publishes concluded (.inr (.inr ⟨fits, rfl⟩)) rfl fun _ => rfl
      | cancelled | failed message =>
          exact consistent.publishes concluded (.inr (.inr ⟨fits, rfl⟩)) rfl
            fun held => absurd held (empty fits)
  | ended => exact consistent.moves (place ▸ fits)

/-! Turns of everyone. -/

theorem Consistent.passes (consistent : migration.Consistent) (requested : Bool)
    {index : Option Index}
    (held : index.isSome = true → migration.record.status = .completed) :
    migration.Succeeds { migration with
      record := { migration.record with index }, cancelRequested := requested } where
  consistent := by
    refine ⟨consistent.rows, consistent.count, consistent.sound, ?_, held⟩
    have fits := consistent.fits
    cases place : migration.phase <;> rw [place] at fits <;> exact fits
  leads := consistent.sound.leadsTo_self
  advances := .inl rfl

theorem Consistent.turn (consistent : migration.Consistent) (taken : MigrationTurn) :
    migration.Succeeds (migration.turn taken) := by
  have stays := consistent.passes migration.cancelRequested consistent.index
  cases taken with
  | work elapsed => exact consistent.step elapsed
  | info | wait => exact stays
  | cancel =>
      rw [Migration.turn, cancel]
      by_cases ended : migration.record.status.isTerminal = true
      · rw [if_pos ended]
        exact stays
      · rw [if_neg ended]
        exact consistent.passes true consistent.index
  | takeIndex =>
      rw [Migration.turn, takeIndex]
      split
      · exact consistent.passes migration.cancelRequested nofun
      · exact stays
  | release =>
      rw [Migration.turn, release]
      split
      · exact stays
      · exact consistent.passes true consistent.index

theorem start_eq_ok {job : Job} {registry : Registry β} {startTime : Nat}
    (accepted : start job registry startTime = .ok migration) :
    job.check = .ok () ∧ migration = {
      job
      registry
      record := { total := job.count, startTime := Count.saturate startTime }
      cancelRequested := false
      phase := .waiting } := by
  unfold start at accepted
  cases checked : job.check with
  | error failure => rw [checked] at accepted; exact nomatch accepted
  | ok _ =>
      rw [checked] at accepted
      exact ⟨rfl, (Except.ok.inj accepted).symm⟩

theorem Consistent.start {job : Job} {registry : Registry β} {startTime : Nat}
    (accepted : start job registry startTime = .ok migration) : migration.Consistent := by
  obtain ⟨checked, rfl⟩ := start_eq_ok accepted
  have zero : (0 : Float) ≤ 0 := by decide
  have low : (0 : Float) ≤ 0.98 := by decide
  refine ⟨Job.rowCount_eq checked, rfl, ?_, ⟨rfl, rfl⟩, nofun⟩
  exact (MigrationInfo.sound_iff_of_open rfl).mpr ⟨zero, low, Nat.zero_le _, rfl⟩

theorem Consistent.turns (consistent : migration.Consistent) (taken : List MigrationTurn) :
    (migration.turns taken).Consistent ∧ migration.info.LeadsTo (migration.turns taken).info := by
  induction taken generalizing migration with
  | nil => exact ⟨consistent, consistent.sound.leadsTo_self⟩
  | cons first rest ih =>
      have next := consistent.turn first
      obtain ⟨last, leads⟩ := ih next.consistent
      exact ⟨last, next.leads.trans leads⟩

/-- A migration that was started is seen to wait, then to run, and then to have ended in one of the
three ways, for ever: however its worker and its owners take turns, what is seen at any moment is
sound, what is seen later follows on it, and after the end nothing changes any more. Its index is
held only after completion. -/
theorem info_turns (job : Job) (registry : Registry β) (startTime : Nat) (begun : Migration β)
    (accepted : start job registry startTime = .ok begun)
    (taken more : List MigrationTurn) (next : MigrationTurn) :
    let earlier := begun.turns taken
    let later := begun.turns (taken ++ more)
    begun.info.status = .pending ∧
    earlier.info.status.Advances (earlier.turn next).info.status ∧
    earlier.info.total = job.count ∧ earlier.info.Sound ∧
    earlier.info.LeadsTo later.info ∧
    (earlier.record.index.isSome = true → earlier.info.status = .completed) := by
  intro earlier later
  have consistent := Consistent.start accepted
  obtain ⟨atTime, fromStart⟩ := consistent.turns taken
  have onwards := (atTime.turns more).2
  rw [← turns_append] at onwards
  obtain ⟨_, rfl⟩ := start_eq_ok accepted
  exact ⟨rfl, (atTime.turn next).advances, fromStart.total, atTime.sound, onwards, atTime.index⟩

theorem info_turns_cancelled :
    let job : Job := ⟨some #[1, 2], 2, 1, .flat, {}, 1⟩
    let taken : List MigrationTurn := [.work 1, .work 2, .work 3, .work 4, .work 5, .info]
    let more : List MigrationTurn := [.cancel, .work 6, .work 7, .work 8, .wait, .takeIndex]
    ∃ begun, start job Registry.standard 7 = .ok begun ∧
      (begun.turns taken).info.migrated = 1 ∧ (begun.turns taken).info.Sound ∧
      (begun.turns (taken ++ more)).info.status = .cancelled ∧
      (begun.turns taken).info.LeadsTo (begun.turns (taken ++ more)).info := by
  intro job taken more
  obtain ⟨begun, accepted⟩ : ∃ begun, start job Registry.standard 7 = .ok begun := ⟨_, rfl⟩
  obtain ⟨_, _, _, sound, leads, _⟩ :=
    info_turns job Registry.standard 7 begun accepted taken more (.work 6)
  obtain ⟨_, rfl⟩ := start_eq_ok accepted
  exact ⟨_, accepted, by decide +kernel, sound, by decide +kernel, leads⟩

end Migration

end VectorSearch

import VectorSearch.Migration.Job
import VectorSearch.Proofs.Checked.Access
import VectorSearch.Proofs.Migration.Building
/-!
The rows that a migration hands to its builder. A request that is accepted has all of its rows, so
that its worker can take them from the buffer without a fault. Whatever the builder answers, and
whenever the owners of the migration take their turns, the builder is given a part of the rows from
the first one on, and all of them in a migration that completes.
-/

namespace VectorSearch

namespace Job

variable {job : Job}

/-! The rows in the buffer. -/

theorem check_eq_ok_iff_of_countable
    (countable : ∀ buffer, job.buffer = some buffer → buffer.size ≤ Count.limit) :
    job.check = .ok () ↔ job.count = 0 ∨ ∃ buffer, job.buffer = some buffer ∧
      0 < job.dimension ∧ job.count * job.dimension ≤ buffer.size := by
  refine ⟨check_eq_ok, fun asked => check_eq_ok_iff.mpr (asked.imp_right ?_)⟩
  rintro ⟨buffer, supplied, positive, enough⟩
  exact ⟨buffer, supplied, positive, enough.trans (countable buffer supplied), enough⟩

theorem contentChecked_ok (accepted : job.check = .ok ()) :
    job.contentChecked = .ok job.content := by
  rw [contentChecked, (Whole.of_check accepted).content_eq, source]
  by_cases none : job.count = 0
  · cases job.buffer <;> simp [none] <;> rfl
  · obtain ⟨buffer, supplied, _, counted, enough⟩ := (check_eq_ok_iff.mp accepted).resolve_left none
    have taken := Checked.slice_ok ((Nat.zero_add _).trans_le enough)
    rw [Nat.zero_add] at taken
    simp [supplied, none, Checked.product, counted, taken]

theorem Whole.row_eq (whole : job.Whole) {position : Nat} (inside : position < job.count) :
    job.content.extract (position * job.dimension) ((position + 1) * job.dimension) =
      job.row position := by
  rw [Nat.succ_mul]
  exact whole.rowAt_content inside

theorem rowsChecked_ok (accepted : job.check = .ok ()) :
    job.rowsChecked = .ok ((List.range job.count).map job.row) := by
  have whole := Whole.of_check accepted
  have counted : job.content.size / max job.dimension 1 = job.count := by
    rw [job.size_content]
    exact whole.rows
  rw [rowsChecked, contentChecked_ok accepted, Checked.ok_bind,
    Checked.pieces_ok (Nat.le_max_right ..), counted]
  refine congrArg Except.ok (List.map_congr_left fun position member => ?_)
  have inside := List.mem_range.mp member
  rw [Nat.max_eq_left (whole.coordinates (by omega)), whole.row_eq inside]

end Job

/-! What the worker hands over. -/

inductive Handed where
  | buffer (content : Array Float32)
  | row (id : VectorId) (row : Embedding)

variable {β : Type}

def Phase.handed (job : Job) : Phase β → List Handed
  | .training _ => [.buffer job.content]
  | .inserting _ position => [.row position (job.row position)]
  | _ => []

/-- The builder was given the first few rows, and all of the buffer before them or not at all. -/
def Job.HasHanded (job : Job) (number : Nat) (given : List Handed) : Prop :=
  ∃ training, (training = [] ∨ training = [.buffer job.content]) ∧
    given = training ++ (List.range number).map fun position => .row position (job.row position)

def MigrationStatus.HasHanded (status : MigrationStatus) (job : Job) (given : List Handed) : Prop :=
  ∃ number ≤ job.count, job.HasHanded number given ∧ (status = .completed → number = job.count)

def Phase.HasHanded (job : Job) (record : MigrationRecord) (given : List Handed) : Phase β → Prop
  | .waiting | .creating | .beforeTraining _ | .training _ => given = []
  | .beforeRow _ position | .inserting _ position =>
    job.HasHanded position given ∧ position < job.count
  | .reporting _ position | .stopping position =>
    job.HasHanded position given ∧ position ≤ job.count
  | .reportingAll _ | .finishing _ => job.HasHanded job.count given
  | .concluding ending => ending.status.HasHanded job given
  | .ended => record.status.HasHanded job given

variable {job : Job} {record : MigrationRecord} {given : List Handed} {number : Nat}

namespace Job

theorem hasHanded_nil (job : Job) : job.HasHanded 0 [] := ⟨[], .inl rfl, rfl⟩

theorem hasHanded_content (job : Job) : job.HasHanded 0 [.buffer job.content] :=
  ⟨_, .inr rfl, rfl⟩

theorem HasHanded.row (few : job.HasHanded number given) :
    job.HasHanded (number + 1) (given ++ [.row number (job.row number)]) := by
  obtain ⟨training, kept, rfl⟩ := few
  exact ⟨training, kept, by simp [List.range_succ]⟩

theorem HasHanded.incomplete (few : job.HasHanded number given) (inside : number ≤ job.count)
    {status : MigrationStatus} (incomplete : status ≠ .completed) : status.HasHanded job given :=
  ⟨number, inside, few, fun completed => absurd completed incomplete⟩

theorem HasHanded.all (all : job.HasHanded job.count given) (status : MigrationStatus) :
    status.HasHanded job given :=
  ⟨job.count, le_rfl, all, fun _ => rfl⟩

end Job

theorem Phase.Moves.hasHanded {requested : Bool} {added : Nat} {before after : Phase β}
    (moves : before.Moves job requested added after) (whole : job.rowCount = job.count)
    (earlier : before.HasHanded job record given) (elapsed : Nat) :
    after.HasHanded job (before.published job record elapsed) (given ++ before.handed job) := by
  cases moves with simp only [Phase.handed, List.append_nil]
  | begin | made | train | insert | rest | reportedAll => exact earlier
  | notMade message | stopTraining construction asked =>
      obtain rfl := earlier
      exact job.hasHanded_nil.incomplete (Nat.zero_le _) nofun
  | madeForRows construction left =>
      obtain rfl := earlier
      exact ⟨job.hasHanded_nil, whole ▸ left⟩
  | madeForNone construction none =>
      obtain rfl := earlier
      rw [whole] at none
      simpa [Phase.HasHanded, none] using job.hasHanded_nil
  | notTrained construction message =>
      obtain rfl := earlier
      exact job.hasHanded_content.incomplete (Nat.zero_le _) nofun
  | trained construction next left =>
      obtain rfl := earlier
      exact ⟨job.hasHanded_content, whole ▸ left⟩
  | trainedForNone construction next none =>
      obtain rfl := earlier
      rw [whole] at none
      simpa [Phase.HasHanded, none] using job.hasHanded_content
  | stopRow construction position asked => exact ⟨earlier.1, earlier.2.le⟩
  | notInserted construction position message =>
      exact earlier.1.row.incomplete earlier.2 nofun
  | filled construction next position full => exact ⟨earlier.1.row, earlier.2⟩
  | inserted construction next position short left => exact ⟨earlier.1.row, whole ▸ left⟩
  | insertedLast construction next position short none =>
      have last : position + 1 = job.count := Nat.le_antisymm earlier.2 (whole ▸ none)
      rw [Phase.HasHanded, ← last]
      exact earlier.1.row
  | reported construction position left => exact ⟨earlier.1, whole ▸ left⟩
  | reportedLast construction position none =>
      have last : position = job.count := Nat.le_antisymm earlier.2 (whole ▸ none)
      rw [Phase.HasHanded, ← last]
      exact earlier.1
  | stopped position => exact earlier.1.incomplete earlier.2 nofun
  | notFinished construction message | finished construction index => exact earlier.all _
  | conclude ending => cases ending <;> exact earlier

namespace Migration

variable {migration begun : Migration β}

def handedOf (migration : Migration β) : MigrationTurn → List Handed
  | .work _ => migration.phase.handed migration.job
  | .info | .cancel | .wait | .takeIndex | .release => []

def handed (migration : Migration β) : List MigrationTurn → List Handed
  | [] => []
  | first :: rest => migration.handedOf first ++ (migration.turn first).handed rest

theorem handed_append (migration : Migration β) (taken more : List MigrationTurn) :
    migration.handed (taken ++ more) =
      migration.handed taken ++ (migration.turns taken).handed more := by
  induction taken generalizing migration with
  | nil => rfl
  | cons first rest ih => simp [Migration.handed, ih]

def HasHanded (migration : Migration β) (given : List Handed) : Prop :=
  migration.phase.HasHanded migration.job migration.record given

theorem HasHanded.turn (earlier : migration.HasHanded given)
    (whole : migration.job.rowCount = migration.job.count) (turn : MigrationTurn) :
    (migration.turn turn).HasHanded (given ++ migration.handedOf turn) := by
  rcases work_or_owner turn with ⟨elapsed, rfl⟩ | owner
  · have same : (migration.step elapsed).job = migration.job := (migration.step_same elapsed).1
    rw [HasHanded, Migration.turn, same, record_step]
    exact (migration.moves_step elapsed).hasHanded whole earlier elapsed
  · have none : migration.handedOf turn = [] := by
      cases turn <;> first | rfl | simp [isWork] at owner
    rw [none, List.append_nil, migration.turn_of_owner owner]
    unfold HasHanded at *
    cases place : migration.phase <;> rw [place] at earlier <;> exact earlier

theorem hasHanded_turns {registry : Registry β} {startTime : Nat}
    (accepted : start job registry startTime = .ok begun) (taken : List MigrationTurn) :
    (begun.turns taken).HasHanded (begun.handed taken) := by
  have consistent := Consistent.start accepted
  have whole : begun.job.rowCount = begun.job.count := consistent.rows.trans consistent.count
  induction taken using List.reverseRecOn with
  | nil =>
      obtain ⟨_, rfl⟩ := start_eq_ok accepted
      rfl
  | append_singleton taken last ih =>
      rw [turns_concat, handed_append, Migration.handed, Migration.handed, List.append_nil]
      exact ih.turn (by simpa using whole) last

theorem status_hasHanded {registry : Registry β} {startTime : Nat}
    (accepted : start job registry startTime = .ok begun) (taken : List MigrationTurn) :
    (begun.turns taken).record.status.HasHanded job (begun.handed taken) := by
  have earlier := hasHanded_turns accepted taken
  have consistent := ((Consistent.start accepted).turns taken).1
  obtain ⟨_, rfl⟩ := start_eq_ok accepted
  have fits := consistent.fits
  rw [HasHanded, job_turns] at earlier
  cases place : (Migration.turns _ taken).phase with rw [place] at earlier fits
  | waiting | creating | beforeTraining construction | training construction =>
      rw [show Migration.handed _ taken = [] from earlier]
      exact job.hasHanded_nil.incomplete (Nat.zero_le _) (by rw [fits.1]; nofun)
  | beforeRow construction position | inserting construction position =>
      exact earlier.1.incomplete earlier.2.le (by rw [fits.1]; nofun)
  | reporting construction position | stopping position =>
      exact earlier.1.incomplete earlier.2 (by rw [fits.1]; nofun)
  | reportingAll construction | finishing construction => exact earlier.all _
  | concluding ending =>
      obtain ⟨number, inside, few, _⟩ := earlier
      exact few.incomplete inside (by rw [fits]; nofun)
  | ended => exact earlier

/-- A migration is started just when it has all the rows that it is asked for. Then its worker
counts the numbers of the rows, takes that part of the buffer and cuts it into rows without a fault,
and its builder is given these rows one after another, after all of them together or not, and in a
migration that completes every one of them. -/
theorem handed_of_start (job : Job)
    (countable : ∀ buffer, job.buffer = some buffer → buffer.size ≤ Count.limit)
    (registry : Registry β) (startTime : Nat) :
    ((∃ begun, start job registry startTime = .ok begun) ↔
      job.count = 0 ∨ ∃ buffer, job.buffer = some buffer ∧ 0 < job.dimension ∧
        job.count * job.dimension ≤ buffer.size) ∧
    ∀ begun, start job registry startTime = .ok begun →
      ∃ content rows, job.contentChecked = .ok content ∧ job.rowsChecked = .ok rows ∧
        content.size = job.count * job.dimension ∧ rows.length = job.count ∧
        (∀ number < job.count, rows[number]? = some
          (job.source.extract (number * job.dimension) ((number + 1) * job.dimension))) ∧
        ∀ taken, ∃ number ≤ job.count, ∃ training,
          (training = [] ∨ training = [.buffer content]) ∧
          begun.handed taken = training ++ (rows.take number).mapIdx Handed.row ∧
          ((begun.turns taken).record.status = .completed → number = job.count) := by
  constructor
  · rw [← Job.check_eq_ok_iff_of_countable countable]
    constructor
    · rintro ⟨begun, accepted⟩
      exact (start_eq_ok accepted).1
    · intro accepted
      simp [start, accepted]
  · intro begun accepted
    have checked := (start_eq_ok accepted).1
    have whole := Job.Whole.of_check checked
    refine ⟨_, _, Job.contentChecked_ok checked, Job.rowsChecked_ok checked,
      job.size_content.trans whole.size, by simp, ?_, fun taken => ?_⟩
    · intro number inside
      rw [Nat.succ_mul]
      simp [inside, Job.row, Embedding.rowAt]
    · obtain ⟨number, inside, ⟨training, kept, handed⟩, completed⟩ :=
        status_hasHanded accepted taken
      refine ⟨number, inside, training, kept, ?_, completed⟩
      rw [handed, ← List.map_take, List.take_range, Nat.min_eq_left inside]
      refine congrArg (training ++ ·) (List.ext_getElem? fun position => ?_)
      by_cases early : position < number <;> simp [early]

theorem handed_of_start_two :
    let job : Job := ⟨some #[1, 2, 3], 2, 1, .partition, {}, 0⟩
    let begun : Migration Index := ⟨job, .standard, { total := 2 }, false, .waiting⟩
    let taken := List.replicate 14 (MigrationTurn.work 0)
    (∀ buffer, job.buffer = some buffer → buffer.size ≤ Count.limit) ∧
    start job .standard 0 = .ok begun ∧ (begun.turns taken).record.status = .completed ∧
    ∃ training, begun.handed taken = training ++ [.row 0 #[1], .row 1 #[2]] := by
  intro job begun taken
  have countable (buffer : Array Float32) (supplied : job.buffer = some buffer) :
      buffer.size ≤ Count.limit := by
    obtain rfl := Option.some.inj supplied
    decide
  have completed : (begun.turns taken).record.status = .completed := by decide +kernel
  refine ⟨countable, rfl, completed, ?_⟩
  obtain ⟨_, runs⟩ := handed_of_start job countable .standard 0
  obtain ⟨content, rows, _, _, _, length, row, history⟩ := runs begun rfl
  have two : rows = [#[1], #[2]] := by
    apply List.ext_getElem?
    intro position
    match position with
    | 0 => exact row 0 (by decide)
    | 1 => exact row 1 (by decide)
    | position + 2 => simp [length, job]
  obtain ⟨number, _, training, _, handed, complete⟩ := history taken
  rw [complete completed, two] at handed
  exact ⟨training, handed⟩

end Migration

end VectorSearch

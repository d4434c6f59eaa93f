import VectorSearch.Proofs.Migration.Ending
import VectorSearch.Proofs.Migration.Handover
import VectorSearch.Proofs.Rows
/-!
What a migration builds. With the standard builders a migration that nobody asks to stop completes,
and gives the index to which its rows lead one after another, whatever batches it reports. Only a
graph of rows that have undefined scores for each other may make it fail.
-/

namespace VectorSearch

namespace Job

variable {job : Job} {position : Nat}

structure Whole (job : Job) : Prop where
  coordinates : 0 < job.count → 0 < job.dimension
  size : job.size = job.count * job.dimension
  rows : job.rowCount = job.count

theorem Whole.of_check (accepted : job.check = .ok ()) : job.Whole where
  coordinates some := by
    rcases check_eq_ok accepted with none | ⟨_, _, positive, _⟩
    · omega
    · exact positive
  size := by
    rcases check_eq_ok accepted with none | ⟨buffer, supplied, _, enough⟩
    · simp [Job.size, none]
    · simpa [Job.size, source, supplied] using enough
  rows := rowCount_eq accepted

theorem size_content (job : Job) : job.content.size = job.size := by
  simp [content, size]

theorem Whole.content_eq (whole : job.Whole) :
    job.content = job.source.extract 0 (job.count * job.dimension) := by
  rw [content, whole.size]

theorem Whole.rowAt_content (whole : job.Whole) (inside : position < job.count) :
    Embedding.rowAt job.content job.dimension (position * job.dimension) = job.row position := by
  have block := Blocks.slot_inside inside job.dimension
  rw [row, Embedding.rowAt, Embedding.rowAt, whole.content_eq, Array.extract_extract, Nat.zero_add,
    Nat.zero_add, Nat.min_eq_left block]

def building [Host] (job : Job) (position : Nat) : Except Failure Index :=
  Index.building job.kind job.dimension job.settings job.count job.content position

theorem Whole.building_ok [Host] (whole : job.Whole) (inside : position ≤ job.count) :
    ∃ index, job.building position = .ok index ∧
      index.store.HasRows job.dimension job.settings.metric job.content position := by
  obtain ⟨index, built, rows, _⟩ := Index.building_ok whole.coordinates
    (job.size_content.trans whole.size) inside
  exact ⟨index, built, rows⟩

theorem Whole.building_succ [Host] (whole : job.Whole) (left : position < job.count) :
    job.building (position + 1) =
      job.building position >>= (·.insert position (job.row position)) := by
  rw [building, building, Index.building_succ, Index.rowCall, whole.rowAt_content left]
  rfl

/-- If the rows are to be in a graph, no two of them have an undefined score for each other. -/
def Rankable (job : Job) : Prop :=
  job.kind = .graph → ∀ first < job.count, ∀ second < job.count,
    (similarity job.settings.metric (job.row first) (job.row second)).isNaN = false

theorem Rankable.not_mayPanic (rankable : job.Rankable) (whole : job.Whole)
    (left : position < job.count) {index : Index} (family : index.kind = job.kind)
    (rows : index.store.HasRows job.dimension job.settings.metric job.content position) :
    ¬ index.MayPanic (.insert position (job.row position)) := by
  rintro ⟨graph, fits, _, undefined⟩
  have same {number : Nat} (inside : number < position + 1) :=
    whole.rowAt_content (Nat.lt_of_lt_of_le inside left)
  rw [← same (Nat.lt_succ_self position)] at fits undefined
  refine undefined ((rows.put fits).pairsDefined fun first firstIn second secondIn => ?_)
  rw [same firstIn, same secondIn]
  exact rankable (family ▸ graph) first (Nat.lt_of_lt_of_le firstIn left) second
    (Nat.lt_of_lt_of_le secondIn left)

end Job

structure Construction.Has [Host] (construction : Construction Index) (job : Job) (position : Nat) :
    Prop where
  builder : construction.builder = .standard job.kind
  inside : position ≤ job.count
  work : job.building position = .ok construction.work

namespace Construction

variable {construction : Construction Index} {kind : IndexKind} {job : Job} {position : Nat}

theorem finish_standard [Host] (standard : construction.builder = .standard kind) :
    construction.finish = .ok construction.work := by
  rw [finish, standard]
  rfl

theorem train_standard [Host] (standard : construction.builder = .standard kind)
    {buffer : Array Float32} {index : Index}
    (trained : construction.work.train buffer = .ok index) :
    construction.train buffer = .ok { construction with work := index } := by
  have run : (Index.trainInPlace buffer).outcome construction.work = .ok index := by
    rw [Change.outcome_eq (construction.work.run_trainInPlace buffer), trained]
    rfl
  rw [train, standard]
  exact congrArg (Except.map fun work => (⟨_, work⟩ : Construction Index)) run

theorem insert_standard [Host] (standard : construction.builder = .standard kind)
    (packed : construction.work.store.Packed) {id : VectorId} {row : Embedding} {index : Index}
    (inserted : construction.work.insert id row = .ok index) :
    construction.insert id row = .ok { construction with work := index } ∨
      construction.work.MayPanic (.insert id row) ∧
        ∃ stop, construction.insert id row = .error stop := by
  have built : construction.insert id row =
      ((Index.insertInPlace id row).outcome construction.work).map
        fun work => { construction with work } := by
    rw [insert, standard]
    rfl
  rw [built]
  rcases Index.run_insertInPlace packed id row with run | ⟨may, words, left, run, _⟩
  · rw [Change.outcome_eq run, inserted]
    exact Or.inl rfl
  · refine Or.inr ⟨may, .panicked words, ?_⟩
    rw [Change.outcome, run]
    rfl

theorem Has.insert [Host] (has : construction.Has job position) (whole : job.Whole)
    (left : position < job.count) :
    (∃ next, construction.insert position (job.row position) = .ok next ∧
      next.Has job (position + 1)) ∨
    ¬ job.Rankable ∧ ∃ stop, construction.insert position (job.row position) = .error stop := by
  obtain ⟨work, same, rows⟩ := whole.building_ok left.le
  obtain rfl := Except.ok.inj (has.work.symm.trans same)
  obtain ⟨index, built, _⟩ := whole.building_ok left
  have inserted := built
  rw [whole.building_succ left, has.work] at inserted
  rcases insert_standard has.builder rows.packed inserted with taken | ⟨may, stop, broken⟩
  · exact Or.inl ⟨_, taken, has.builder, left, built⟩
  · refine Or.inr ⟨fun rankable => rankable.not_mayPanic whole left ?_ rows may, stop, broken⟩
    exact Index.kind_of_building has.work

end Construction

def Phase.Builds [Host] (job : Job) : Phase Index → Prop
  | .waiting | .creating | .ended => True
  | .beforeTraining construction | .training construction =>
    construction = ⟨.standard .partition, .empty .partition job.dimension job.settings⟩ ∧
      job.kind = .partition ∧ 0 < job.count
  | .beforeRow construction position | .inserting construction position =>
    construction.Has job position ∧ position < job.count
  | .reporting construction position => construction.Has job position
  | .reportingAll construction | .finishing construction => construction.Has job job.count
  | .concluding (.completed index) => job.building job.count = .ok index
  | .concluding (.failed _) => ¬ job.Rankable
  | .stopping _ | .concluding .cancelled => False

namespace Migration

variable {migration begun : Migration Index} {job : Job}

/-- A migration that is on its way, or has completed, or fails over rows that cannot be ranked. -/
structure Builds [Host] (migration : Migration Index) : Prop where
  unfailed : migration.job.Rankable → migration.record.status ≠ .failed
  uncancelled : migration.record.status ≠ .cancelled
  held : ∀ index, migration.record.index = some index →
    migration.job.building migration.job.count = .ok index
  phase : migration.phase.Builds migration.job

theorem create_standard [Host] (job : Job) :
    Registry.standard.create job.kind job.dimension job.settings =
      .ok ⟨.standard job.kind, .empty job.kind job.dimension job.settings⟩ := by
  cases job.kind <;> rfl

theorem needsTraining_empty (kind : IndexKind) (dimension : Nat) (settings : IndexSettings) :
    (Index.empty kind dimension settings).needsTraining = decide (kind = .partition) := by
  cases kind <;> rfl

theorem builds_turnTo [Host] (whole : job.Whole) {construction : Construction Index}
    {position : Nat}
    (has : construction.Has job position) : (turnTo job construction position).Builds job := by
  unfold turnTo
  rw [whole.rows]
  split
  · rename_i left
    exact ⟨has, left⟩
  · rename_i none
    have all : position = job.count := Nat.le_antisymm has.inside (Nat.le_of_not_lt none)
    subst all
    exact has

theorem builds_afterRow [Host] (whole : job.Whole) {construction : Construction Index}
    {position : Nat} (has : construction.Has job (position + 1)) :
    (afterRow job position construction).Builds job := by
  unfold afterRow
  split
  · exact has
  · exact builds_turnTo whole has

theorem builds_afterCreation [Host] (whole : job.Whole) :
    (afterCreation job ⟨.standard job.kind,
      .empty job.kind job.dimension job.settings⟩).Builds job := by
  unfold afterCreation
  have asks : (Construction.mk (.standard job.kind)
      (.empty job.kind job.dimension job.settings)).needsTraining =
        decide (job.kind = .partition) :=
    needsTraining_empty ..
  rw [asks]
  split
  · rename_i trains
    obtain ⟨family, some⟩ : job.kind = .partition ∧ job.size ≠ 0 := by simpa using trains
    refine ⟨by rw [family], family, Nat.pos_of_ne_zero fun none => some ?_⟩
    simp [whole.size, none]
  · -- Partitions over no rows are not trained, and neither is any other family.
    rename_i untrained
    refine builds_turnTo whole ⟨rfl, Nat.zero_le _, Index.building_untrained ?_⟩
    rintro ⟨family, some⟩
    have positive := Nat.mul_pos some (whole.coordinates some)
    simp [family, whole.size, positive.ne'] at untrained

theorem Builds.step [Host] (builds : migration.Builds) (whole : migration.job.Whole)
    (standard : migration.registry = .standard) (unasked : migration.cancelRequested = false)
    (elapsed : Nat) : (migration.step elapsed).Builds := by
  obtain ⟨unfailed, uncancelled, held, onward⟩ := builds
  have moves {phase : Phase Index} (next : phase.Builds migration.job) :
      { migration with phase }.Builds := ⟨unfailed, uncancelled, held, next⟩
  unfold Migration.step
  cases place : migration.phase with
    rw [place] at onward
  | waiting =>
      exact ⟨by simp [MigrationRecord.begin], by simp [MigrationRecord.begin], held, trivial⟩
  | creating =>
      refine moves ?_
      rw [standard, create_standard]
      exact builds_afterCreation whole
  | beforeTraining construction =>
      refine moves ?_
      rw [unasked]
      exact onward
  | training construction =>
      obtain ⟨rfl, family, some⟩ := onward
      obtain ⟨index, built, _⟩ := whole.building_ok (Nat.zero_le _)
      have trained := built
      rw [Job.building, family, Index.building_trained some] at trained
      have builder : Builder.standard .partition = .standard migration.job.kind := by rw [family]
      refine moves ?_
      rw [Construction.train_standard builder trained]
      exact builds_turnTo whole ⟨builder, Nat.zero_le _, built⟩
  | beforeRow construction position =>
      refine moves ?_
      rw [unasked]
      exact onward
  | inserting construction position =>
      refine moves ?_
      rcases onward.1.insert whole onward.2 with ⟨next, inserted, has⟩ | ⟨unranked, stop, broken⟩
      · rw [inserted]
        exact builds_afterRow whole has
      · rw [broken]
        exact unranked
  | reporting construction position =>
      exact ⟨unfailed, uncancelled, held, builds_turnTo whole onward⟩
  | stopping position => exact onward.elim
  | reportingAll construction => exact ⟨unfailed, uncancelled, held, onward⟩
  | finishing construction =>
      refine moves ?_
      rw [Construction.finish_standard onward.builder]
      exact onward.work
  | concluding ending =>
      cases ending with
      | completed index =>
          refine ⟨by simp [MigrationRecord.conclude, MigrationEnding.status],
            by simp [MigrationRecord.conclude, MigrationEnding.status], fun other same => ?_,
            trivial⟩
          exact Option.some.inj same ▸ onward
      | failed message =>
          exact ⟨fun rankable => absurd rankable onward,
            by simp [MigrationRecord.conclude, MigrationEnding.status], held, trivial⟩
      | cancelled => exact onward.elim
  | ended => exact ⟨unfailed, uncancelled, held, by rw [place]; trivial⟩

theorem Builds.of_owner [Host] (builds : migration.Builds) {turn : MigrationTurn}
    (owner : isWork turn = false) : (migration.turn turn).Builds := by
  obtain ⟨unfailed, uncancelled, held, onward⟩ := builds
  have kept (index : Index) (same : (migration.turn turn).record.index = some index) :
      migration.record.index = some index := by
    cases turn with
    | work elapsed => simp [isWork] at owner
    | info | wait => exact same
    | cancel => rwa [record_cancel] at same
    | release => rwa [record_release] at same
    | takeIndex =>
        simp only [Migration.turn, takeIndex] at same
        split at same
        · simp at same
        · exact same
  rw [migration.turn_of_owner owner]
  exact ⟨unfailed, uncancelled, fun index same => held index (kept index same), onward⟩

theorem builds_turns [Host] {startTime : Nat} (accepted : start job .standard startTime = .ok begun)
    {taken : List MigrationTurn}
    (unasked : ¬ begun.Happened (fun migration turn => migration.requests turn = true) taken) :
    (begun.turns taken).Builds := by
  obtain ⟨checked, rfl⟩ := start_eq_ok accepted
  induction taken using List.reverseRecOn with
  | nil => exact ⟨fun _ => nofun, nofun, nofun, trivial⟩
  | append_singleton taken last ih =>
      rw [happened_concat, not_or] at unasked
      have before := ih unasked.1
      rw [turns_concat]
      rcases work_or_owner last with ⟨elapsed, rfl⟩ | owner
      · refine before.step ?_ ?_ ?_ elapsed
        · simpa using Job.Whole.of_check checked
        · simp
        · rw [← Bool.not_eq_true, cancelRequested_turns rfl]
          exact unasked.1
      · exact before.of_owner owner

theorem Builds.completed [Host] (builds : migration.Builds) (rankable : migration.job.Rankable)
    (terminal : migration.record.status.isTerminal = true) :
    migration.record.status = .completed := by
  have unfailed := builds.unfailed rankable
  have uncancelled := builds.uncancelled
  cases status : migration.record.status with
    rw [status] at terminal unfailed uncancelled
  | pending | running => exact absurd terminal Bool.false_ne_true
  | failed => exact absurd rfl unfailed
  | cancelled => exact absurd rfl uncancelled

/-- With the standard builders a migration that nobody asks to stop does not fail, and completes
when its worker goes on; if it is to build a graph, this takes rows without undefined scores for
each other. The first who asks after completion, and nobody else, gets the index over the rows of
the request, which was built as if there were no migration: it has these rows, named by their
positions, and no others. -/
theorem standard_turns [Host] (job : Job) (startTime : Nat) (begun : Migration Index)
    (accepted : start job .standard startTime = .ok begun) :
    ∃ index, Index.ofRows job.kind job.dimension job.settings job.count
        (job.source.extract 0 (job.count * job.dimension)) = .ok index ∧
      index.store.size = job.count ∧
      (∀ id, index.get? id = if id < job.count then some (job.row id) else none) ∧
      ∀ taken : List MigrationTurn,
        ¬ begun.Happened (fun migration turn => migration.requests turn = true) taken →
        let now := begun.turns taken
        (job.Rankable → now.record.status ≠ .failed ∧
          (begun.enoughSteps ≤ taken.countP isWork → now.record.status = .completed)) ∧
        now.record.status ≠ .cancelled ∧
        (∀ other, now.takeIndex.1 = some other ↔
          other = index ∧ now.record.status = .completed ∧ ¬ begun.Happened Claims taken) := by
  have whole := Job.Whole.of_check (start_eq_ok accepted).1
  obtain ⟨index, built, rows⟩ := whole.building_ok le_rfl
  refine ⟨index, ?_, rows.size, fun id => ?_, fun taken unasked => ?_⟩
  · rw [← whole.content_eq]
    exact built
  · rw [Index.get?, rows.stored]
    split
    · rename_i inside
      rw [whole.rowAt_content inside]
    · rfl
  · intro now
    have builds : now.Builds := builds_turns accepted unasked
    obtain ⟨given, given_iff⟩ := takeIndex_turns accepted taken
    have sameJob : now.job = job := by
      obtain ⟨_, rfl⟩ := start_eq_ok accepted
      simp [now]
    have only (other : Index) (found : now.record.index = some other) : other = index := by
      have right := builds.held other found
      rw [sameJob, built] at right
      exact (Except.ok.inj right).symm
    refine ⟨fun rankable => ⟨builds.unfailed (sameJob ▸ rankable), fun enough => ?_⟩,
      builds.uncancelled, fun other => ⟨fun found => ?_, ?_⟩⟩
    · exact builds.completed (sameJob ▸ rankable) (terminal_of_enoughSteps accepted enough)
    · rw [given] at found
      exact ⟨only other found, given_iff.mp (by rw [given, found]; rfl)⟩
    · rintro ⟨rfl, moment⟩
      obtain ⟨other, found⟩ := Option.isSome_iff_exists.mp (given_iff.mpr moment)
      rw [found, only other (given ▸ found)]

theorem standard_turns_two :
    let job : Job := ⟨some #[1, 2, 3], 2, 1, .partition, {}, 0⟩
    let begun : Migration Index := ⟨job, .standard, { total := 2 }, false, .waiting⟩
    let taken := MigrationTurn.takeIndex :: List.replicate 14 (.work 0)
    start job .standard 0 = .ok begun ∧ job.Rankable ∧
    ¬ begun.Happened (fun migration turn => migration.requests turn = true) taken ∧
    begun.enoughSteps ≤ taken.countP isWork ∧
    (begun.turns taken).record.status = .completed ∧
    ∃ index, (begun.turns taken).takeIndex.1 = some index ∧ index.get? 1 = some #[2] ∧
      index.get? 2 = none ∧ (begun.turns (taken ++ [.takeIndex])).takeIndex.1 = none := by
  intro job begun taken
  have accepted : start job .standard 0 = .ok begun := rfl
  have quiet (more : List MigrationTurn)
      (harmless : ∀ turn ∈ more, turn = .takeIndex ∨ turn = .work 0) :
      ¬ begun.Happened (fun migration turn => migration.requests turn = true) more := by
    rintro ⟨earlier, turn, later, rfl, asked⟩
    rcases harmless turn (by simp) with rfl | rfl <;> simp [requests] at asked
  have unasked := quiet taken (by simp [taken])
  have enough : begun.enoughSteps ≤ taken.countP isWork := by decide +kernel
  obtain ⟨index, _, _, stored, turns⟩ := standard_turns job 0 begun accepted
  have rankable : job.Rankable := fun graph => absurd graph (by decide)
  obtain ⟨completes, _, taking⟩ := turns taken unasked
  have completed := (completes rankable).2 enough
  have held : (begun.turns taken).takeIndex.1.isSome = true := by decide +kernel
  obtain ⟨given, found⟩ := Option.isSome_iff_exists.mp held
  obtain ⟨rfl, _⟩ := (taking given).mp found
  refine ⟨accepted, rankable, unasked, enough, completed, given, found, stored 1, stored 2, ?_⟩
  obtain ⟨_, _, again⟩ := turns (taken ++ [.takeIndex]) (quiet _ (by simp [taken]))
  apply Option.eq_none_iff_forall_ne_some.mpr
  intro other second
  exact ((again other).mp second).2.2 ((happened_concat taken _).mpr (.inr ⟨rfl, completed⟩))

end Migration

end VectorSearch

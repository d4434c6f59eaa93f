import VectorSearch.Index.InPlace
import VectorSearch.Proofs.Families
/-!
Calls made in place. The writes of a call come to what the call gives as a whole, and none of them
is made before the call can no longer be refused. Only the sorts of a graph may break down; what
they leave behind has the vector stored, and its links as far as they were made.
-/

namespace VectorSearch

variable {σ ρ κ α β : Type}

/-- What follows a change in place: the state that a call gives, or the state before it together
with the failure of the call. -/
def performed (before : σ) : Except Failure σ → EStateM.Result Stop σ Unit
  | .ok after => .ok () after
  | .error failure => .error (.refused failure) before

namespace Change

theorem run_within (part : σ → ρ) (around : σ → ρ → σ) (change : Change ρ α) (state : σ) :
    (within part around change).run state = change.runIn (around state) (part state) := rfl

theorem runIn_eq {around : ρ → σ} {change : Change ρ} {part : ρ} {outcome : Except Failure ρ}
    (run : change.run part = performed part outcome) :
    change.runIn around part = performed (around part) (around <$> outcome) := by
  rw [runIn, run]
  cases outcome <;> rfl

section

variable {change : Change σ} {state left : σ} {outcome : Except Failure σ} {words : Option String}

theorem after_eq (run : change.run state = performed state outcome) :
    change.after state = settle state outcome := by
  rw [after, run]
  cases outcome <;> rfl

theorem refused_eq (run : change.run state = performed state outcome) :
    change.refused state = !outcome.isOk := by
  rw [refused, run]
  cases outcome <;> rfl

theorem panics_eq (run : change.run state = performed state outcome) :
    change.panics state = false := by
  rw [panics, run]
  cases outcome <;> rfl

theorem outcome_eq (run : change.run state = performed state outcome) :
    change.outcome state = outcome.mapError .refused := by
  rw [Change.outcome, run]
  cases outcome <;> rfl

theorem after_of_panicked (run : change.run state = .error (.panicked words) left) :
    change.after state = left := by
  rw [after, run]

theorem refused_of_panicked (run : change.run state = .error (.panicked words) left) :
    change.refused state = false := by
  rw [refused, run]

theorem panics_of_panicked (run : change.run state = .error (.panicked words) left) :
    change.panics state = true := by
  rw [panics, run]

end

/-! Changes that may break down. -/

/-- A change comes to an answer and a state, or it breaks down, which is possible only under some
condition. -/
def ComesTo (possible : Prop) (change : Change σ α) (before : σ) (answer : α) (after : σ) : Prop :=
  change.run before = .ok answer after ∨
    possible ∧ ∃ words left, change.run before = .error (.panicked words) left

variable {possible : Prop} {before middle after : σ}

theorem ComesTo.of_run {change : Change σ α} {answer : α}
    (run : change.run before = .ok answer after) : ComesTo possible change before answer after :=
  Or.inl run

theorem ComesTo.bind {first : Change σ α} {next : α → Change σ β} {answer : α} {result : β}
    (comes : ComesTo possible first before answer middle)
    (goesOn : ComesTo possible (next answer) middle result after) :
    ComesTo possible (first >>= next) before result after := by
  unfold ComesTo at *
  rw [EStateM.run_bind]
  rcases comes with run | ⟨condition, words, left, run⟩
  · rw [run]
    exact goesOn
  · rw [run]
    exact Or.inr ⟨condition, words, left, rfl⟩

theorem ComesTo.forM {step : κ → Change σ} {next : σ → κ → σ} {items : List κ}
    (each : ∀ item state, ComesTo possible (step item) state () (next state item)) :
    ∀ start, ComesTo possible (items.forM step) start () (items.foldl next start) := by
  induction items with
  | nil => intro start; exact .of_run rfl
  | cons first rest ih =>
      intro start
      exact .bind (each first start) (ih _)

theorem ComesTo.trySort [Host] {hits : List Hit}
    (undefined : ∀ hit ∈ hits, hit.score.isNaN = true → possible) (state : σ) :
    ComesTo possible (.ofExcept (Hit.trySort hits)) state (Hit.sort hits) state := by
  rcases Hit.trySort_cases hits with sorted | ⟨_, ⟨hit, member, wrong⟩, broken⟩
  · rw [sorted]
    exact .of_run rfl
  · rw [broken]
    exact Or.inr ⟨undefined hit member wrong, _, state, rfl⟩

end Change

/-! Runs in place. -/

def runInPlace (change : κ → Change σ) (start : σ) (calls : List κ) : σ :=
  calls.foldl (fun state request => (change request).after state) start

theorem runInPlace_concat (change : κ → Change σ) (start : σ) (taken : List κ) (last : κ) :
    runInPlace change start (taken ++ [last]) =
      (change last).after (runInPlace change start taken) := by
  simp [runInPlace]

theorem runInPlace_induction {change : κ → Change σ} (invariant : σ → Prop)
    (kept : ∀ state request, invariant state → invariant ((change request).after state))
    (calls : List κ) : ∀ start, invariant start → invariant (runInPlace change start calls) := by
  induction calls with
  | nil => intro start initial; exact initial
  | cons first rest ih => intro start initial; exact ih _ (kept start first initial)

/-! The store. -/

namespace Store

theorem run_upsertInPlace (store : Store) (id : VectorId) (row : Embedding) :
    (upsertInPlace id row).run store = performed store (store.upsert id row) := by
  by_cases fits : row.size = store.dimension
  · rw [(upsert_eq_ok_iff store id row _).mpr ⟨fits, rfl⟩, put]
    simp only [upsertInPlace, EStateM.run_bind, EStateM.run_get, fits, ne_eq, not_true_eq_false,
      if_false]
    cases store.offsets.get? id <;> rfl
  · rw [upsert, checkDimension_eq_error fits]
    simp only [upsertInPlace, EStateM.run_bind, EStateM.run_get, fits, ne_eq, not_false_eq_true,
      if_true]
    rfl

theorem run_within_upsertInPlace {part : σ → Store} {around : σ → Store → σ} (state : σ)
    (id : VectorId) (row : Embedding) :
    (Change.within part around (upsertInPlace id row)).run state =
      performed (around state (part state)) (around state <$> (part state).upsert id row) := by
  rw [Change.run_within, Change.runIn_eq (run_upsertInPlace _ id row)]

def PairsDefined (store : Store) : Prop :=
  ∀ id row, store.get? id = some row → store.ScoresDefined row

theorem not_pairsDefined {store : Store} {id : VectorId} {row : Embedding} {hit : Hit}
    (stored : store.get? id = some row) (scored : store.score row hit.id = some hit.score)
    (undefined : hit.score.isNaN = true) : ¬ store.PairsDefined := by
  intro defined
  rw [defined id row stored hit.id hit.score scored] at undefined
  exact Bool.false_ne_true undefined

end Store

/-! The families. -/

theorem FlatIndex.run_insertInPlace (index : FlatIndex) (id : VectorId) (row : Embedding) :
    (insertInPlace id row).run index = performed index (index.insert id row) := by
  rw [insertInPlace, Store.run_within_upsertInPlace, insert]
  cases index.store.upsert id row <;> rfl

theorem PartitionIndex.run_trainInPlace [Host] (index : PartitionIndex) (buffer : Array Float32) :
    (trainInPlace buffer).run index = performed index (index.train buffer) := by
  simp only [trainInPlace, EStateM.run_bind, EStateM.run_get, train, trainWith]
  split <;> rfl

theorem PartitionIndex.run_insertInPlace (index : PartitionIndex) (id : VectorId)
    (row : Embedding) :
    (insertInPlace id row).run index = performed index (index.insert id row) := by
  simp only [insertInPlace, EStateM.run_bind, EStateM.run_get, insert]
  cases index.lists.isEmpty with
  | true => rfl
  | false =>
      simp only [Bool.false_eq_true, if_false, EStateM.run_bind, Store.run_within_upsertInPlace]
      cases index.store.upsert id row <;> rfl

theorem CodeIndex.run_putCodeInPlace (index : CodeIndex) (id : VectorId) (code : SignCode) :
    (putCodeInPlace id code).run index = .ok () (index.putCode id code) := by
  rw [putCodeInPlace, EStateM.run_bind, EStateM.run_get, putCode]
  dsimp only
  cases index.slots.get? id <;> rfl

theorem CodeIndex.run_insertInPlace (index : CodeIndex) (id : VectorId) (row : Embedding) :
    (insertInPlace id row).run index = performed index (index.insert id row) := by
  simp only [insertInPlace, insert]
  cases SignCode.quantize row with
  | error failure => rfl
  | ok code =>
      simp only [Except.mapError, Change.ofExcept, pure_bind, EStateM.run_bind,
        Store.run_within_upsertInPlace]
      cases index.store.upsert id row with
      | error failure => rfl
      | ok store => exact run_putCodeInPlace _ id code

end VectorSearch

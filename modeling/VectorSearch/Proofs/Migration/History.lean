import Mathlib.Data.List.Induction
import VectorSearch.Proofs.Migration.Turns
/-!
Histories of migrations. A history is the list of turns taken at a migration since its start; this
module tells what happened in it, and which calls the worker made on its builder.
-/

namespace VectorSearch

inductive BuilderCall where
  | train (accepted : Bool)
  | insert (id : VectorId) (accepted : Bool)
  deriving DecidableEq

def BuilderCall.addsRow : BuilderCall → Bool
  | train _ => false
  | insert _ accepted => accepted

namespace Migration

variable {β : Type} {migration begun : Migration β}

/-! Turns of the owners. -/

def requests (migration : Migration β) : MigrationTurn → Bool
  | .cancel => migration.cancel.isOk
  | .release => !migration.record.status.isTerminal
  | .work _ | .info | .wait | .takeIndex => false

def isWork : MigrationTurn → Bool
  | .work _ => true
  | .info | .cancel | .wait | .takeIndex | .release => false

theorem work_or_owner (turn : MigrationTurn) :
    (∃ elapsed, turn = .work elapsed) ∨ isWork turn = false := by
  cases turn <;> simp [isWork]

theorem cancel_of_ended (ended : migration.record.status.isTerminal = true) :
    migration.cancel =
      .error (.notApplicable ("migration already " ++ migration.record.status.name)) :=
  if_pos ended

theorem cancel_of_open (unended : migration.record.status.isTerminal = false) :
    migration.cancel = .ok { migration with cancelRequested := true } := by
  simp [cancel, unended]

theorem requests_cancel (migration : Migration β) :
    migration.requests .cancel = !migration.record.status.isTerminal := by
  cases ended : migration.record.status.isTerminal with
  | true => rw [requests, cancel_of_ended ended]; rfl
  | false => rw [requests, cancel_of_open ended]; rfl

theorem turn_of_owner (migration : Migration β) {turn : MigrationTurn}
    (owner : isWork turn = false) :
    migration.turn turn = { migration with
      record := { migration.record with index := (migration.turn turn).record.index }
      cancelRequested := migration.cancelRequested || migration.requests turn } := by
  cases turn with
  | work elapsed => simp [isWork] at owner
  | info | wait => simp [Migration.turn, requests]
  | cancel =>
      cases ended : migration.record.status.isTerminal with
      | true => simp [Migration.turn, requests_cancel, ended, cancel_of_ended]
      | false => simp [Migration.turn, requests_cancel, ended, cancel_of_open]
  | takeIndex =>
      simp only [Migration.turn, requests, takeIndex]
      split <;> simp
  | release =>
      simp only [Migration.turn, requests, release]
      split <;> simp_all

theorem step_same (migration : Migration β) (elapsed : Nat) :
    (migration.step elapsed).job = migration.job ∧
      (migration.step elapsed).registry = migration.registry ∧
      (migration.step elapsed).cancelRequested = migration.cancelRequested := by
  unfold step
  cases migration.phase <;> exact ⟨rfl, rfl, rfl⟩

@[simp] theorem job_turn (migration : Migration β) (turn : MigrationTurn) :
    (migration.turn turn).job = migration.job := by
  cases turn with
  | work elapsed => exact (migration.step_same elapsed).1
  | _ => rw [migration.turn_of_owner rfl]

@[simp] theorem registry_turn (migration : Migration β) (turn : MigrationTurn) :
    (migration.turn turn).registry = migration.registry := by
  cases turn with
  | work elapsed => exact (migration.step_same elapsed).2.1
  | _ => rw [migration.turn_of_owner rfl]

theorem cancelRequested_turn (migration : Migration β) (turn : MigrationTurn) :
    (migration.turn turn).cancelRequested =
      (migration.cancelRequested || migration.requests turn) := by
  cases turn with
  | work elapsed => simpa [requests, Migration.turn] using (migration.step_same elapsed).2.2
  | _ => rw [migration.turn_of_owner rfl]

@[simp] theorem turns_nil (migration : Migration β) : migration.turns [] = migration := rfl

@[simp] theorem turns_cons (migration : Migration β) (first : MigrationTurn)
    (rest : List MigrationTurn) :
    migration.turns (first :: rest) = (migration.turn first).turns rest := rfl

@[simp] theorem turns_concat (migration : Migration β) (taken : List MigrationTurn)
    (last : MigrationTurn) :
    migration.turns (taken ++ [last]) = (migration.turns taken).turn last := by
  simp [turns_append]

@[simp] theorem job_turns (migration : Migration β) (taken : List MigrationTurn) :
    (migration.turns taken).job = migration.job := by
  induction taken generalizing migration with
  | nil => rfl
  | cons first rest ih => simp [ih]

@[simp] theorem registry_turns (migration : Migration β) (taken : List MigrationTurn) :
    (migration.turns taken).registry = migration.registry := by
  induction taken generalizing migration with
  | nil => rfl
  | cons first rest ih => simp [ih]

/-- A history keeps what the steps of the worker keep, if the index and a request do not matter. -/
theorem turns_induction {invariant : Migration β → Prop}
    (steps : ∀ migration elapsed, invariant migration → invariant (migration.step elapsed))
    (owners : ∀ (migration : Migration β) index asked, invariant migration →
      invariant { migration with
        record := { migration.record with index }
        cancelRequested := migration.cancelRequested || asked })
    (initial : invariant migration) (taken : List MigrationTurn) :
    invariant (migration.turns taken) := by
  induction taken generalizing migration with
  | nil => exact initial
  | cons first rest ih =>
      apply ih
      rcases work_or_owner first with ⟨elapsed, rfl⟩ | owner
      · exact steps migration elapsed initial
      · rw [migration.turn_of_owner owner]
        exact owners migration _ _ initial

/-! What happened. -/

def Happened (begun : Migration β) (event : Migration β → MigrationTurn → Prop)
    (taken : List MigrationTurn) : Prop :=
  ∃ earlier turn later, taken = earlier ++ turn :: later ∧ event (begun.turns earlier) turn

variable {event : Migration β → MigrationTurn → Prop}

@[simp] theorem not_happened_nil : ¬ begun.Happened event [] := by
  simp [Happened]

theorem happened_concat (taken : List MigrationTurn) (last : MigrationTurn) :
    begun.Happened event (taken ++ [last]) ↔
      begun.Happened event taken ∨ event (begun.turns taken) last := by
  constructor
  · rintro ⟨earlier, turn, later, same, found⟩
    rcases List.eq_nil_or_concat later with rfl | ⟨front, final, rfl⟩
    · obtain ⟨rfl, rfl⟩ : taken = earlier ∧ last = turn := by simpa using same
      exact .inr found
    · rw [List.concat_eq_append, ← List.cons_append, ← List.append_assoc] at same
      exact .inl ⟨earlier, turn, front, (List.append_inj_left' same rfl), found⟩
  · rintro (⟨earlier, turn, later, rfl, found⟩ | found)
    · exact ⟨earlier, turn, later ++ [last], by simp, found⟩
    · exact ⟨taken, last, [], rfl, found⟩

theorem cancelRequested_turns (fresh : begun.cancelRequested = false)
    (taken : List MigrationTurn) :
    (begun.turns taken).cancelRequested = true ↔
      begun.Happened (fun migration turn => migration.requests turn = true) taken := by
  induction taken using List.reverseRecOn with
  | nil => simp [fresh]
  | append_singleton taken last ih =>
      rw [turns_concat, cancelRequested_turn, Bool.or_eq_true, ih, happened_concat]

/-! Calls on the builder. -/

def nextCall? (migration : Migration β) : Option BuilderCall :=
  match migration.phase with
  | .training construction => some (.train (construction.train migration.job.content).isOk)
  | .inserting construction position =>
    some (.insert position (construction.insert position (migration.job.row position)).isOk)
  | _ => none

def callsOf (migration : Migration β) : MigrationTurn → List BuilderCall
  | .work _ => migration.nextCall?.toList
  | .info | .cancel | .wait | .takeIndex | .release => []

def calls (migration : Migration β) : List MigrationTurn → List BuilderCall
  | [] => []
  | first :: rest => migration.callsOf first ++ (migration.turn first).calls rest

def rowsAdded (migration : Migration β) (taken : List MigrationTurn) : Nat :=
  (migration.calls taken).countP BuilderCall.addsRow

theorem calls_append (migration : Migration β) (taken more : List MigrationTurn) :
    migration.calls (taken ++ more) =
      migration.calls taken ++ (migration.turns taken).calls more := by
  induction taken generalizing migration with
  | nil => rfl
  | cons first rest ih => simp [calls, ih]

theorem rowsAdded_concat (migration : Migration β) (taken : List MigrationTurn)
    (last : MigrationTurn) :
    migration.rowsAdded (taken ++ [last]) = migration.rowsAdded taken +
      ((migration.turns taken).callsOf last).countP BuilderCall.addsRow := by
  simp [rowsAdded, calls_append, calls]

theorem callsOf_of_owner (migration : Migration β) {turn : MigrationTurn}
    (owner : isWork turn = false) : migration.callsOf turn = [] := by
  cases turn <;> first | rfl | simp [isWork] at owner

end Migration

end VectorSearch

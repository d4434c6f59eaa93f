import VectorSearch.Proofs.Answers
/-!
Refused calls. A call on a store or an index is refused for a few reasons only and leaves no trace
then: a run comes to the state of the run in which the refused calls are never made. No call breaks
down but one that brings a new vector into a graph in which some score is undefined then.
-/

namespace VectorSearch

/-! Runs without some calls. -/

section

variable {σ κ : Type}

def withoutIdle (change : κ → Change σ) (idle : σ → κ → Bool) : σ → List κ → List κ
  | _, [] => []
  | state, first :: rest =>
    let later := withoutIdle change idle ((change first).after state) rest
    if idle state first then later else first :: later

def Unbroken (change : κ → Change σ) (start : σ) (calls : List κ) : Prop :=
  ∀ taken request, taken ++ [request] <+: calls →
    (change request).panics (runInPlace change start taken) = false

/-- In a state calls are refused for some reasons, may break down for some others, and leave the
state as it is when they are refused. -/
structure Atomic (change : κ → Change σ) (refuses mayPanic : σ → κ → Prop) (state : σ) :
    Prop where
  refused_iff : ∀ request, (change request).refused state = true ↔ refuses state request
  unchanged : ∀ request, (change request).refused state = true →
    (change request).after state = state
  panics : ∀ request, (change request).panics state = true → mayPanic state request

variable {change : κ → Change σ} {call : σ → κ → Except Failure σ}
  {refuses mayPanic : σ → κ → Prop} {state : σ}

theorem runInPlace_withoutIdle {idle : σ → κ → Bool} (invariant : σ → Prop)
    (kept : ∀ state request, invariant state → invariant ((change request).after state))
    (unchanged : ∀ state request, invariant state → idle state request = true →
      (change request).after state = state)
    (calls : List κ) : ∀ start, invariant start →
      runInPlace change start (withoutIdle change idle start calls) =
        runInPlace change start calls := by
  induction calls with
  | nil => intro start _; rfl
  | cons first rest ih =>
      intro start holds
      have later := ih _ (kept start first holds)
      rw [withoutIdle]
      cases left : idle start first with
      | false => exact later
      | true =>
          have same := unchanged start first holds left
          rw [same] at later ⊢
          exact later.trans (congrArg (runInPlace change · rest) same.symm)

def Follows (change : κ → Change σ) (call : σ → κ → Except Failure σ)
    (mayPanic : σ → κ → Prop) (state : σ) : Prop :=
  ∀ request, (change request).run state = performed state (call state request) ∨
    mayPanic state request ∧
      ∃ words left, (change request).run state = .error (.panicked words) left

namespace Follows

variable (follows : Follows change call mayPanic state)
include follows

theorem after_of_refused {request : κ} (refused : (change request).refused state = true) :
    (change request).after state = state := by
  rcases follows request with run | ⟨_, words, left, run⟩
  · rw [Change.refused_eq run] at refused
    rw [Change.after_eq run]
    cases outcome : call state request with
    | ok after => rw [outcome] at refused; exact nomatch refused
    | error failure => rfl
  · rw [Change.refused_of_panicked run] at refused
    exact nomatch refused

theorem after_of_unbroken {request : κ} (unbroken : (change request).panics state = false) :
    (change request).after state = settle state (call state request) := by
  rcases follows request with run | ⟨_, words, left, run⟩
  · exact Change.after_eq run
  · rw [Change.panics_of_panicked run] at unbroken
    exact nomatch unbroken

theorem atomic (accepted : ∀ request, (call state request).isOk = true ↔ ¬ refuses state request)
    (apart : ∀ request, mayPanic state request → ¬ refuses state request) :
    Atomic change refuses mayPanic state where
  refused_iff request := by
    rcases follows request with run | ⟨may, words, left, run⟩
    · rw [Change.refused_eq run, Bool.not_eq_true', ← Bool.not_eq_true, accepted request, not_not]
    · rw [Change.refused_of_panicked run]
      exact iff_of_false Bool.false_ne_true (apart request may)
  unchanged _ refused := follows.after_of_refused refused
  panics request broken := by
    rcases follows request with run | ⟨may, _⟩
    · rw [Change.panics_eq run] at broken
      exact nomatch broken
    · exact may

end Follows

end

/-! The store. -/

namespace Store

def callInPlace (call : VectorId × Embedding) : Change Store := upsertInPlace call.1 call.2

def Refuses (store : Store) (call : VectorId × Embedding) : Prop :=
  call.2.size ≠ store.dimension

def call (store : Store) (call : VectorId × Embedding) : Except Failure Store :=
  store.upsert call.1 call.2

theorem isOk_call_iff (store : Store) (request : VectorId × Embedding) :
    (store.call request).isOk = true ↔ ¬ store.Refuses request := by
  rw [Refuses, not_not]
  by_cases fits : request.2.size = store.dimension
  · rw [call, (upsert_eq_ok_iff store request.1 request.2 _).mpr ⟨fits, rfl⟩]
    exact iff_of_true rfl fits
  · rw [call, upsert, checkDimension_eq_error fits]
    exact iff_of_false Bool.false_ne_true fits

theorem follows_callInPlace (store : Store) :
    Follows callInPlace call (fun _ _ => False) store :=
  fun request => Or.inl (store.run_upsertInPlace request.1 request.2)

theorem Packed.put_eq {store : Store} (packed : store.Packed) {id : VectorId} {row : Embedding}
    (stored : store.get? id = some row) : store.put id row = store := by
  obtain ⟨offset, found, rfl⟩ := Option.map_eq_some_iff.mp stored
  rw [put_of_known found, Embedding.rowAt, Blocks.splice_block (packed.inside found)]

end Store

/-! The families. -/

theorem exists_of_isOk {α : Type} {outcome : Except Failure α} (accepted : outcome.isOk = true) :
    ∃ result, outcome = .ok result := by
  cases outcome with
  | error failure => exact nomatch accepted
  | ok result => exact ⟨result, rfl⟩

theorem isOk_map {α β : Type} (wrap : α → β) (outcome : Except Failure α) :
    (wrap <$> outcome).isOk = outcome.isOk := by
  cases outcome <;> rfl

theorem FlatIndex.isOk_insert_iff (index : FlatIndex) (id : VectorId) (row : Embedding) :
    (index.insert id row).isOk = true ↔ row.size = index.store.dimension := by
  by_cases fits : row.size = index.store.dimension
  · rw [insert_of_fits fits]
    exact iff_of_true rfl fits
  · rw [insert_of_unfit fits]
    exact iff_of_false Bool.false_ne_true fits

theorem GraphIndex.isOk_insert_iff [Host] (index : GraphIndex) (id : VectorId) (row : Embedding) :
    (index.insert id row).isOk = true ↔ row.size = index.store.dimension := by
  constructor
  · intro accepted
    obtain ⟨after, inserted⟩ := exists_of_isOk accepted
    exact size_of_insertWith inserted
  · intro fits
    cases known : index.store.contains id with
    | true => rw [insert, insertWith_of_known _ fits known]; rfl
    | false => rw [insert, insertWith_of_new _ fits known]; rfl

theorem PartitionIndex.isOk_insert_iff (index : PartitionIndex) (id : VectorId) (row : Embedding) :
    (index.insert id row).isOk = true ↔
      row.size = index.store.dimension ∧ index.lists.size ≠ 0 := by
  constructor
  · intro accepted
    obtain ⟨after, inserted⟩ := exists_of_isOk accepted
    obtain ⟨trained, fits, _⟩ := insert_eq_ok inserted
    exact ⟨fits, Nat.ne_of_gt trained⟩
  · rintro ⟨fits, trained⟩
    rw [insert_of_fits (Nat.pos_of_ne_zero trained) fits]
    rfl

theorem PartitionIndex.isOk_train_iff [Host] (index : PartitionIndex) (buffer : Array Float32) :
    (index.train buffer).isOk = true ↔
      index.store.dimension ≠ 0 ∧ buffer.size % index.store.dimension = 0 := by
  unfold train trainWith
  dsimp only
  split
  · rename_i ragged
    refine iff_of_false Bool.false_ne_true fun whole => ?_
    simp [whole] at ragged
  · rename_i whole
    exact iff_of_true rfl (by simpa using whole)

theorem CodeIndex.isOk_insert_iff (index : CodeIndex) (id : VectorId) (row : Embedding) :
    (index.insert id row).isOk = true ↔ row.size = index.store.dimension ∧ row.size ≠ 0 := by
  constructor
  · intro accepted
    obtain ⟨after, inserted⟩ := exists_of_isOk accepted
    obtain ⟨positive, fits, _⟩ := insert_eq_ok inserted
    exact ⟨fits, fits ▸ Nat.ne_of_gt positive⟩
  · rintro ⟨fits, some⟩
    have coordinates : row.isEmpty = false :=
      Array.isEmpty_eq_false_iff.mpr (Array.size_pos_iff.mp (Nat.pos_of_ne_zero some))
    rw [insert_of_fits coordinates fits]
    rfl

/-! Indexes of any family. -/

namespace Index

def partitions? : Index → Option Nat
  | partition index => some index.lists.size
  | _ => none

/-- Why a call is refused. Only partitions are trained, and only on whole rows; a vector is refused
that has another number of coordinates than the index, that finds no partition, or that has no
coordinates to make a code of. -/
def Refuses (index : Index) : IndexCall → Prop
  | .train buffer => index.kind = .partition ∧
      (index.store.dimension = 0 ∨ buffer.size % index.store.dimension ≠ 0)
  | .insert _ row => row.size ≠ index.store.dimension ∨ index.partitions? = some 0 ∨
      index.kind = .code ∧ row.size = 0

def repeats (index : Index) : IndexCall → Bool
  | .train _ => false
  | .insert id row => index.kind = .graph && index.get? id = some row

theorem isOk_call_iff [Host] (index : Index) (request : IndexCall) :
    (index.call request).isOk = true ↔ ¬ index.Refuses request := by
  cases request with
  | train buffer =>
      cases index with
      | partition index =>
          rw [call, train, isOk_map, PartitionIndex.isOk_train_iff]
          simp [Refuses, kind, store]
      | flat index | graph index | code index => exact iff_of_true rfl (by simp [Refuses, kind])
  | insert id row =>
      cases index with
      | flat index =>
          rw [call, insert, isOk_map, FlatIndex.isOk_insert_iff]
          simp [Refuses, kind, store, partitions?]
      | graph index =>
          rw [call, insert, isOk_map, GraphIndex.isOk_insert_iff]
          simp [Refuses, kind, store, partitions?]
      | partition index =>
          rw [call, insert, isOk_map, PartitionIndex.isOk_insert_iff]
          simp [Refuses, kind, store, partitions?]
      | code index =>
          rw [call, insert, isOk_map, CodeIndex.isOk_insert_iff]
          simp [Refuses, kind, store, partitions?]

theorem after_of_repeats [Host] {index : Index} (packed : index.store.Packed)
    {request : IndexCall} (again : index.repeats request = true) :
    (callInPlace request).after index = index := by
  cases request with
  | train buffer => exact nomatch again
  | insert id row =>
      simp only [repeats, Bool.and_eq_true, decide_eq_true_eq] at again
      obtain ⟨family, stored⟩ := again
      cases index with
      | graph index =>
          have known : index.store.contains id = true := by
            rw [← Store.isSome_get?]
            exact Option.isSome_iff_exists.mpr ⟨row, stored⟩
          have same : index.store.put id row = index.store := packed.put_eq stored
          have inserted : (graph index).call (.insert id row) = .ok (graph index) := by
            rw [call, insert, GraphIndex.insert,
              GraphIndex.insertWith_of_known _ (packed.size_of_get? stored) known, same]
            rfl
          rcases run_callInPlace packed (.insert id row) with run | ⟨⟨_, _, new, _⟩, _⟩
          · rw [Change.after_eq run, inserted]
            rfl
          · exact absurd known (ne_true_of_eq_false new)
      | flat index | partition index | code index => exact nomatch family

theorem MayPanic.not_refuses {index : Index} {request : IndexCall} (may : index.MayPanic request) :
    ¬ index.Refuses request := by
  cases request with
  | train buffer => exact may.elim
  | insert id row =>
      obtain ⟨family, fits, _⟩ := may
      cases index with
      | graph index =>
          rintro (unfit | full | ⟨codes, _⟩)
          · exact unfit fits
          · exact nomatch full
          · exact nomatch codes
      | flat index | partition index | code index => exact nomatch family

theorem follows_callInPlace [Host] {index : Index} (packed : index.store.Packed) :
    Follows callInPlace call MayPanic index := fun request =>
  (run_callInPlace packed request).imp_right fun ⟨may, words, left, run, _⟩ =>
    ⟨may, words, left, run⟩

theorem packed_after [Host] {index : Index} (packed : index.store.Packed) (request : IndexCall) :
    ((callInPlace request).after index).store.Packed := by
  rcases run_callInPlace packed request with run | ⟨may, words, left, run, rest⟩
  · rw [Change.after_eq run]
    cases outcome : index.call request with
    | error failure => exact packed
    | ok after =>
        cases request with
        | train buffer => exact store_of_train outcome ▸ packed
        | insert id row =>
            obtain ⟨fits, store⟩ := store_of_insert outcome
            exact store ▸ packed.put fits
  · rw [Change.after_of_panicked run]
    obtain ⟨inner, id, row, links, rfl, rfl, rfl⟩ := rest
    exact packed.put may.2.1

variable (kind : IndexKind) (dimension : Nat) (settings : IndexSettings)

theorem packed_empty : (empty kind dimension settings).store.Packed := by
  rw [store_empty]
  exact Store.Packed.empty dimension settings.metric

theorem packed_runInPlace [Host] (calls : List IndexCall) :
    (runInPlace callInPlace (empty kind dimension settings) calls).store.Packed :=
  runInPlace_induction (fun index : Index => index.store.Packed)
    (fun _ request packed => packed_after packed request) calls _
    (packed_empty kind dimension settings)

theorem runInPlace_withoutRefused [Host] (calls : List IndexCall) :
    runInPlace callInPlace (empty kind dimension settings)
        (withoutIdle callInPlace (fun index request => (callInPlace request).refused index)
          (empty kind dimension settings) calls) =
      runInPlace callInPlace (empty kind dimension settings) calls :=
  runInPlace_withoutIdle (fun index : Index => index.store.Packed)
    (fun _ request packed => packed_after packed request)
    (fun _ _ packed refused => (follows_callInPlace packed).after_of_refused refused) calls _
    (packed_empty kind dimension settings)

theorem runInPlace_withoutRepeats [Host] (calls : List IndexCall) :
    runInPlace callInPlace (empty kind dimension settings)
        (withoutIdle callInPlace
          (fun index request => (callInPlace request).refused index || index.repeats request)
          (empty kind dimension settings) calls) =
      runInPlace callInPlace (empty kind dimension settings) calls := by
  refine runInPlace_withoutIdle (fun index : Index => index.store.Packed)
    (fun _ request packed => packed_after packed request) ?_ calls _
    (packed_empty kind dimension settings)
  intro index request packed idle
  rcases Bool.or_eq_true _ _ |>.mp idle with refused | again
  · exact (follows_callInPlace packed).after_of_refused refused
  · exact after_of_repeats packed again

theorem runInPlace_of_unbroken [Host] (calls : List IndexCall)
    (unbroken : Unbroken callInPlace (empty kind dimension settings) calls) :
    runInPlace callInPlace (empty kind dimension settings) calls =
      run kind dimension settings calls := by
  induction calls using List.reverseRecOn with
  | nil => rfl
  | append_singleton taken last ih =>
      have before := ih fun earlier request start =>
        unbroken earlier request (start.trans (List.prefix_append taken [last]))
      have packed := packed_runInPlace kind dimension settings taken
      have same := (follows_callInPlace packed).after_of_unbroken
        (unbroken taken last List.prefix_rfl)
      rw [before] at same
      rw [runInPlace_concat, before, same]
      simp [run, runCalls]

end Index

/-- In every state that calls in place lead to, of a store as of an index of any family, a call is
refused just for its reasons and then changes nothing. The calls of a store never break down, and
those of an index only where a new vector comes into a graph in which some score is undefined then.
So a run comes to the same state without the refused calls, and one of a graph also without the
vectors that it stores just so already; if none of its calls breaks down, it is the state of the run
of calls that are taken as a whole. -/
theorem refused_calls_leave_no_trace [Host] (dimension : Nat) (metric : Metric)
    (vectors : List (VectorId × Embedding)) (kind : IndexKind) (settings : IndexSettings)
    (calls : List IndexCall) :
    let store := Store.empty dimension metric
    let index := Index.empty kind dimension settings
    Atomic Store.callInPlace Store.Refuses (fun _ _ => False)
      (runInPlace Store.callInPlace store vectors) ∧
    Atomic Index.callInPlace Index.Refuses Index.MayPanic
      (runInPlace Index.callInPlace index calls) ∧
    runInPlace Store.callInPlace store (withoutIdle Store.callInPlace
      (fun store call => (Store.callInPlace call).refused store) store vectors) =
        runInPlace Store.callInPlace store vectors ∧
    runInPlace Index.callInPlace index (withoutIdle Index.callInPlace
      (fun index call => (Index.callInPlace call).refused index) index calls) =
        runInPlace Index.callInPlace index calls ∧
    runInPlace Index.callInPlace index (withoutIdle Index.callInPlace
      (fun index call => (Index.callInPlace call).refused index || index.repeats call)
      index calls) = runInPlace Index.callInPlace index calls ∧
    (Unbroken Index.callInPlace index calls →
      runInPlace Index.callInPlace index calls = Index.run kind dimension settings calls) := by
  intro store index
  have packed := Index.packed_runInPlace kind dimension settings calls
  exact ⟨(Store.follows_callInPlace _).atomic (Store.isOk_call_iff _) fun _ may => may.elim,
    (Index.follows_callInPlace packed).atomic (Index.isOk_call_iff _)
      fun _ may => may.not_refuses,
    runInPlace_withoutIdle (fun _ => True) (fun _ _ _ => trivial)
      (fun _ _ _ refused => (Store.follows_callInPlace _).after_of_refused refused) vectors store
      trivial,
    Index.runInPlace_withoutRefused kind dimension settings calls,
    Index.runInPlace_withoutRepeats kind dimension settings calls,
    Index.runInPlace_of_unbroken kind dimension settings calls⟩

theorem refused_calls_leave_no_trace_graph :
    let index := Index.empty .graph 1 {}
    let calls : List IndexCall := [.insert 1 #[0], .insert 2 #[1, 2], .insert 1 #[0]]
    let refused : IndexCall := .insert 2 #[1, 2]
    let kept := withoutIdle Index.callInPlace
      (fun index call => (Index.callInPlace call).refused index || index.repeats call) index calls
    (Index.callInPlace refused).refused (runInPlace Index.callInPlace index calls) = true ∧
    (Index.callInPlace refused).after (runInPlace Index.callInPlace index calls) =
      runInPlace Index.callInPlace index calls ∧
    kept.length = 1 ∧
    runInPlace Index.callInPlace index kept = runInPlace Index.callInPlace index calls := by
  intro index calls refused kept
  obtain ⟨_, atomic, _, _, without, _⟩ := refused_calls_leave_no_trace 1 .cosine [] .graph {} calls
  have failed := (atomic.refused_iff refused).mpr (.inl (by decide +kernel))
  exact ⟨failed, atomic.unchanged refused failed, by decide +kernel, without⟩

end VectorSearch

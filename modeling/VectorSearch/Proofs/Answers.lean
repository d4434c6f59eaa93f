import Mathlib.Logic.Function.Basic
import VectorSearch.Proofs.Graph.InPlace
/-!
What searches answer. Calls made in place lead an index of any family from state to state, also
through calls that break down; in all these states a search finds stored vectors only, none of them
twice, with the scores of the embeddings that were last accepted for them.
-/

namespace VectorSearch

namespace Index

variable {index left : Index} {request : IndexCall}

def callInPlace [Host] : IndexCall → Change Index
  | .train buffer => trainInPlace buffer
  | .insert id row => insertInPlace id row

/-- The only call that may break down brings a new vector into a graph in which some score is
undefined then. -/
def MayPanic (index : Index) : IndexCall → Prop
  | .train _ => False
  | .insert id row => index.kind = .graph ∧ row.size = index.store.dimension ∧
      index.store.contains id = false ∧ ¬ (index.store.put id row).PairsDefined

/-- What is left of a call that breaks down: a graph that has stored the vector and drawn a level
for it, with some links. -/
def Interrupted (index : Index) (request : IndexCall) (left : Index) : Prop :=
  ∃ inner id row links, index = graph inner ∧ request = .insert id row ∧
    left = graph { inner.awaiting id row with links }

theorem run_trainInPlace [Host] (index : Index) (buffer : Array Float32) :
    (trainInPlace buffer).run index = performed index (index.train buffer) := by
  cases index with
  | partition index => exact Change.runIn_eq (index.run_trainInPlace buffer)
  | flat index | graph index | code index => rfl

theorem run_insertInPlace [Host] (packed : index.store.Packed) (id : VectorId) (row : Embedding) :
    (insertInPlace id row).run index = performed index (index.insert id row) ∨
      index.MayPanic (.insert id row) ∧ ∃ words left,
        (insertInPlace id row).run index = .error (.panicked words) left ∧
          index.Interrupted (.insert id row) left := by
  cases index with
  | flat index => exact Or.inl (Change.runIn_eq (index.run_insertInPlace id row))
  | graph index =>
      rcases index.run_insertInPlace packed id row with
        run | ⟨fits, new, undefined, words, links, run⟩
      · exact Or.inl (Change.runIn_eq run)
      · refine Or.inr ⟨⟨rfl, fits, new, undefined⟩, words, _, ?_, index, id, row, links, rfl, rfl,
          rfl⟩
        change Change.runIn graph (GraphIndex.insertInPlace id row) index = _
        rw [Change.runIn, run]
  | partition index => exact Or.inl (Change.runIn_eq (index.run_insertInPlace id row))
  | code index => exact Or.inl (Change.runIn_eq (index.run_insertInPlace id row))

theorem run_callInPlace [Host] (packed : index.store.Packed) (request : IndexCall) :
    (callInPlace request).run index = performed index (index.call request) ∨
      index.MayPanic request ∧ ∃ words left,
        (callInPlace request).run index = .error (.panicked words) left ∧
          index.Interrupted request left := by
  cases request with
  | train buffer => exact Or.inl (index.run_trainInPlace buffer)
  | insert id row => exact run_insertInPlace packed id row

theorem Interrupted.kept (interrupted : index.Interrupted request left) (kept : index.Kept) :
    left.Kept := by
  obtain ⟨inner, id, row, links, rfl, rfl, rfl⟩ := interrupted
  exact fun entry begins => (Store.contains_put ..).mpr (Or.inr (kept entry begins))

end Index

structure IndexHistory where
  index : Index
  accepted : VectorId → Option Embedding

namespace IndexHistory

def next [Host] (history : IndexHistory) (request : IndexCall) : IndexHistory where
  index := (Index.callInPlace request).after history.index
  accepted :=
    match request with
    | .train _ => history.accepted
    | .insert id row =>
      if (Index.callInPlace request).refused history.index then history.accepted
      else Function.update history.accepted id (some row)

def run [Host] (kind : IndexKind) (dimension : Nat) (settings : IndexSettings)
    (calls : List IndexCall) : IndexHistory :=
  calls.foldl next ⟨.empty kind dimension settings, fun _ => none⟩

theorem index_run [Host] (kind : IndexKind) (dimension : Nat) (settings : IndexSettings)
    (calls : List IndexCall) :
    (run kind dimension settings calls).index =
      runInPlace Index.callInPlace (.empty kind dimension settings) calls := by
  unfold run runInPlace
  exact (List.foldl_hom index fun _ _ => rfl).symm

/-- The store has the embeddings that were last accepted, and no others. -/
structure Recorded (history : IndexHistory) (dimension : Nat) (metric : Metric) : Prop where
  kept : history.index.Kept
  packed : history.index.store.Packed
  dimension : history.index.store.dimension = dimension
  metric : history.index.store.metric = metric
  stored : ∀ id, history.index.get? id = history.accepted id

variable {history after : IndexHistory} {dimension : Nat} {metric : Metric}

theorem Recorded.empty (kind : IndexKind) (dimension : Nat) (settings : IndexSettings) :
    Recorded ⟨.empty kind dimension settings, fun _ => none⟩ dimension settings.metric := by
  have store := Index.store_empty kind dimension settings
  refine ⟨Index.Kept.empty kind dimension settings, ?_, ?_, ?_, fun id => ?_⟩
  · exact store ▸ Store.Packed.empty dimension settings.metric
  · exact store ▸ rfl
  · exact store ▸ rfl
  · rw [Index.get?, store]
    simp [Store.empty, Store.get?]

theorem Recorded.put (recorded : history.Recorded dimension metric) {id : VectorId}
    {row : Embedding} (fits : row.size = history.index.store.dimension) {index : Index}
    (store : index.store = history.index.store.put id row) (kept : index.Kept) :
    Recorded ⟨index, Function.update history.accepted id (some row)⟩ dimension metric := by
  refine ⟨kept, ?_, ?_, ?_, fun other => ?_⟩
  · exact store ▸ recorded.packed.put fits
  · exact store ▸ (Store.dimension_put ..).trans recorded.dimension
  · exact store ▸ (Store.metric_put ..).trans recorded.metric
  · rw [Index.get?, store, recorded.packed.get?_put fits]
    dsimp only
    rw [Function.update_apply]
    split
    · rfl
    · exact recorded.stored other

theorem Recorded.next [Host] (recorded : history.Recorded dimension metric)
    (request : IndexCall) : (history.next request).Recorded dimension metric := by
  unfold IndexHistory.next
  rcases Index.run_callInPlace recorded.packed request with run | ⟨may, words, left, run, rest⟩
  · rw [Change.after_eq run, Change.refused_eq run]
    cases request with
    | train buffer =>
        cases outcome : history.index.call (.train buffer) with
        | error failure => exact recorded
        | ok index =>
            have store := Index.store_of_train outcome
            refine ⟨recorded.kept.train outcome, ?_, ?_, ?_, fun id => ?_⟩
            · exact store ▸ recorded.packed
            · exact store ▸ recorded.dimension
            · exact store ▸ recorded.metric
            · exact (congrArg (·.get? id) store).trans (recorded.stored id)
    | insert id row =>
        cases outcome : history.index.call (.insert id row) with
        | error failure => exact recorded
        | ok index =>
            obtain ⟨fits, store⟩ := Index.store_of_insert outcome
            exact recorded.put fits store (recorded.kept.insert outcome)
  · rw [Change.after_of_panicked run, Change.refused_of_panicked run]
    have kept := rest.kept recorded.kept
    obtain ⟨inner, id, row, links, same, rfl, rfl⟩ := rest
    exact recorded.put may.2.1 (by rw [same]; rfl) kept

theorem recorded_run [Host] (kind : IndexKind) (dimension : Nat) (settings : IndexSettings)
    (calls : List IndexCall) :
    (run kind dimension settings calls).Recorded dimension settings.metric := by
  unfold run
  have start := Recorded.empty kind dimension settings
  generalize (⟨.empty kind dimension settings, fun _ => none⟩ : IndexHistory) = history at start ⊢
  induction calls generalizing history with
  | nil => exact start
  | cons first rest ih => exact ih _ (start.next first)

end IndexHistory

namespace Index

/-- After any calls on an index of any family, also after some that broke down, a search is refused
just for queries of a wrong dimension. Otherwise it gives stored vectors, none of them twice and no
more than asked for, each with the score of the embedding last accepted for it, and in order unless
a score is undefined; its sort breaks down only if one is, and more than twenty vectors are
stored. -/
theorem search_run_answers [Host] (kind : IndexKind) (dimension : Nat) (settings : IndexSettings)
    (calls : List IndexCall) (query : Embedding) (count : Nat) (knobs : Knobs) :
    let index := runInPlace callInPlace (empty kind dimension settings) calls
    let accepted := (IndexHistory.run kind dimension settings calls).accepted
    let outcome := index.trySearch query count knobs
    (query.size ≠ dimension →
      outcome = .error (.refused (.dimensionMismatch dimension query.size))) ∧
    (query.size = dimension →
      (∃ hits, outcome = .ok hits ∧ index.search query count knobs = .ok hits ∧
        (hits.map (·.id)).Nodup ∧
        (∀ hit ∈ hits, ∃ row, accepted hit.id = some row ∧ index.get? hit.id = some row ∧
          hit.score = similarity settings.metric query row) ∧
        hits.length ≤ min count index.store.size ∧
        (index.store.ScoresDefined query → hits.Pairwise Hit.RanksAbove)) ∨
      outcome = .error (.panicked Host.complaint) ∧ 20 < index.store.size ∧
        ¬ index.store.ScoresDefined query) := by
  intro index accepted outcome
  have recorded := IndexHistory.recorded_run kind dimension settings calls
  obtain ⟨kept, _, sameDimension, sameMetric, stored⟩ := recorded
  rw [IndexHistory.index_run] at kept sameDimension sameMetric stored
  refine ⟨fun unfit => ?_, fun fits => ?_⟩
  · exact (trySearch_of_unfit (sameDimension ▸ unfit) count knobs).trans (by rw [sameDimension])
  · rcases kept.trySearch_cases (sameDimension ▸ fits) count knobs with
      ⟨hits, answered, searched, answers⟩ | broken
    · refine Or.inl ⟨hits, answered, searched, answers.distinct, fun hit member => ?_,
        Nat.le_min.mpr ⟨answers.few, answers.length_le_size⟩, answers.ordered⟩
      obtain ⟨row, known, score⟩ := (Store.scored_iff ..).mp (answers.scored hit member)
      exact ⟨row, (stored hit.id).symm.trans known, known, sameMetric ▸ score⟩
    · exact Or.inr broken

theorem search_run_answers_two :
    let calls : List IndexCall := [.insert 1 #[2, -1], .insert 2 #[-1, 3], .insert 1 #[1, 1]]
    let settings : IndexSettings := { metric := .dotProduct }
    let index := runInPlace callInPlace (empty .code 2 settings) calls
    let accepted := (IndexHistory.run .code 2 settings calls).accepted
    (#[1] : Embedding).size ≠ 2 ∧
    index.trySearch #[1] 1 {} = .error (.refused (.dimensionMismatch 2 1)) ∧
    (#[1, -1] : Embedding).size = 2 ∧ index.store.ScoresDefined #[1, -1] ∧
    ∃ hits, index.trySearch #[1, -1] 1 {} = .ok hits ∧ (hits.map (·.id)).Nodup ∧
      (∀ hit ∈ hits, ∃ row, accepted hit.id = some row ∧ index.get? hit.id = some row ∧
        hit.score = similarity .dotProduct #[1, -1] row) ∧
      hits.length ≤ min 1 index.store.size ∧ hits.Pairwise Hit.RanksAbove := by
  intro calls settings index accepted
  have defined : index.store.ScoresDefined #[1, -1] :=
    Store.scoresDefined_of_all (by decide +kernel)
  have unfit : (#[1] : Embedding).size ≠ 2 := by decide
  have refused := (search_run_answers .code 2 settings calls #[1] 1 {}).1 unfit
  rcases (search_run_answers .code 2 settings calls #[1, -1] 1 {}).2 rfl with
    ⟨hits, found, _, distinct, scored, few, ordered⟩ | ⟨_, _, undefined⟩
  · exact ⟨unfit, refused, rfl, defined, hits, found, distinct, scored, few, ordered defined⟩
  · exact absurd defined undefined

end Index

end VectorSearch

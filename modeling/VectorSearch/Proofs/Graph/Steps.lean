import VectorSearch.Index.Graph.Steps
import VectorSearch.Proofs.Graph.Unpruned
/-!
The steps of insertions. Taken one after another they come to what an insertion gives as a whole;
a node is offered links to the nodes that it selected and to those that selected it.
-/

namespace VectorSearch

namespace LinkStep

@[simp] theorem offered_nil (layer : Nat) (id : VectorId) : offered layer id [] = [] := rfl

@[simp] theorem offered_append (layer : Nat) (id : VectorId) (log more : List LinkStep) :
    offered layer id (log ++ more) = offered layer id log ++ offered layer id more :=
  List.flatMap_append

@[simp] theorem offered_cons (layer : Nat) (id : VectorId) (step : LinkStep)
    (log : List LinkStep) :
    offered layer id (step :: log) = step.offers layer id ++ offered layer id log := rfl

theorem offered_subset {log more : List LinkStep} (inside : log ⊆ more) (layer : Nat)
    (id : VectorId) : offered layer id log ⊆ offered layer id more := by
  intro link member
  obtain ⟨step, found, made⟩ := List.mem_flatMap.mp member
  exact List.mem_flatMap.mpr ⟨step, inside found, made⟩

def Answered (log : List LinkStep) : Prop :=
  ∀ newcomer layer id, linkBack newcomer layer id ∈ log ↔
    ∃ chosen, select newcomer layer chosen ∈ log ∧ id ∈ chosen

theorem Answered.nil : Answered [] := fun _ _ _ => by simp

theorem Answered.append {log more : List LinkStep} (answered : Answered log)
    (others : Answered more) : Answered (log ++ more) := by
  intro newcomer layer id
  rw [List.mem_append, answered, others]
  simp [or_and_right, exists_or]

theorem mem_offered {log : List LinkStep} (answered : Answered log) (layer : Nat)
    (id link : VectorId) : link ∈ offered layer id log ↔
      ∃ chosen, select id layer chosen ∈ log ∧ link ∈ chosen ∨
        select link layer chosen ∈ log ∧ id ∈ chosen := by
  rw [exists_or, ← answered link layer id, offered, List.mem_flatMap]
  constructor
  · rintro ⟨step, member, made⟩
    cases step with
    | addNode other level => exact absurd made List.not_mem_nil
    | select selecting place chosen =>
        by_cases here : selecting = id ∧ place = layer
        · obtain ⟨rfl, rfl⟩ := here
          exact .inl ⟨chosen, member, by simpa [offers] using made⟩
        · simp [offers, here] at made
    | linkBack newcomer place selected =>
        by_cases here : selected = id ∧ place = layer
        · obtain ⟨rfl, rfl⟩ := here
          obtain rfl : link = newcomer := by simpa [offers] using made
          exact .inr member
        · simp [offers, here] at made
  · rintro (⟨chosen, member, selected⟩ | member)
    · exact ⟨_, member, by simpa [offers] using selected⟩
    · exact ⟨_, member, by simp [offers]⟩

end LinkStep

namespace GraphIndex

open LinkStep

variable {levelOf : Nat → Nat} {index : GraphIndex} {id : VectorId} {row : Embedding}

/-! What the steps of an insertion come to. -/

theorem foldl_linkSteps [Host] (index : GraphIndex) (id : VectorId) (layer : Nat)
    (chosen : List VectorId) (table : LinkTable) :
    (linkSteps id layer chosen).foldl (apply index.store index.settings) table =
      index.linkTo id layer chosen table := by
  rw [linkSteps, List.foldl_cons, List.foldl_map]
  rfl

theorem foldl_linkDownSteps [Host] (index : GraphIndex) (id : VectorId) (row : Embedding)
    (layer : Nat) : ∀ table start, (index.linkDownSteps id row layer (table, start)).foldl
      (apply index.store index.settings) table =
        (index.linkDown id row layer (table, start)).1 := by
  induction layer with
  | zero =>
      intro table start
      exact foldl_linkSteps index id 0 _ table
  | succ layer ih =>
      intro table start
      rw [linkDownSteps, List.foldl_append, foldl_linkSteps]
      exact ih _ _

theorem foldl_attachSteps [Host] (index : GraphIndex) (id : VectorId) (row : Embedding)
    (level : Nat) :
    (index.attachSteps id row level).foldl (apply index.store index.settings) index.links =
      (index.attach id row level).links := by
  cases place : index.entry with
  | none =>
      rw [attach_of_none place, attachSteps, place]
      rfl
  | some entry =>
      rw [attach_of_some place, attachSteps, place]
      exact foldl_linkDownSteps index id row _ _ _

theorem insertSteps_of_unfit [Host] (levelOf : Nat → Nat) (unfit : row.size ≠ index.store.dimension)
    (id : VectorId) : index.insertSteps levelOf id row = [] := by
  rw [insertSteps, Store.upsert, Store.checkDimension_eq_error unfit]
  rfl

theorem insertSteps_of_new [Host] (levelOf : Nat → Nat) (fits : row.size = index.store.dimension)
    (unknown : index.store.contains id = false) :
    index.insertSteps levelOf id row =
      (index.awaiting id row).attachSteps id row (levelOf (index.drawn + 1)) := by
  rw [insertSteps, (Store.upsert_eq_ok_iff index.store id row _).mpr ⟨fits, rfl⟩]
  dsimp only
  rw [unknown]
  rfl

/-! Selections and links back. -/

theorem answered_linkSteps (id : VectorId) (layer : Nat) (chosen : List VectorId) :
    Answered (linkSteps id layer chosen) := by
  intro newcomer place selected
  simp only [linkSteps, List.mem_cons, List.mem_map, reduceCtorEq, false_or]
  constructor
  · rintro ⟨other, member, same⟩
    obtain ⟨rfl, rfl, rfl⟩ := LinkStep.linkBack.inj same
    exact ⟨chosen, by simp, member⟩
  · rintro ⟨nodes, made, member⟩
    obtain ⟨rfl, rfl, rfl⟩ : newcomer = id ∧ place = layer ∧ nodes = chosen := by simpa using made
    exact ⟨selected, member, rfl⟩

theorem answered_linkDownSteps [Host] (index : GraphIndex) (id : VectorId) (row : Embedding)
    (layer : Nat) : ∀ state, Answered (index.linkDownSteps id row layer state) := by
  induction layer with
  | zero => intro state; exact answered_linkSteps id 0 _
  | succ layer ih => intro state; exact (answered_linkSteps id (layer + 1) _).append (ih _)

theorem answered_attachSteps [Host] (index : GraphIndex) (id : VectorId) (row : Embedding)
    (level : Nat) : Answered (index.attachSteps id row level) := by
  have added : Answered [.addNode id level] := fun _ _ _ => by simp
  refine added.append ?_
  split
  · exact .nil
  · exact answered_linkDownSteps index id row _ _

theorem answered_insertSteps [Host] (levelOf : Nat → Nat) (index : GraphIndex) (id : VectorId)
    (row : Embedding) : Answered (index.insertSteps levelOf id row) := by
  rw [insertSteps]
  split
  · exact .nil
  · split
    · exact .nil
    · exact answered_attachSteps _ id row _

/-! Runs. -/

def stepsFrom [Host] (levelOf : Nat → Nat) : GraphIndex → List (VectorId × Embedding) →
    List LinkStep
  | _, [] => []
  | index, (id, row) :: rest =>
    index.insertSteps levelOf id row ++
      stepsFrom levelOf (settle index (index.insertWith levelOf id row)) rest

def runSteps [Host] (levelOf : Nat → Nat) (dimension : Nat) (metric : Metric)
    (settings : GraphSettings) (calls : List (VectorId × Embedding)) : List LinkStep :=
  stepsFrom levelOf (empty dimension metric settings) calls

variable {dimension : Nat} {metric : Metric} {settings : GraphSettings}
  {calls : List (VectorId × Embedding)}

theorem run_concat [Host] (levelOf : Nat → Nat) (dimension : Nat) (metric : Metric)
    (settings : GraphSettings) (calls : List (VectorId × Embedding))
    (next : VectorId × Embedding) :
    run levelOf dimension metric settings (calls ++ [next]) =
      settle (run levelOf dimension metric settings calls)
        ((run levelOf dimension metric settings calls).insertWith levelOf next.1 next.2) := by
  simp [run, runCalls]

theorem runSteps_concat [Host] (levelOf : Nat → Nat) (dimension : Nat) (metric : Metric)
    (settings : GraphSettings) (calls : List (VectorId × Embedding))
    (next : VectorId × Embedding) :
    runSteps levelOf dimension metric settings (calls ++ [next]) =
      runSteps levelOf dimension metric settings calls ++
        (run levelOf dimension metric settings calls).insertSteps levelOf next.1 next.2 := by
  unfold runSteps run
  generalize empty dimension metric settings = start
  induction calls generalizing start with
  | nil => simp [stepsFrom, runCalls]
  | cons first rest ih =>
      rw [List.cons_append, stepsFrom, ih, stepsFrom, List.append_assoc]
      rfl

theorem answered_runSteps [Host] (levelOf : Nat → Nat) (dimension : Nat) (metric : Metric)
    (settings : GraphSettings) (calls : List (VectorId × Embedding)) :
    Answered (runSteps levelOf dimension metric settings calls) := by
  induction calls using List.reverseRecOn with
  | nil => exact .nil
  | append_singleton calls next ih =>
      rw [runSteps_concat]
      exact ih.append (answered_insertSteps levelOf _ _ _)

end GraphIndex

end VectorSearch

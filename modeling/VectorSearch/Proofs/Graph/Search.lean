import VectorSearch.Proofs.Flat
import VectorSearch.Proofs.Graph.Structure
/-!
Searches of the graph. The walk down ends at a stored vector, from which a beam search finds stored
vectors with their scores, none of them twice.
-/

namespace VectorSearch.GraphIndex

variable {index : GraphIndex}

def beam [Host] (index : GraphIndex) (query : Embedding) (count : Nat) (knobs : Knobs)
    (start : VectorId) : List Hit :=
  Beam.search (index.links.linksAt 0) (index.store.score query) index.store.size
    (index.breadth count knobs) start

theorem found_of_unfit {query : Embedding} (unfit : query.size ≠ index.store.dimension)
    (count : Nat) (knobs : Knobs) :
    index.found query count knobs =
      .error (.dimensionMismatch index.store.dimension query.size) := by
  rw [found, Store.checkDimension_eq_error unfit]
  rfl

theorem search_of_unfit [Host] {query : Embedding} (unfit : query.size ≠ index.store.dimension)
    (count : Nat) (knobs : Knobs) :
    index.search query count knobs =
      .error (.dimensionMismatch index.store.dimension query.size) := by
  rw [search, found_of_unfit unfit]
  rfl

theorem search_of_found [Host] {query : Embedding} {count : Nat} {knobs : Knobs} {hits : List Hit}
    (fetched : index.found query count knobs = .ok hits) :
    index.search query count knobs = .ok (Hit.rank hits count) := by
  rw [search, fetched]
  rfl

def Anchored (index : GraphIndex) : Prop :=
  ∀ entry, index.entry = some entry → index.store.contains entry = true

theorem Anchored.found_of_fits (anchored : index.Anchored) {query : Embedding}
    (fits : query.size = index.store.dimension) (count : Nat) (knobs : Knobs) :
    ∃ hits, index.found query count knobs = .ok hits ∧ index.store.Fetches query hits := by
  have checked := (Store.checkDimension_eq_ok_iff index.store query).mpr fits
  cases begins : index.entry with
  | none =>
      refine ⟨[], ?_, Store.Fetches.nil ..⟩
      rw [found, checked, begins]
      rfl
  | some entry =>
      refine ⟨_, by rw [found, checked, begins]; rfl, ?_⟩
      have stored := anchored entry begins
      rw [← Store.isSome_score index.store query] at stored
      obtain ⟨value, scored⟩ := Option.isSome_iff_exists.mp
        (Descent.isSome_descend index.links.linksAt index.store.size 1 index.topLevel entry stored)
      obtain ⟨_, distinct, sound⟩ := @Beam.found_sound (fun _ => True) (index.store.score query)
        (index.links.linksAt 0) index.store.size (index.breadth count knobs) _ value scored trivial
        (fun _ _ _ _ => trivial)
      exact ⟨distinct, fun hit member => (sound hit member).2⟩

theorem WellFormed.anchored (wellFormed : index.WellFormed) : index.Anchored := by
  intro entry begins
  rw [← wellFormed.nodes]
  exact LinkTable.contains_of_height (wellFormed.entry_top entry begins ▸ Nat.succ_pos _)

theorem WellFormed.search_eq [Host] (wellFormed : index.WellFormed) {query : Embedding}
    (fits : query.size = index.store.dimension) (count : Nat) (knobs : Knobs) :
    (index.store.isEmpty = true ∧ index.search query count knobs = .ok []) ∨
      ∃ start, index.store.contains start = true ∧
        index.search query count knobs = .ok ((index.beam query count knobs start).take count) := by
  have checked := (Store.checkDimension_eq_ok_iff index.store query).mpr fits
  cases begins : index.entry with
  | none =>
      refine Or.inl ⟨wellFormed.entry_eq_none_iff.mp begins, ?_⟩
      have fetched : index.found query count knobs = .ok [] := by
        rw [found, checked, begins]
        rfl
      rw [search_of_found fetched, Hit.rank_nil]
  | some entry =>
      have stored := wellFormed.anchored entry begins
      rw [← Store.isSome_score index.store query] at stored
      refine Or.inr ⟨_, ?_, search_of_found (by rw [found, checked, begins]; rfl)⟩
      rw [← Store.isSome_score index.store query]
      exact Descent.isSome_descend index.links.linksAt index.store.size 1 index.topLevel entry
        stored

theorem Anchored.empty (dimension : Nat) (metric : Metric) (settings : GraphSettings) :
    (empty dimension metric settings).Anchored :=
  (WellFormed.empty dimension metric settings).anchored

theorem entry_attach [Host] (index : GraphIndex) (id : VectorId) (row : Embedding) (level : Nat) :
    (index.attach id row level).entry = index.entry ∨
      (index.attach id row level).entry = some id := by
  cases place : index.entry with
  | none =>
      rw [attach_of_none place]
      exact Or.inr rfl
  | some entry =>
      rw [attach_of_some place]
      dsimp only
      split
      · exact Or.inr rfl
      · exact Or.inl rfl

theorem Anchored.insertWith [Host] (anchored : index.Anchored) {levelOf : Nat → Nat}
    {after : GraphIndex} {id : VectorId} {row : Embedding}
    (inserted : index.insertWith levelOf id row = .ok after) : after.Anchored := by
  have fits := size_of_insertWith inserted
  intro entry begins
  rw [store_of_insertWith inserted, Store.contains_put]
  cases known : index.store.contains id with
  | true =>
      rw [insertWith_of_known levelOf fits known] at inserted
      obtain rfl := Except.ok.inj inserted
      exact Or.inr (anchored entry begins)
  | false =>
      rw [insertWith_of_new levelOf fits known] at inserted
      obtain rfl := Except.ok.inj inserted
      rcases entry_attach (index.awaiting id row) id row (levelOf (index.drawn + 1)) with same | new
      · exact Or.inr (anchored entry (same ▸ begins))
      · exact Or.inl (Option.some.inj (begins.symm.trans new))

theorem WellFormed.stored_of_link (wellFormed : index.WellFormed) {layer : Nat} {id link : VectorId}
    (member : link ∈ index.links.linksAt layer id) : index.store.contains link = true := by
  rw [← wellFormed.nodes]
  exact LinkTable.contains_of_height
    (Nat.zero_lt_of_lt (wellFormed.sound.target layer id link member).2)

theorem beam_sound [Host] {start : VectorId} (stored : index.store.contains start = true)
    (query : Embedding) (count : Nat) (knobs : Knobs) :
    ((index.beam query count knobs start).map (·.id)).Nodup ∧
      ∀ hit ∈ index.beam query count knobs start, index.store.Scored query hit := by
  have scored := stored
  rw [← Store.isSome_score index.store query] at scored
  obtain ⟨value, found⟩ := Option.isSome_iff_exists.mp scored
  obtain ⟨_, distinct, inside⟩ := @Beam.search_sound (fun _ => True) (index.store.score query) _
    (index.links.linksAt 0) index.store.size (index.breadth count knobs) start value found trivial
    (fun _ _ _ _ => trivial)
  exact ⟨distinct, fun hit member => (inside hit member).2⟩

end VectorSearch.GraphIndex

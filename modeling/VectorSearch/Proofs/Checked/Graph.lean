import VectorSearch.Checked.Graph
import VectorSearch.Proofs.Checked.Access
import VectorSearch.Proofs.Graph.Structure
/-!
Calls of a graph index without a fault. Its searches read nothing but scores; in a packed store
every score can be read, before a vector is stored and afterwards.
-/

namespace VectorSearch

variable {checked : VectorId → Checked (Option Float32)} {score : VectorId → Option Float32}

/-! Beam search. -/

namespace Beam

theorem visitChecked_ok (reads : ∀ id, checked id = .ok (score id)) (width : Nat) (beam : Beam)
    (neighbor : VectorId) :
    beam.visitChecked width checked neighbor = .ok (beam.visit width score neighbor) := by
  rw [visitChecked, reads]
  by_cases seen : beam.seen.contains neighbor = true
  · rw [if_pos seen, visit, if_pos seen]
    rfl
  · rw [if_neg seen]
    rfl

theorem expandChecked_ok (reads : ∀ id, checked id = .ok (score id)) (width : Nat)
    (links : VectorId → List VectorId) (rounds : Nat) : ∀ beam,
    expandChecked width links checked rounds beam =
      .ok (expandFrom width links score rounds beam) := by
  induction rounds with
  | zero => intro beam; rfl
  | succ rounds ih =>
      intro beam
      rw [expandChecked, expandFrom]
      cases beam.candidates.pop? bestFirst with
      | none => rfl
      | some popped =>
          dsimp only
          by_cases settled : beam.isSettled width popped.1 = true
          · rw [if_pos settled, if_pos settled]
            rfl
          · rw [if_neg settled, if_neg settled, foldlM_ok (visitChecked_ok reads width)]
            exact ih _

theorem searchChecked_ok [Host] (reads : ∀ id, checked id = .ok (score id))
    (links : VectorId → List VectorId) (nodes width : Nat) (first : VectorId) :
    searchChecked links checked nodes width first = .ok (search links score nodes width first) := by
  rw [searchChecked, search, found, reads, Checked.ok_bind]
  cases score first with
  | none => exact congrArg Except.ok Hit.sort_nil.symm
  | some value =>
      dsimp only
      rw [expandChecked_ok reads]
      rfl

end Beam

/-! Descent. -/

namespace Descent

theorem bestOfChecked_ok (reads : ∀ id, checked id = .ok (score id)) (current : Hit)
    (neighbors : List VectorId) :
    bestOfChecked checked current neighbors = .ok (bestOf score current neighbors) := by
  refine foldlM_ok (fun best neighbor => ?_) neighbors current
  rw [reads]
  rfl

theorem walkChecked_ok (reads : ∀ id, checked id = .ok (score id))
    (links : VectorId → List VectorId) (steps : Nat) : ∀ current,
    walkChecked links checked steps current = .ok (walkFrom links score steps current) := by
  induction steps with
  | zero => intro current; rfl
  | succ steps ih =>
      intro current
      rw [walkChecked, walkFrom, reads, Checked.ok_bind]
      cases score current with
      | none => rfl
      | some value =>
          dsimp only
          rw [bestOfChecked_ok reads, Checked.ok_bind]
          by_cases done : (bestOf score ⟨current, value⟩ (links current)).id = current
          · rw [if_pos done, if_pos done]
            rfl
          · rw [if_neg done, if_neg done]
            exact ih _

theorem descendChecked_ok (reads : ∀ id, checked id = .ok (score id))
    (links : Nat → VectorId → List VectorId) (nodes low count : Nat) : ∀ current,
    descendChecked links checked nodes low count current =
      .ok (descend links score nodes low count current) := by
  induction count with
  | zero => intro current; rfl
  | succ count ih =>
      intro current
      rw [descendChecked, descend, walkChecked_ok reads]
      exact ih _

end Descent

/-! Links. -/

namespace GraphIndex

variable {index : GraphIndex} {store : Store}

theorem nearestLinksChecked_ok [Host] (packed : store.Packed) (capacity : Nat) (id : VectorId)
    (links : LinkSet) :
    nearestLinksChecked store capacity id links = .ok (nearestLinks store capacity id links) := by
  rw [nearestLinksChecked, nearestLinks, packed.getChecked, Checked.ok_bind]
  cases store.get? id with
  | none => rfl
  | some row =>
      dsimp only
      rw [packed.hitsOfChecked]
      rfl

theorem linksWithChecked_ok [Host] (packed : store.Packed) (capacity : Nat) (newcomer id : VectorId)
    (links : LinkSet) :
    linksWithChecked store capacity newcomer id links =
      .ok (linksWith store capacity newcomer id links) := by
  unfold linksWithChecked linksWith
  dsimp only
  split
  · exact nearestLinksChecked_ok packed capacity id _
  · rfl

theorem linkBackChecked_ok [Host] (packed : store.Packed) (capacity layer : Nat)
    (newcomer : VectorId) (table : LinkTable) (id : VectorId) :
    linkBackChecked store capacity layer newcomer table id =
      .ok (linkBack store capacity layer newcomer table id) := by
  unfold linkBackChecked linkBack
  cases found : table.linksAt? layer id with
  | none =>
      exact congrArg Except.ok (LinkTable.modifyLinks_congr fun links present =>
        nomatch found.symm.trans present)
  | some links =>
      dsimp only
      rw [linksWithChecked_ok packed]
      refine congrArg Except.ok (LinkTable.modifyLinks_congr fun other present => ?_)
      obtain rfl := Option.some.inj (found.symm.trans present)
      rfl

theorem linkToChecked_ok [Host] (packed : index.store.Packed) (id : VectorId) (layer : Nat)
    (chosen : List VectorId) (table : LinkTable) :
    index.linkToChecked id layer chosen table = .ok (index.linkTo id layer chosen table) :=
  foldlM_ok (linkBackChecked_ok packed _ layer id) chosen _

theorem linkLayerChecked_ok [Host] (packed : index.store.Packed) (id : VectorId) (row : Embedding)
    (layer : Nat) (state : LinkTable × VectorId) :
    index.linkLayerChecked id row layer state = .ok (index.linkLayer id row layer state) := by
  rw [linkLayerChecked, Beam.searchChecked_ok (packed.scoreChecked row), Checked.ok_bind,
    linkToChecked_ok packed]
  rfl

theorem linkDownChecked_ok [Host] (packed : index.store.Packed) (id : VectorId) (row : Embedding)
    (layer : Nat) : ∀ state,
    index.linkDownChecked id row layer state = .ok (index.linkDown id row layer state) := by
  induction layer with
  | zero => exact linkLayerChecked_ok packed id row 0
  | succ layer ih =>
      intro state
      rw [linkDownChecked, linkDown, linkLayerChecked_ok packed]
      exact ih _

/-! Calls. -/

theorem attachChecked_ok [Host] (packed : index.store.Packed) (id : VectorId) (row : Embedding)
    (level : Nat) : index.attachChecked id row level = .ok (index.attach id row level) := by
  rw [attachChecked, attach]
  cases index.entry with
  | none => rfl
  | some entry =>
      dsimp only
      rw [Descent.descendChecked_ok (packed.scoreChecked row), Checked.ok_bind,
        linkDownChecked_ok packed, Checked.ok_bind]
      by_cases higher : index.topLevel < level
      · rw [if_pos higher, if_pos higher]
        rfl
      · rw [if_neg higher, if_neg higher]
        rfl

theorem insertChecked_ok [Host] (packed : index.store.Packed) (id : VectorId) (row : Embedding) :
    index.insertChecked id row = .ok (index.insert id row) := by
  rw [insertChecked, packed.upsertChecked, Checked.ok_bind]
  refine Checked.after_ok fun store accepted => ?_
  obtain ⟨fits, rfl⟩ := (Store.upsert_eq_ok_iff index.store id row store).mp accepted
  by_cases known : index.store.contains id = true
  · rw [if_pos known, if_pos known]
    rfl
  · rw [if_neg known, if_neg known]
    dsimp only
    rw [attachChecked_ok (packed.put fits)]
    rfl

theorem searchChecked_ok [Host] (packed : index.store.Packed) (query : Embedding) (count : Nat)
    (knobs : Knobs) :
    index.searchChecked query count knobs = .ok (index.search query count knobs) := by
  simp only [search, found, bind_assoc]
  refine Checked.after_ok fun _ _ => ?_
  cases index.entry with
  | none => exact congrArg (Except.ok ∘ Except.ok) (Hit.rank_nil count).symm
  | some entry =>
      dsimp only
      by_cases none : count = 0
      · rw [if_pos none, none]
        exact congrArg (Except.ok ∘ Except.ok) List.take_zero.symm
      · rw [if_neg none, Descent.descendChecked_ok (packed.scoreChecked query), Checked.ok_bind,
          Beam.searchChecked_ok (packed.scoreChecked query)]
        rfl

end GraphIndex

end VectorSearch

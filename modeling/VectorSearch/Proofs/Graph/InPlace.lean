import VectorSearch.Proofs.InPlace
/-!
Graphs that are changed in place. An insert makes the links of the new vector one layer after
another, and sorts hits on the way. It comes to the graph that the insert gives as a whole unless a
sort breaks down; then the vector is stored and the graph begins where it began before.
-/

namespace VectorSearch

theorem LinkTable.linksAt?_modifyLinks (table : LinkTable) (layer : Nat) (id : VectorId)
    (change : LinkSet → LinkSet) :
    (table.modifyLinks layer id change).linksAt? layer id =
      (table.linksAt? layer id).map change := by
  rw [linksAt?, get?_modifyLinks, linksAt?]
  cases table.get? id with
  | none => rfl
  | some layers => simp

theorem Beam.score_of_mem_found {links : VectorId → List VectorId}
    {score : VectorId → Option Float32} {nodes width : Nat} {first : VectorId} {hit : Hit}
    (member : hit ∈ found links score nodes width first) : score hit.id = some hit.score := by
  cases scored : score first with
  | none =>
      rw [found, scored] at member
      exact absurd member List.not_mem_nil
  | some value =>
      obtain ⟨_, _, sound⟩ := @found_sound (fun _ => True) score links nodes width first value
        scored trivial (fun _ _ _ _ => trivial)
      exact (sound hit member).2

namespace GraphIndex

open Change

variable {index : GraphIndex} {store : Store} {id : VectorId} {row : Embedding}

/-! Links. -/

theorem linkBack_eq [Host] (store : Store) (capacity layer : Nat) (newcomer : VectorId)
    (table : LinkTable) (id : VectorId) :
    linkBack store capacity layer newcomer table id =
      let linked := table.modifyLinks layer id (LinkSet.insert newcomer)
      let links := linked.linksAt layer id
      if capacity < links.length then
        match store.get? id with
        | none => linked
        | some row => linked.modifyLinks layer id fun _ =>
            LinkSet.insertAll ((Hit.rank (store.hitsOf row links) capacity).map (·.id)) []
      else linked := by
  have linked (links : LinkSet) (present : table.linksAt? layer id = some links) :
      (table.modifyLinks layer id (LinkSet.insert newcomer)).linksAt layer id =
        LinkSet.insert newcomer links := by
    rw [LinkTable.linksAt, LinkTable.linksAt?_modifyLinks, present]
    rfl
  unfold linkBack
  dsimp only
  split
  · rename_i many
    cases known : store.get? id with
    | none =>
        refine LinkTable.modifyLinks_congr fun links _ => ?_
        simp [linksWith, nearestLinks, known]
    | some row =>
        dsimp only
        rw [LinkTable.modifyLinks_modifyLinks]
        refine LinkTable.modifyLinks_congr fun links present => ?_
        rw [linked links present] at many ⊢
        simp [linksWith, nearestLinks, known, many]
  · rename_i few
    refine LinkTable.modifyLinks_congr fun links present => ?_
    rw [linked links present] at few
    simp [linksWith, few]

theorem comesTo_linkBackInPlace [Host] (store : Store) (capacity layer : Nat)
    (newcomer id : VectorId) (table : LinkTable) :
    ComesTo (¬ store.PairsDefined) (linkBackInPlace store capacity layer newcomer id) table ()
      (linkBack store capacity layer newcomer table id) := by
  rw [linkBack_eq]
  refine .bind (.of_run rfl) (.bind (.of_run rfl) ?_)
  dsimp only
  split
  · unfold pruneInPlace
    cases known : store.get? id with
    | none => exact .of_run rfl
    | some row =>
        refine .bind (.of_run rfl) (.bind (.trySort (fun hit member undefined => ?_) _)
          (.of_run rfl))
        have scored := ((Store.mem_hitsOf store row _ hit).mp member).2
        exact Store.not_pairsDefined known scored undefined
  · exact .of_run rfl

section

variable (stored : index.store.get? id = some row)
include stored

theorem comesTo_linkLayerInPlace [Host] (layer : Nat) (start : VectorId) (table : LinkTable) :
    ComesTo (¬ index.store.PairsDefined) (index.linkLayerInPlace id row layer start) table
      (index.linkLayer id row layer (table, start)).2
      (index.linkLayer id row layer (table, start)).1 := by
  refine .bind (.of_run rfl) (.bind (.trySort (fun hit member undefined => ?_) _) ?_)
  · exact Store.not_pairsDefined stored (Beam.score_of_mem_found member) undefined
  · refine .bind (.of_run rfl) (.bind (.forM (fun node state => ?_) _) (.of_run rfl))
    exact comesTo_linkBackInPlace index.store _ layer id node state

theorem comesTo_linkDownInPlace [Host] (layer : Nat) : ∀ start table,
    ComesTo (¬ index.store.PairsDefined) (index.linkDownInPlace id row layer start) table ()
      (index.linkDown id row layer (table, start)).1 := by
  induction layer with
  | zero =>
      intro start table
      exact .bind (comesTo_linkLayerInPlace stored 0 start table) (.of_run rfl)
  | succ layer ih =>
      intro start table
      exact .bind (comesTo_linkLayerInPlace stored (layer + 1) start table) (ih _ _)

theorem run_attachInPlace [Host] (level : Nat) :
    (attachInPlace id row level).run index = .ok () (index.attach id row level) ∨
      ¬ index.store.PairsDefined ∧ ∃ words links,
        (attachInPlace id row level).run index = .error (.panicked words) { index with links } := by
  cases begins : index.entry with
  | none =>
      rw [attach_of_none begins]
      simp only [attachInPlace, EStateM.run_bind, EStateM.run_modify, EStateM.run_get, begins]
      exact Or.inl trivial
  | some entry =>
      rw [attach]
      simp only [attachInPlace, EStateM.run_bind, EStateM.run_modify, EStateM.run_get, begins,
        run_within, runIn]
      rcases comesTo_linkDownInPlace stored (min level index.topLevel) (Descent.descend
          (index.links.addNode id level).linksAt (index.store.score row) index.store.size
          (level + 1) (index.topLevel - level) entry)
        (index.links.addNode id level) with run | ⟨undefined, words, links, run⟩
      · rw [run]
        left
        dsimp only
        split <;> rfl
      · rw [run]
        exact Or.inr ⟨undefined, words, links, rfl⟩

end

/-! Inserts. -/

/-- An insert made in place comes to what the insert gives. Only one of a new vector may break down,
if then some score is undefined. -/
theorem run_insertInPlace [Host] (packed : index.store.Packed) (id : VectorId) (row : Embedding) :
    (insertInPlace id row).run index = performed index (index.insert id row) ∨
      row.size = index.store.dimension ∧ index.store.contains id = false ∧
        ¬ (index.store.put id row).PairsDefined ∧ ∃ words links,
        (insertInPlace id row).run index =
          .error (.panicked words) { index.awaiting id row with links } := by
  by_cases fits : row.size = index.store.dimension
  · have upserted : index.store.upsert id row = .ok (index.store.put id row) :=
      (Store.upsert_eq_ok_iff ..).mpr ⟨fits, rfl⟩
    simp only [insertInPlace, EStateM.run_bind, EStateM.run_get, Store.run_within_upsertInPlace,
      upserted]
    cases known : index.store.contains id with
    | true =>
        rw [insert, insertWith_of_known _ fits known]
        exact Or.inl rfl
    | false =>
        have stored : (index.awaiting id row).store.get? id = some row := by
          rw [awaiting, packed.get?_put fits, if_pos rfl]
        rw [insert, insertWith_of_new _ fits known]
        rcases run_attachInPlace stored (Level.ofDraw index.settings (index.drawn + 1)) with
          run | ⟨undefined, words, links, run⟩
        · exact Or.inl run
        · exact Or.inr ⟨fits, rfl, undefined, words, links, run⟩
  · left
    rw [insert, insertWith, Store.upsert, Store.checkDimension_eq_error fits]
    simp only [insertInPlace, EStateM.run_bind, EStateM.run_get, Store.run_within_upsertInPlace,
      Store.upsert, Store.checkDimension_eq_error fits]
    rfl

end GraphIndex

end VectorSearch

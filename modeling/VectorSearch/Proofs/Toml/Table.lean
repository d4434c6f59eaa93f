import VectorSearch.Proofs.Toml.Block
import VectorSearch.Toml.Section
/-!
Tables that sections build up. Entries with new names fill a table in their order, and a section
with a new name adds a table to the document or to a table in it.
-/

namespace VectorSearch.Toml

namespace Table

/-! Entries. -/

theorem get?_push (table : Table) (key : String) (value : Value) (other : String) :
    (table.push key value).get? other =
      (table.get? other).or (if other = key then some value else none) := by
  rw [get?, get?, push, List.lookup_append, List.lookup_cons, List.lookup_nil]
  congr 1
  by_cases same : other = key
  · rw [beq_iff_eq.mpr same, if_pos same]
  · rw [beq_false_of_ne same, if_neg same]

theorem assign?_of_new {table : Table} {key : String} (plain : table.form ≠ .dotted)
    (fresh : table.get? key = none) (value : Value) :
    table.assign? ⟨[], key⟩ value = some (table.push key value) := by
  have last : table.form = .dotted ↔ ([] : List String) ≠ [] := by simp [plain]
  rw [assign?, changeAt, if_pos last, add?, fresh]

def scalarEntries (entries : List (String × Scalar)) : List (String × Value) :=
  entries.map fun (key, scalar) => (key, .scalar scalar)

theorem fill?_of_new {entries : List (String × Scalar)} (distinct : (entries.map (·.1)).Nodup) :
    ∀ table : Table, table.form ≠ .dotted → (∀ entry ∈ entries, table.get? entry.1 = none) →
      table.fill? (Block.sectionEntries entries) =
        some { table with entries := table.entries ++ scalarEntries entries } := by
  induction entries with
  | nil =>
      intro table _ _
      rw [scalarEntries, List.map_nil, List.append_nil]
      rfl
  | cons entry entries ih =>
      intro table plain fresh
      obtain ⟨key, scalar⟩ := entry
      obtain ⟨apart, others⟩ := List.nodup_cons.mp distinct
      have assigned := assign?_of_new plain (fresh _ List.mem_cons_self) (.scalar scalar)
      have rest := ih others (table.push key (.scalar scalar)) plain fun entry member => by
        rw [get?_push, fresh entry (List.mem_cons_of_mem _ member), if_neg]
        · rfl
        · have inside : entry.1 ∈ entries.map (·.1) := List.mem_map_of_mem member
          exact fun same => apart (same ▸ inside)
      rw [fill?] at rest ⊢
      rw [Block.sectionEntries, List.map_cons, List.foldlM_cons, assigned]
      refine rest.trans ?_
      simp [push, scalarEntries]

/-! Sections. -/

def ofScalars (entries : List (String × Scalar)) : Value := .table .header (scalarEntries entries)

theorem erase_of_new {table : Table} {key : String} (fresh : table.get? key = none) :
    table.erase key = table := by
  have all : table.entries.filter (fun entry => decide (entry.1 ≠ key)) = table.entries := by
    refine List.filter_eq_self.mpr fun entry member => decide_eq_true fun same => ?_
    have absent := List.lookup_eq_none_iff.mp fresh entry member
    simp [same] at absent
  rw [erase, all]

theorem addHere?_of_new {parent : Table} {key : String} (fresh : parent.get? key = none)
    {entries : List (String × Scalar)} (distinct : (entries.map (·.1)).Nodup) :
    (do
      let opened ← parent.open? key
      let filled ← opened.fill? (Block.sectionEntries entries)
      return (parent.erase key).push key filled.toValue) =
        some (parent.push key (ofScalars entries)) := by
  have filled := fill?_of_new distinct (empty .header) (by decide) fun _ _ => rfl
  rw [open?, fresh]
  simp only [Option.bind_eq_bind, Option.bind_some, filled, erase_of_new fresh, Option.pure_def]
  rfl

theorem addTable?_of_new {document : Table} {key : String} (fresh : document.get? key = none)
    {entries : List (String × Scalar)} (distinct : (entries.map (·.1)).Nodup) :
    document.addTable? ⟨[], key⟩ (Block.sectionEntries entries) =
      some (document.push key (ofScalars entries)) := by
  rw [addTable?, changeAt]
  exact addHere?_of_new fresh distinct

theorem addTable?_within {document : Table} {outer key : String} {form : Form}
    {inner : List (String × Value)} (found : document.get? outer = some (.table form inner))
    (passes : Form.letsPass .implied form = true) (fresh : inner.lookup key = none)
    {entries : List (String × Scalar)} (distinct : (entries.map (·.1)).Nodup) :
    document.addTable? ⟨[outer], key⟩ (Block.sectionEntries entries) =
      some (document.replace outer (.table form (inner ++ [(key, ofScalars entries)]))) := by
  have child := @addHere?_of_new ⟨form, inner⟩ key fresh entries distinct
  rw [addTable?, changeAt, found]
  dsimp only
  rw [if_pos passes, changeAt, child]
  rfl

end Table

end VectorSearch.Toml

import VectorSearch.Proofs.Toml.Table
import VectorSearch.Toml.Library
/-!
What is relied on about a library for TOML: a document that is written is read back as it was, just
the documents with numbers that are no signed words are refused, and fields are taken as they are
given. The library that stands here keeps to it.
-/

namespace VectorSearch.Toml

def Scalar.IsSetting : Scalar → Prop
  | .text _ | .real _ => True
  | .whole value => 0 ≤ value
  | .truth _ | .moment _ => False

structure Block.Plain (block : Block) : Prop where
  path : block.path.Bare
  distinct : (block.entries.map (·.1)).Nodup
  entries : ∀ entry ∈ block.entries, Bare entry.1 ∧ entry.2.IsSetting

/-- Groups in which no key needs quotes or stands twice. -/
structure Plain (groups : List Group) : Prop where
  distinct : (groups.map (·.key)).Nodup
  inside : ∀ group ∈ groups, (group.entries.map (·.1)).Nodup
  blocks : ∀ block ∈ groups.flatMap Group.blocks, block.Plain

class LawfulLibrary [Library] : Prop where
  exists_write_iff : ∀ {groups}, Plain groups →
    ((∃ text, Library.write groups = .ok text) ↔
      ∀ block ∈ groups.flatMap Group.blocks, block.fits = true)
  read_of_write : ∀ {groups text}, Plain groups → Library.write groups = .ok text →
    Library.read text = .ok (documentOf groups)
  fields?_table : ∀ names entries, Library.fields? names (.table entries) = some entries
  count?_whole : ∀ {count : Nat}, count ≤ 2 ^ 63 - 1 →
    Library.count? (.scalar (.whole count)) = some count
  real?_real : ∀ value, Library.real? (.scalar (.real value)) = some value
  variant?_text : ∀ name, Library.variant? (.scalar (.text name)) = some name

/-! The tables that the blocks of groups build up. -/

def Group.values (group : Group) : List (String × Value) :=
  Table.scalarEntries group.scalars ++
    group.leaves.map fun leaf => (leaf.key, Table.ofScalars leaf.scalars)

def Group.toValue (group : Group) : Value := .table .header group.values

namespace Table

variable {document : Table} {key : String}

theorem replace_push (fresh : document.get? key = none) (value other : Value) :
    (document.push key value).replace key other = document.push key other := by
  have kept : document.entries.map (fun entry => if entry.1 = key then (key, other) else entry) =
      document.entries := by
    refine (List.map_congr_left fun entry member => if_neg fun same => ?_).trans (List.map_id' _)
    have absent := List.lookup_eq_none_iff.mp fresh entry member
    simp [same] at absent
  simp [replace, push, kept]

theorem get?_push_self (fresh : document.get? key = none) (value : Value) :
    (document.push key value).get? key = some value := by
  rw [get?_push, fresh, if_pos rfl, Option.none_or]

theorem lookup_eq_none_of_notMem {entries : List (String × Value)}
    (absent : key ∉ entries.map (·.1)) : entries.lookup key = none :=
  List.lookup_eq_none_iff.mpr fun entry member =>
    bne_iff_ne.mpr fun same => absent (List.mem_map.mpr ⟨entry, member, same.symm⟩)

theorem foldlM_leaves (fresh : document.get? key = none) {leaves : List Leaf} :
    ∀ inner : List (String × Value), (inner.map (·.1) ++ leaves.map (·.key)).Nodup →
      (∀ leaf ∈ leaves, (leaf.scalars.map (·.1)).Nodup) →
        (leaves.map fun leaf => (Block.mk ⟨[key], leaf.key⟩ leaf.scalars).toSection).foldlM
            (fun document part => part.addTo? document) (document.push key (.table .header inner)) =
          some (document.push key (.table .header
            (inner ++ leaves.map fun leaf => (leaf.key, ofScalars leaf.scalars)))) := by
  induction leaves with
  | nil =>
      intro inner _ _
      rw [List.map_nil, List.map_nil, List.append_nil]
      rfl
  | cons leaf leaves ih =>
      intro inner distinct separate
      have absent : leaf.key ∉ inner.map (·.1) := fun member =>
        (List.nodup_append.mp distinct).2.2 _ member _ List.mem_cons_self rfl
      have added := addTable?_within (get?_push_self fresh (.table .header inner)) rfl
        (lookup_eq_none_of_notMem absent) (separate leaf List.mem_cons_self)
      rw [replace_push fresh] at added
      rw [List.map_cons, List.foldlM_cons, Section.addTo?]
      refine (congrArg (· >>= _) added).trans ?_
      refine (ih (inner ++ [(leaf.key, ofScalars leaf.scalars)]) ?_ fun other member =>
        separate other (List.mem_cons_of_mem _ member)).trans ?_
      · rw [List.map_append, List.append_assoc]
        exact distinct
      · rw [List.append_assoc]
        rfl

theorem foldlM_blocks {group : Group} (fresh : document.get? group.key = none)
    (distinct : (group.entries.map (·.1)).Nodup)
    (separate : ∀ block ∈ group.blocks, (block.entries.map (·.1)).Nodup) :
    (group.blocks.map Block.toSection).foldlM (fun document part => part.addTo? document)
        document = some (document.push group.key group.toValue) := by
  have first := addTable?_of_new fresh (separate _ List.mem_cons_self)
  have keys : ((scalarEntries group.scalars).map (·.1) ++ group.leaves.map (·.key)).Nodup := by
    simpa [Group.entries, entriesOf, scalarEntries, Function.comp_def] using distinct
  have leaves := foldlM_leaves fresh (scalarEntries group.scalars) keys fun leaf member =>
    separate _ (List.mem_cons_of_mem _ (List.mem_map_of_mem member))
  rw [Group.blocks, List.map_cons, List.foldlM_cons, Section.addTo?]
  refine (congrArg (· >>= _) first).trans ?_
  rw [List.map_map]
  exact leaves

theorem foldlM_groups {groups : List Group} :
    ∀ document : Table, (document.entries.map (·.1) ++ groups.map (·.key)).Nodup →
      (∀ group ∈ groups, (group.entries.map (·.1)).Nodup ∧
        ∀ block ∈ group.blocks, (block.entries.map (·.1)).Nodup) →
      ((groups.flatMap Group.blocks).map Block.toSection).foldlM
          (fun document part => part.addTo? document) document =
        some { document with
          entries := document.entries ++ groups.map fun group => (group.key, group.toValue) } := by
  induction groups with
  | nil =>
      intro document _ _
      rw [List.map_nil, List.append_nil]
      rfl
  | cons group groups ih =>
      intro document distinct separate
      obtain ⟨inside, blocks⟩ := separate group List.mem_cons_self
      have absent : group.key ∉ document.entries.map (·.1) := fun member =>
        (List.nodup_append.mp distinct).2.2 _ member _ List.mem_cons_self rfl
      rw [List.flatMap_cons, List.map_append, List.foldlM_append,
        foldlM_blocks (lookup_eq_none_of_notMem absent) inside blocks]
      refine (ih (document.push group.key group.toValue) ?_ fun other member =>
        separate other (List.mem_cons_of_mem _ member)).trans ?_
      · rw [push, List.map_append, List.append_assoc]
        exact distinct
      · rw [push, List.append_assoc]
        rfl

end Table

/-! What is handed over of the tables. -/

theorem dataOfEntries_eq_map (entries : List (String × Value)) :
    dataOfEntries entries = entries.map fun (key, value) => (key, value.data) := by
  induction entries with
  | nil => rfl
  | cons entry entries ih => exact congrArg _ ih

theorem dataOfEntries_scalarEntries (scalars : List (String × Scalar)) :
    dataOfEntries (Table.scalarEntries scalars) = entriesOf scalars := by
  rw [dataOfEntries_eq_map, Table.scalarEntries, List.map_map]
  rfl

theorem data_toValue (group : Group) : group.toValue.data = group.data := by
  have leaves : dataOfEntries
      (group.leaves.map fun leaf => (leaf.key, Table.ofScalars leaf.scalars)) =
        group.leaves.map fun leaf => (leaf.key, leaf.data) := by
    rw [dataOfEntries_eq_map, List.map_map]
    refine List.map_congr_left fun leaf _ => ?_
    simp [Table.ofScalars, Value.data, dataOfEntries_scalarEntries, Leaf.data]
  rw [Group.toValue, Value.data, Group.values, dataOfEntries_eq_map, List.map_append,
    ← dataOfEntries_eq_map, ← dataOfEntries_eq_map, dataOfEntries_scalarEntries, leaves]
  rfl

/-! The library that stands here. -/

theorem Scalar.IsSetting.readable {scalar : Scalar} (setting : scalar.IsSetting)
    (fits : scalar.fits = true) : scalar.Readable := by
  cases scalar with
  | text content => exact readable_text content
  | real value => exact readable_real value
  | whole value =>
      obtain ⟨count, rfl⟩ := Int.eq_ofNat_of_zero_le setting
      exact readable_whole fits
  | truth | moment => exact setting.elim

theorem Block.Plain.readable {block : Block} (plain : block.Plain) (fits : block.fits = true) :
    block.Readable where
  path := plain.path
  keys entry member := (plain.entries entry member).1
  scalars entry member :=
    Scalar.IsSetting.readable (plain.entries entry member).2 (List.all_eq_true.mp fits entry member)

namespace Library

theorem writeGroups_eq_ok_iff {groups : List Group} {text : String} :
    writeGroups groups = .ok text ↔
      (∀ block ∈ groups.flatMap Group.blocks, block.fits = true) ∧
        String.ofList (Block.writeAll (groups.flatMap Group.blocks)) = text := by
  rw [writeGroups, ← List.all_eq_true]
  split <;> rename_i fits <;> simp [fits]

theorem readText_writeAll {groups : List Group} (plain : Plain groups)
    (fits : ∀ block ∈ groups.flatMap Group.blocks, block.fits = true) :
    readText (String.ofList (Block.writeAll (groups.flatMap Group.blocks))) =
      .ok (documentOf groups) := by
  have sections := readAll_writeAll fun block member =>
    Block.Plain.readable (plain.blocks block member) (fits block member)
  have built := @Table.foldlM_groups groups (.empty .header) plain.distinct
    fun group member => ⟨plain.inside group member, fun block inGroup =>
      (plain.blocks block (List.mem_flatMap.mpr ⟨group, member, inGroup⟩)).distinct⟩
  have document : Table.parse? (String.ofList (Block.writeAll (groups.flatMap Group.blocks))) =
      some ⟨.header, groups.map fun group => (group.key, group.toValue)⟩ := by
    rw [Table.parse?, String.toList_ofList, sections]
    exact built
  rw [readText, document]
  simp [dataOfEntries_eq_map, documentOf, Function.comp_def, data_toValue]

instance : LawfulLibrary where
  exists_write_iff _ := by
    change (∃ text, writeGroups _ = .ok text) ↔ _
    simp [writeGroups_eq_ok_iff]
  read_of_write plain written := by
    obtain ⟨fits, rfl⟩ := writeGroups_eq_ok_iff.mp written
    exact readText_writeAll plain fits
  fields?_table _ _ := rfl
  count?_whole {count} _ := by
    change Data.count? _ = _
    rw [Data.count?, if_pos (Int.natCast_nonneg count), Int.toNat_natCast]
  real?_real _ := rfl
  variant?_text _ := rfl

end Library

end VectorSearch.Toml

import VectorSearch.Proofs.Settings.Partial
/-!
Settings as a written document. Some of them are written as well as all of them, and whichever these
are, they are what the document lists.
-/

namespace VectorSearch

open Toml

namespace Toml

/-! Parts of documents: the scalars that are listed, under the headers that have one or are shown
without. -/

def Leaf.part (leaf : Leaf) (listed : String → Bool) : Leaf :=
  { leaf with scalars := leaf.scalars.filter fun entry => listed entry.1 }

def Group.part (listed shown : Path → Bool) (group : Group) : Group where
  key := group.key
  scalars := group.scalars.filter fun entry => listed ⟨[group.key], entry.1⟩
  leaves :=
    (group.leaves.map fun leaf => leaf.part fun name => listed ⟨[group.key, leaf.key], name⟩).filter
      fun leaf => shown ⟨[group.key], leaf.key⟩ || !leaf.scalars.isEmpty

def partsOf (listed shown : Path → Bool) (groups : List Group) : List Group :=
  (groups.map (Group.part listed shown)).filter fun group =>
    shown ⟨[], group.key⟩ || !group.entries.isEmpty

variable {listed shown : Path → Bool} {group : Group} {groups : List Group}

theorem Group.keys_entries (group : Group) :
    group.entries.map (·.1) = group.scalars.map (·.1) ++ group.leaves.map (·.key) := by
  simp [entries, entriesOf, Function.comp_def]

theorem partsOf_all (groups : List Group) :
    partsOf (fun _ => true) (fun _ => true) groups = groups := by
  have whole (group : Group) : group.part (fun _ => true) (fun _ => true) = group := by
    simp [Group.part, Leaf.part]
  rw [partsOf, List.map_congr_left fun group _ => whole group, List.map_id']
  exact List.filter_eq_self.mpr fun _ _ => rfl

/-! Parts of plain documents are plain. -/

theorem keys_leaves_part_sublist :
    ((group.part listed shown).leaves.map (·.key)).Sublist (group.leaves.map (·.key)) := by
  refine (List.filter_sublist.map _).trans ?_
  rw [List.map_map]
  exact List.Sublist.refl _

theorem keys_part_sublist :
    ((group.part listed shown).entries.map (·.1)).Sublist (group.entries.map (·.1)) := by
  rw [Group.keys_entries, Group.keys_entries]
  exact (List.filter_sublist.map _).append keys_leaves_part_sublist

theorem mem_partsOf (member : group ∈ partsOf listed shown groups) :
    ∃ whole ∈ groups, whole.part listed shown = group :=
  List.mem_map.mp (List.mem_of_mem_filter member)

theorem exists_block_of_part {block : Block} (member : block ∈ (group.part listed shown).blocks) :
    ∃ whole ∈ group.blocks, whole.path = block.path ∧ block.entries.Sublist whole.entries := by
  rcases List.mem_cons.mp member with rfl | inLeaf
  · exact ⟨_, List.mem_cons_self, rfl, List.filter_sublist⟩
  · obtain ⟨leaf, kept, rfl⟩ := List.mem_map.mp inLeaf
    obtain ⟨whole, inGroup, rfl⟩ := List.mem_map.mp (List.mem_of_mem_filter kept)
    exact ⟨_, List.mem_cons_of_mem _ (List.mem_map_of_mem inGroup), rfl, List.filter_sublist⟩

theorem exists_block_of_partsOf {block : Block}
    (member : block ∈ (partsOf listed shown groups).flatMap Group.blocks) :
    ∃ whole ∈ groups.flatMap Group.blocks,
      whole.path = block.path ∧ block.entries.Sublist whole.entries := by
  obtain ⟨part, inParts, inPart⟩ := List.mem_flatMap.mp member
  obtain ⟨group, inGroups, rfl⟩ := mem_partsOf inParts
  obtain ⟨whole, inGroup, same⟩ := exists_block_of_part inPart
  exact ⟨whole, List.mem_flatMap.mpr ⟨group, inGroups, inGroup⟩, same⟩

theorem Plain.parts (plain : Plain groups) : Plain (partsOf listed shown groups) where
  distinct := by
    refine plain.distinct.sublist ((List.filter_sublist.map _).trans ?_)
    rw [List.map_map]
    exact List.Sublist.refl _
  inside group member := by
    obtain ⟨whole, inGroups, rfl⟩ := mem_partsOf member
    exact (plain.inside whole inGroups).sublist keys_part_sublist
  blocks block member := by
    obtain ⟨whole, inGroups, same, fewer⟩ := exists_block_of_partsOf member
    obtain ⟨path, distinct, entries⟩ := plain.blocks whole inGroups
    exact ⟨same ▸ path, distinct.sublist (fewer.map _),
      fun entry inBlock => entries entry (fewer.subset inBlock)⟩

theorem fits_partsOf (fits : ∀ block ∈ groups.flatMap Group.blocks, block.fits = true) :
    ∀ block ∈ (partsOf listed shown groups).flatMap Group.blocks, block.fits = true := by
  intro block member
  obtain ⟨whole, inGroups, _, fewer⟩ := exists_block_of_partsOf member
  have all := List.all_eq_true.mp (fits whole inGroups)
  exact List.all_eq_true.mpr fun entry inBlock => all entry (fewer.subset inBlock)

/-! What is found in parts. -/

section Lookup

variable {α β : Type} (key : α → String) (value : α → β) {items : List α}

theorem lookup_eq_none_of_keys {name : String} (absent : name ∉ items.map key) :
    (items.map fun item => (key item, value item)).lookup name = none := by
  refine List.lookup_eq_none_iff.mpr fun entry member => bne_iff_ne.mpr ?_
  rintro rfl
  obtain ⟨item, inside, rfl⟩ := List.mem_map.mp member
  exact absent (List.mem_map_of_mem inside)

theorem lookup_kept (distinct : (items.map key).Nodup) {item : α} (member : item ∈ items)
    (keep : α → Bool) :
    ((items.filter keep).map fun item => (key item, value item)).lookup (key item) =
      if keep item then some (value item) else none := by
  induction items with
  | nil => cases member
  | cons first items ih =>
      obtain ⟨apart, others⟩ := List.nodup_cons.mp distinct
      rcases List.mem_cons.mp member with rfl | later
      · cases kept : keep item with
        | true =>
            rw [List.filter_cons_of_pos kept, List.map_cons, List.lookup_cons_self, if_pos rfl]
        | false =>
            rw [List.filter_cons_of_neg (Bool.not_eq_true _ ▸ kept), if_neg Bool.false_ne_true]
            exact lookup_eq_none_of_keys key value fun inside =>
              apart ((List.filter_sublist.map _).subset inside)
      · have other : key item ≠ key first := fun same => apart (same ▸ List.mem_map_of_mem later)
        rw [List.filter_cons]
        split
        · rw [List.map_cons, List.lookup_cons, beq_false_of_ne other]
          exact ih others later
        · exact ih others later

end Lookup

theorem lookup_part (distinct : (group.entries.map (·.1)).Nodup) {entry : String × Scalar}
    (member : entry ∈ group.scalars) :
    (group.part listed shown).entries.lookup entry.1 =
      if listed ⟨[group.key], entry.1⟩ then some (.scalar entry.2) else none := by
  rw [Group.keys_entries] at distinct
  obtain ⟨scalars, _, apart⟩ := List.nodup_append.mp distinct
  have own := lookup_kept (·.1) (fun entry => Data.scalar entry.2) scalars member
    fun entry => listed ⟨[group.key], entry.1⟩
  have absent : entry.1 ∉ (group.part listed shown).leaves.map (·.key) := fun inside =>
    apart entry.1 (List.mem_map_of_mem member) _ (keys_leaves_part_sublist.subset inside) rfl
  rw [Group.entries, List.lookup_append, lookup_eq_none_of_keys _ Leaf.data absent, Option.or_none]
  exact own

theorem under_of_kept {entries inner : Entries} {key : String} {kept : Bool}
    (found : entries.lookup key = if kept then some (.table inner) else none)
    (empty : kept = false → inner = []) : entries.Under key inner := by
  cases kept with
  | true => exact .inr found
  | false => exact .inl ⟨found, empty rfl⟩

theorem under_leaf (distinct : (group.entries.map (·.1)).Nodup) {leaf : Leaf}
    (member : leaf ∈ group.leaves) :
    (group.part listed shown).entries.Under leaf.key
      (entriesOf (leaf.part fun name => listed ⟨[group.key, leaf.key], name⟩).scalars) := by
  rw [Group.keys_entries] at distinct
  obtain ⟨_, leaves, apart⟩ := List.nodup_append.mp distinct
  have keys : ((group.leaves.map fun leaf =>
      leaf.part fun name => listed ⟨[group.key, leaf.key], name⟩).map (·.key)).Nodup := by
    rw [List.map_map]
    exact leaves
  have absent : leaf.key ∉ (group.part listed shown).scalars.map (·.1) := fun inside =>
    apart _ ((List.filter_sublist.map _).subset inside) _ (List.mem_map_of_mem member) rfl
  have scalars := lookup_eq_none_of_keys _ (fun entry : String × Scalar => Data.scalar entry.2)
    absent
  have found := lookup_kept (·.key) Leaf.data keys (List.mem_map_of_mem member) fun leaf =>
    shown ⟨[group.key], leaf.key⟩ || !leaf.scalars.isEmpty
  have inside := List.lookup_append.trans
    ((congrArg (Option.or · _) scalars).trans (Option.none_or.trans found))
  refine under_of_kept inside fun out => ?_
  have none := (Bool.or_eq_false_iff.mp out).2
  rw [List.isEmpty_iff.mp ((Bool.not_eq_false' _).mp none)]
  rfl

theorem under_group (distinct : (groups.map (·.key)).Nodup) (member : group ∈ groups) :
    (documentOf (partsOf listed shown groups)).Under group.key
      (group.part listed shown).entries := by
  have keys : ((groups.map (Group.part listed shown)).map (·.key)).Nodup := by
    rw [List.map_map]
    exact distinct
  have found := lookup_kept (·.key) Group.data keys (List.mem_map_of_mem member) fun group =>
    shown ⟨[], group.key⟩ || !group.entries.isEmpty
  refine under_of_kept found fun out => ?_
  have none := (Bool.or_eq_false_iff.mp out).2
  exact List.isEmpty_iff.mp ((Bool.not_eq_false' _).mp none)

end Toml

/-! Settings. -/

namespace Settings

theorem plain_section {path : Path} {names : List String} {scalars : List Scalar}
    (bare : path.Bare) (namesBare : ∀ name ∈ names, Bare name)
    (distinct : ((names.zip scalars).map (·.1)).Nodup)
    (known : ∀ scalar ∈ scalars, scalar.IsSetting) : Block.Plain ⟨path, names.zip scalars⟩ where
  path := bare
  distinct := distinct
  entries entry member :=
    ⟨namesBare entry.1 (List.of_mem_zip member).1, known entry.2 (List.of_mem_zip member).2⟩

theorem isSetting_countScalar (count : Nat) : (countScalar count).IsSetting :=
  Int.natCast_nonneg count

theorem plain_groups (settings : Settings) : Plain settings.groups := by
  have planner : PlannerSettings.names.Nodup := by decide
  have index : IndexSettings.names.Nodup := by decide
  have graph : GraphSettings.names.Nodup := by decide
  have partition : PartitionSettings.names.Nodup := by decide
  have real (value : Float) : (Scalar.real value).IsSetting := trivial
  have text (content : String) : (Scalar.text content).IsSetting := trivial
  refine ⟨(by decide : names.Nodup), ?_, ?_⟩
  · simp only [groups, List.forall_mem_cons]
    exact ⟨planner, List.nodup_singleton _, index, List.forall_mem_nil _⟩
  · simp only [blocks_groups, List.forall_mem_cons]
    refine ⟨plain_section (by decide) (by decide) planner ?_,
      plain_section (by decide) (by decide) (List.nodup_singleton _) ?_,
      plain_section (by decide) (by decide) (List.nodup_singleton _) ?_,
      plain_section (by decide) (by decide) graph ?_,
      plain_section (by decide) (by decide) partition ?_,
      plain_section (by decide) (by decide) (List.nodup_singleton _) ?_, List.forall_mem_nil _⟩
    · simp [PlannerSettings.scalars, isSetting_countScalar, real]
    · simp [MigrationSettings.scalars, isSetting_countScalar]
    · simp [IndexSettings.scalars, text]
    · simp [GraphSettings.scalars, isSetting_countScalar]
    · simp [PartitionSettings.scalars, isSetting_countScalar]
    · simp [CodeSettings.scalars, isSetting_countScalar]

theorem holds_leaf {settings : IndexSettings} {listed shown : Path → Bool} {key : String}
    {names : List String} {scalars : List Scalar}
    (inside : (settings.group.entries.map (·.1)).Nodup)
    (distinct : ((names.zip scalars).map (·.1)).Nodup)
    (member : ⟨key, names.zip scalars⟩ ∈ settings.group.leaves) :
    (settings.group.part listed shown).entries.Holds key (fun name => listed ⟨["index", key], name⟩)
      names scalars :=
  ⟨_, under_leaf inside member, fun _ member =>
    lookup_kept (·.1) (fun entry => Data.scalar entry.2) distinct member _⟩

theorem lists_partsOf (settings : Settings) (listed shown : Path → Bool) :
    settings.Lists listed (documentOf (partsOf listed shown settings.groups)) := by
  have plain := plain_groups settings
  have planner : settings.planner.group ∈ settings.groups := by simp [groups]
  have migration : settings.migration.group ∈ settings.groups := by simp [groups]
  have index : settings.index.group ∈ settings.groups := by simp [groups]
  have inside := plain.inside _ index
  have graphNames : GraphSettings.names.Nodup := by decide
  have partitionNames : PartitionSettings.names.Nodup := by decide
  have indexLists : settings.index.Lists listed (settings.index.group.part listed shown).entries :=
    ⟨fun _ => lookup_part inside,
      holds_leaf inside graphNames (by simp [IndexSettings.group, GraphSettings.leaf]),
      holds_leaf inside partitionNames (by simp [IndexSettings.group, PartitionSettings.leaf]),
      holds_leaf inside (List.nodup_singleton _) (by simp [IndexSettings.group, CodeSettings.leaf])⟩
  exact ⟨⟨_, under_group plain.distinct planner, fun _ => lookup_part (plain.inside _ planner)⟩,
    ⟨_, under_group plain.distinct migration, fun _ => lookup_part (plain.inside _ migration)⟩,
    _, under_group plain.distinct index, indexLists⟩

/-! Texts of settings. -/

section Text

variable [Library] [LawfulLibrary]

theorem read_of_lists {settings : Settings} {listed : Path → Bool} {text : String}
    {document : Entries} (fits : ∀ count ∈ settings.counts, count ≤ 2 ^ 63 - 1)
    (found : Library.read text = .ok document) (lists : settings.Lists listed document) :
    read text = .ok (settings.keep listed {}) := by
  rw [read, found]
  simp only [bind, Except.bind, ofDocument?_of_lists fits lists]
  rfl

omit [LawfulLibrary] in
theorem parse_of_read {text : String} {settings : Settings} (found : read text = .ok settings) :
    parse text = settings.check.map fun _ => settings := by
  rw [parse, found]

theorem exists_text (settings : Settings)
    (fits : ∀ count ∈ settings.counts, count ≤ 2 ^ 63 - 1) (listed shown : Path → Bool) :
    ∃ text, Library.write (partsOf listed shown settings.groups) = .ok text ∧
      read text = .ok (settings.keep listed {}) := by
  have plain : Plain (partsOf listed shown settings.groups) := (plain_groups settings).parts
  obtain ⟨text, written⟩ := (LawfulLibrary.exists_write_iff plain).mpr
    (fits_partsOf ((fits_iff settings).mpr fits))
  exact ⟨text, written, read_of_lists fits (LawfulLibrary.read_of_write plain written)
    (lists_partsOf settings listed shown)⟩

/-- A text that lists some keys of settings is read as the settings that have the defaults
elsewhere, and refused just as these are. Whichever keys are listed, and whichever of the other
sections have a header, the document that is written is such a text. -/
theorem parse_of_lists (settings : Settings)
    (fits : ∀ count ∈ settings.counts, count ≤ 2 ^ 63 - 1) (listed : Path → Bool) :
    (∀ text document, Library.read text = .ok document → settings.Lists listed document →
      parse text = (settings.keep listed {}).check.map fun _ => settings.keep listed {}) ∧
    ∀ shown, ∃ text, Library.write (partsOf listed shown settings.groups) = .ok text ∧
      parse text = (settings.keep listed {}).check.map fun _ => settings.keep listed {} := by
  refine ⟨fun text document found lists => parse_of_read (read_of_lists fits found lists),
    fun shown => ?_⟩
  obtain ⟨text, written, found⟩ := exists_text settings fits listed shown
  exact ⟨text, written, parse_of_read found⟩

end Text

theorem gives_nil {listed : String → Bool} {names : List String} {scalars : List Scalar}
    (missing : ∀ name ∈ names, listed name = false) :
    Entries.Gives [] listed names scalars := fun _ member => by
  rw [missing _ (List.of_mem_zip member).1]
  rfl

theorem read_backwards :
    Library.read "[index.hnsw]\nm = 32\n\n[index]\nmetric = \"euclidean\"\n\n[migration]\n" =
      .ok [("index", .table [("hnsw", .table [("m", .scalar (.whole 32))]),
        ("metric", .scalar (.text "euclidean"))]), ("migration", .table [])] := by
  have written : "[index.hnsw]\nm = 32\n\n[index]\nmetric = \"euclidean\"\n\n[migration]\n" =
      String.ofList (Block.writeAll [⟨⟨["index"], "hnsw"⟩, [("m", .whole 32)]⟩,
        ⟨⟨[], "index"⟩, [("metric", .text "euclidean")]⟩, ⟨⟨[], "migration"⟩, []⟩]) := by
    decide +kernel
  have links : Block.Readable ⟨⟨["index"], "hnsw"⟩, [("m", .whole 32)]⟩ :=
    ⟨by decide, by decide, List.forall_mem_singleton.mpr (readable_whole (by decide))⟩
  have metric : Block.Readable ⟨⟨[], "index"⟩, [("metric", .text "euclidean")]⟩ :=
    ⟨by decide, by decide, List.forall_mem_singleton.mpr (readable_text _)⟩
  have batch : Block.Readable ⟨⟨[], "migration"⟩, []⟩ :=
    ⟨by decide, by decide, List.forall_mem_nil _⟩
  have sections := readAll_writeAll (List.forall_mem_cons.mpr ⟨links,
    List.forall_mem_cons.mpr ⟨metric, List.forall_mem_singleton.mpr batch⟩⟩)
  change Library.readText _ = _
  rw [written, Library.readText, Table.parse?, String.toList_ofList, sections]
  rfl

theorem parse_of_lists_backwards :
    Settings.parse "[index.hnsw]\nm = 32\n\n[index]\nmetric = \"euclidean\"\n\n[migration]\n" =
      .ok { index := { metric := .euclidean, graph := { maxLinks := 32 } } } := by
  refine ((parse_of_lists
    { migration := ⟨0⟩, index := { metric := .euclidean, graph := { maxLinks := 32 } } } (by decide)
    fun path => path.key = "metric" || path.key = "m").1 _ _ read_backwards ⟨?_, ?_, ?_⟩).trans ?_
  · exact ⟨[], .inl ⟨rfl, rfl⟩, gives_nil (by decide)⟩
  · exact ⟨[], .inr rfl, gives_nil (by decide)⟩
  · refine ⟨_, .inr rfl, List.forall_mem_singleton.mpr rfl, ⟨_, .inr rfl, ?_⟩,
      ⟨[], .inl ⟨rfl, rfl⟩, gives_nil (by decide)⟩, ⟨[], .inl ⟨rfl, rfl⟩, gives_nil (by decide)⟩⟩
    exact List.forall_mem_cons.mpr
      ⟨rfl, List.forall_mem_cons.mpr ⟨rfl, List.forall_mem_singleton.mpr rfl⟩⟩
  · decide +kernel

end Settings

end VectorSearch

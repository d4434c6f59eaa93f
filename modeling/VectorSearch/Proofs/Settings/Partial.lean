import VectorSearch.Proofs.Toml.Library
import VectorSearch.Settings.Text
/-!
Settings that are given in part. A key that is missing has its default, and it is the same default
whether the key alone is missing, its section or the section around that.
-/

namespace VectorSearch

open Toml

/-! Settings with their own values for the keys that are listed, and with others elsewhere. -/

def PlannerSettings.keep (listed : String → Bool) (settings others : PlannerSettings) :
    PlannerSettings where
  exactScanThreshold := if listed "exact_scan_threshold" then settings.exactScanThreshold
    else others.exactScanThreshold
  selectiveFilterThreshold := if listed "selective_filter_threshold" then
    settings.selectiveFilterThreshold else others.selectiveFilterThreshold
  smoothing := if listed "ema_alpha" then settings.smoothing else others.smoothing
  breadthCap := if listed "ef_search_cap" then settings.breadthCap else others.breadthCap
  probeCap := if listed "nprobe_cap" then settings.probeCap else others.probeCap

def MigrationSettings.keep (listed : String → Bool) (settings others : MigrationSettings) :
    MigrationSettings where
  batchSize := if listed "batch_size" then settings.batchSize else others.batchSize

def GraphSettings.keep (listed : String → Bool) (settings others : GraphSettings) :
    GraphSettings where
  maxLinks := if listed "m" then settings.maxLinks else others.maxLinks
  buildBreadth := if listed "ef_construction" then settings.buildBreadth else others.buildBreadth
  searchBreadth := if listed "ef_search" then settings.searchBreadth else others.searchBreadth

def PartitionSettings.keep (listed : String → Bool) (settings others : PartitionSettings) :
    PartitionSettings where
  partitions := if listed "nlist" then settings.partitions else others.partitions
  probes := if listed "nprobe" then settings.probes else others.probes
  iterations := if listed "kmeans_iterations" then settings.iterations else others.iterations
  seed := if listed "seed" then settings.seed else others.seed

def CodeSettings.keep (listed : String → Bool) (settings others : CodeSettings) : CodeSettings where
  candidateFactor := if listed "rerank_factor" then settings.candidateFactor
    else others.candidateFactor

def IndexSettings.keep (listed : Path → Bool) (settings others : IndexSettings) :
    IndexSettings where
  metric := if listed ⟨["index"], "metric"⟩ then settings.metric else others.metric
  graph := settings.graph.keep (fun name => listed ⟨["index", "hnsw"], name⟩) others.graph
  partition :=
    settings.partition.keep (fun name => listed ⟨["index", "ivf"], name⟩) others.partition
  code := settings.code.keep (fun name => listed ⟨["index", "binary"], name⟩) others.code

def Settings.keep (listed : Path → Bool) (settings others : Settings) : Settings where
  planner := settings.planner.keep (fun name => listed ⟨["optimizer"], name⟩) others.planner
  migration := settings.migration.keep (fun name => listed ⟨["migration"], name⟩) others.migration
  index := settings.index.keep listed others.index

/-! Sections that are given in part. -/

namespace Toml.Entries

/-- The entries of a section that is given in part: those of its scalars that are listed. -/
def Gives (entries : Entries) (listed : String → Bool) (names : List String)
    (scalars : List Scalar) : Prop :=
  ∀ entry ∈ names.zip scalars,
    entries.lookup entry.1 = if listed entry.1 then some (.scalar entry.2) else none

/-- The entries that stand under a key, or none where the key is missing. -/
def Under (entries : Entries) (key : String) (inner : Entries) : Prop :=
  entries.lookup key = none ∧ inner = [] ∨ entries.lookup key = some (.table inner)

def Holds (entries : Entries) (key : String) (listed : String → Bool) (names : List String)
    (scalars : List Scalar) : Prop :=
  ∃ inner, entries.Under key inner ∧ inner.Gives listed names scalars

variable {α : Type} {entries inner : Entries} {name : String} {given : Bool} {default value : α}
  {ofData? : Data → Option α}

theorem read_listed {scalar : Scalar}
    (found : entries.lookup name = if given then some (.scalar scalar) else none)
    (reads : ofData? (.scalar scalar) = some value) :
    entries.read name default ofData? = some (if given then value else default) := by
  rw [Entries.read, found]
  cases given with
  | true => exact reads
  | false => rfl

theorem read_under (under : entries.Under name inner)
    (missing : ofData? (.table []) = some default) :
    entries.read name default ofData? = ofData? (.table inner) := by
  rcases under with ⟨absent, rfl⟩ | found
  · rw [Entries.read, absent, missing]
  · rw [Entries.read, found]

end Toml.Entries

open Toml.Entries

structure IndexSettings.Lists (settings : IndexSettings) (listed : Path → Bool)
    (entries : Entries) : Prop where
  metric : entries.Gives (fun name => listed ⟨["index"], name⟩) names settings.scalars
  graph : entries.Holds "hnsw" (fun name => listed ⟨["index", "hnsw"], name⟩)
    GraphSettings.names settings.graph.scalars
  partition : entries.Holds "ivf" (fun name => listed ⟨["index", "ivf"], name⟩)
    PartitionSettings.names settings.partition.scalars
  code : entries.Holds "binary" (fun name => listed ⟨["index", "binary"], name⟩)
    CodeSettings.names settings.code.scalars

/-- A document that lists some settings, with or without the sections that have none. -/
structure Settings.Lists (settings : Settings) (listed : Path → Bool) (document : Entries) :
    Prop where
  planner : document.Holds "optimizer" (fun name => listed ⟨["optimizer"], name⟩)
    PlannerSettings.names settings.planner.scalars
  migration : document.Holds "migration" (fun name => listed ⟨["migration"], name⟩)
    MigrationSettings.names settings.migration.scalars
  index : ∃ index, document.Under "index" index ∧ settings.index.Lists listed index

def Settings.counts (settings : Settings) : List Nat :=
  let planner := settings.planner
  let graph := settings.index.graph
  let partition := settings.index.partition
  [planner.exactScanThreshold, planner.breadthCap, planner.probeCap, settings.migration.batchSize,
    graph.maxLinks, graph.buildBreadth, graph.searchBreadth, partition.partitions,
    partition.probes, partition.iterations, partition.seed,
    settings.index.code.candidateFactor]

theorem fits_countScalar (count : Nat) :
    (countScalar count).fits = true ↔ count ≤ 2 ^ 63 - 1 := by
  rw [countScalar, Scalar.fits, fitsWord, Bool.and_eq_true, decide_eq_true_iff, decide_eq_true_iff]
  omega

theorem Settings.blocks_groups (settings : Settings) : settings.groups.flatMap Group.blocks =
    [⟨⟨[], "optimizer"⟩, PlannerSettings.names.zip settings.planner.scalars⟩,
      ⟨⟨[], "migration"⟩, MigrationSettings.names.zip settings.migration.scalars⟩,
      ⟨⟨[], "index"⟩, IndexSettings.names.zip settings.index.scalars⟩,
      ⟨⟨["index"], "hnsw"⟩, GraphSettings.names.zip settings.index.graph.scalars⟩,
      ⟨⟨["index"], "ivf"⟩, PartitionSettings.names.zip settings.index.partition.scalars⟩,
      ⟨⟨["index"], "binary"⟩, CodeSettings.names.zip settings.index.code.scalars⟩] := rfl

theorem Settings.fits_iff (settings : Settings) :
    (∀ block ∈ settings.groups.flatMap Group.blocks, block.fits = true) ↔
      ∀ count ∈ settings.counts, count ≤ 2 ^ 63 - 1 := by
  have text (content : String) : (Scalar.text content).fits = true := rfl
  have real (value : Float) : (Scalar.real value).fits = true := rfl
  simp only [blocks_groups, counts, Block.fits, PlannerSettings.names, PlannerSettings.scalars,
    MigrationSettings.names, MigrationSettings.scalars, GraphSettings.names, GraphSettings.scalars,
    PartitionSettings.names, PartitionSettings.scalars, CodeSettings.names, CodeSettings.scalars,
    IndexSettings.names, IndexSettings.scalars, List.zip_cons_cons, List.zip_nil_right,
    List.all_cons, List.all_nil, Bool.and_true,
    Bool.true_and, Bool.and_eq_true, List.forall_mem_cons, fits_countScalar, text, real, and_assoc,
    true_and, List.not_mem_nil, IsEmpty.forall_iff, implies_true]

/-! Sections are read with the defaults for what is not listed. -/

section Reading

variable [Library] [LawfulLibrary] {entries : Entries} {listed : String → Bool}

open LawfulLibrary (fields?_table count?_whole real?_real variant?_text)

theorem read_count {name : String} {given : Bool} {count default : Nat}
    (fits : (countScalar count).fits = true)
    (found : entries.lookup name = if given then some (.scalar (countScalar count)) else none) :
    entries.read name default Library.count? = some (if given then count else default) :=
  read_listed found (count?_whole ((fits_countScalar count).mp fits))

theorem read_real {name : String} {given : Bool} {value default : Float}
    (found : entries.lookup name = if given then some (.scalar (.real value)) else none) :
    entries.read name default Library.real? = some (if given then value else default) :=
  read_listed found (real?_real value)

theorem read_metric {name : String} {given : Bool} {metric default : Metric}
    (found : entries.lookup name = if given then some (.scalar (.text metric.name)) else none) :
    entries.read name default Metric.ofData? = some (if given then metric else default) := by
  refine read_listed found ?_
  rw [Metric.ofData?, variant?_text]
  exact Metric.ofName?_name metric

theorem PlannerSettings.ofData?_nil : ofData? (.table []) = some {} := by
  rw [ofData?, fields?_table]
  rfl

theorem PlannerSettings.ofData?_gives {settings : PlannerSettings}
    (fits : ∀ entry ∈ names.zip settings.scalars, entry.2.fits = true)
    (gives : entries.Gives listed names settings.scalars) :
    ofData? (.table entries) = some (settings.keep listed {}) := by
  simp only [Gives, names, scalars, List.zip_cons_cons, List.forall_mem_cons] at fits gives
  obtain ⟨exactFits, _, _, breadthFits, probesFit, _⟩ := fits
  obtain ⟨exact, selective, smoothing, breadth, probes, _⟩ := gives
  simp only [ofData?, fields?_table, read_count exactFits exact, read_real selective,
    read_real smoothing, read_count breadthFits breadth, read_count probesFit probes,
    Option.bind_eq_bind, Option.bind_some]
  rfl

theorem MigrationSettings.ofData?_nil : ofData? (.table []) = some {} := by
  rw [ofData?, fields?_table]
  rfl

theorem MigrationSettings.ofData?_gives {settings : MigrationSettings}
    (fits : ∀ entry ∈ names.zip settings.scalars, entry.2.fits = true)
    (gives : entries.Gives listed names settings.scalars) :
    ofData? (.table entries) = some (settings.keep listed {}) := by
  simp only [Gives, names, scalars, List.zip_cons_cons, List.forall_mem_cons] at fits gives
  simp only [ofData?, fields?_table, read_count fits.1 gives.1, Option.bind_eq_bind,
    Option.bind_some]
  rfl

theorem GraphSettings.ofData?_nil : ofData? (.table []) = some {} := by
  rw [ofData?, fields?_table]
  rfl

theorem GraphSettings.ofData?_gives {settings : GraphSettings}
    (fits : ∀ entry ∈ names.zip settings.scalars, entry.2.fits = true)
    (gives : entries.Gives listed names settings.scalars) :
    ofData? (.table entries) = some (settings.keep listed {}) := by
  simp only [Gives, names, scalars, List.zip_cons_cons, List.forall_mem_cons] at fits gives
  obtain ⟨linksFit, buildFits, searchFits, _⟩ := fits
  obtain ⟨links, build, search, _⟩ := gives
  simp only [ofData?, fields?_table, read_count linksFit links, read_count buildFits build,
    read_count searchFits search, Option.bind_eq_bind, Option.bind_some]
  rfl

theorem PartitionSettings.ofData?_nil : ofData? (.table []) = some {} := by
  rw [ofData?, fields?_table]
  rfl

theorem PartitionSettings.ofData?_gives {settings : PartitionSettings}
    (fits : ∀ entry ∈ names.zip settings.scalars, entry.2.fits = true)
    (gives : entries.Gives listed names settings.scalars) :
    ofData? (.table entries) = some (settings.keep listed {}) := by
  simp only [Gives, names, scalars, List.zip_cons_cons, List.forall_mem_cons] at fits gives
  obtain ⟨partitionsFit, probesFit, iterationsFit, seedFits, _⟩ := fits
  obtain ⟨partitions, probes, iterations, seed, _⟩ := gives
  simp only [ofData?, fields?_table, read_count partitionsFit partitions,
    read_count probesFit probes, read_count iterationsFit iterations, read_count seedFits seed,
    Option.bind_eq_bind, Option.bind_some]
  rfl

theorem CodeSettings.ofData?_nil : ofData? (.table []) = some {} := by
  rw [ofData?, fields?_table]
  rfl

theorem CodeSettings.ofData?_gives {settings : CodeSettings}
    (fits : ∀ entry ∈ names.zip settings.scalars, entry.2.fits = true)
    (gives : entries.Gives listed names settings.scalars) :
    ofData? (.table entries) = some (settings.keep listed {}) := by
  simp only [Gives, names, scalars, List.zip_cons_cons, List.forall_mem_cons] at fits gives
  simp only [ofData?, fields?_table, read_count fits.1 gives.1, Option.bind_eq_bind,
    Option.bind_some]
  rfl

theorem IndexSettings.ofData?_nil : ofData? (.table []) = some {} := by
  rw [ofData?, fields?_table]
  rfl

theorem IndexSettings.ofData?_of_lists {settings : IndexSettings} {listed : Path → Bool}
    (fits : ∀ leaf ∈ settings.group.leaves, ∀ entry ∈ leaf.scalars, entry.2.fits = true)
    (lists : settings.Lists listed entries) :
    ofData? (.table entries) = some (settings.keep listed {}) := by
  simp only [group, List.forall_mem_cons] at fits
  obtain ⟨graphFits, partitionFits, codeFits, _⟩ := fits
  obtain ⟨graph, graphUnder, graphGives⟩ := lists.graph
  obtain ⟨partition, partitionUnder, partitionGives⟩ := lists.partition
  obtain ⟨code, codeUnder, codeGives⟩ := lists.code
  simp only [ofData?, fields?_table,
    read_metric (lists.metric ("metric", _) List.mem_cons_self),
    read_under graphUnder GraphSettings.ofData?_nil,
    GraphSettings.ofData?_gives graphFits graphGives,
    read_under partitionUnder PartitionSettings.ofData?_nil,
    PartitionSettings.ofData?_gives partitionFits partitionGives,
    read_under codeUnder CodeSettings.ofData?_nil, CodeSettings.ofData?_gives codeFits codeGives,
    Option.bind_eq_bind, Option.bind_some]
  rfl

theorem Settings.ofDocument?_of_lists {settings : Settings} {listed : Path → Bool}
    (fits : ∀ count ∈ settings.counts, count ≤ 2 ^ 63 - 1) (lists : settings.Lists listed entries) :
    ofDocument? entries = some (settings.keep listed {}) := by
  have blocks := (fits_iff settings).mpr fits
  simp only [blocks_groups, Block.fits, List.all_eq_true, List.forall_mem_cons] at blocks
  obtain ⟨plannerFits, migrationFits, _, graphFits, partitionFits, codeFits, _⟩ := blocks
  have leavesFit : ∀ leaf ∈ settings.index.group.leaves, ∀ entry ∈ leaf.scalars,
      entry.2.fits = true :=
    List.forall_mem_cons.mpr ⟨graphFits, List.forall_mem_cons.mpr ⟨partitionFits,
      List.forall_mem_singleton.mpr codeFits⟩⟩
  obtain ⟨planner, plannerUnder, plannerGives⟩ := lists.planner
  obtain ⟨migration, migrationUnder, migrationGives⟩ := lists.migration
  obtain ⟨index, indexUnder, indexLists⟩ := lists.index
  simp only [ofDocument?, read_under plannerUnder PlannerSettings.ofData?_nil,
    PlannerSettings.ofData?_gives plannerFits plannerGives,
    read_under migrationUnder MigrationSettings.ofData?_nil,
    MigrationSettings.ofData?_gives migrationFits migrationGives,
    read_under indexUnder IndexSettings.ofData?_nil,
    IndexSettings.ofData?_of_lists leavesFit indexLists,
    Option.bind_eq_bind, Option.bind_some]
  rfl

end Reading

end VectorSearch

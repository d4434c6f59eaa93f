import VectorSearch.Settings.Basic
import VectorSearch.Toml.Library
/-!
Settings as a document. A section that is missing has its defaults, and so has a name that is
missing in a section; names that are not known are passed over.
-/

namespace VectorSearch

open Toml

def Settings.names : List String := ["optimizer", "migration", "index"]

def PlannerSettings.names : List String :=
  ["exact_scan_threshold", "selective_filter_threshold", "ema_alpha", "ef_search_cap",
    "nprobe_cap"]

def MigrationSettings.names : List String := ["batch_size"]

def IndexSettings.names : List String := ["metric", "hnsw", "ivf", "binary"]

def GraphSettings.names : List String := ["m", "ef_construction", "ef_search"]

def PartitionSettings.names : List String := ["nlist", "nprobe", "kmeans_iterations", "seed"]

def CodeSettings.names : List String := ["rerank_factor"]

/-- The value of a name: its default if it is missing, and nothing if it cannot be read. -/
def Toml.Entries.read (entries : Entries) (name : String) (default : α)
    (ofData? : Data → Option α) : Option α :=
  match entries.lookup name with
  | none => some default
  | some data => ofData? data

section Reading

variable [Library]

open Library (fields? count? real? variant?)

def PlannerSettings.ofData? (data : Data) : Option PlannerSettings := do
  let entries ← fields? names data
  return {
    exactScanThreshold := ← entries.read "exact_scan_threshold" Defaults.exactScanThreshold count?
    selectiveFilterThreshold :=
      ← entries.read "selective_filter_threshold" Defaults.selectiveFilterThreshold real?
    smoothing := ← entries.read "ema_alpha" Defaults.smoothing real?
    breadthCap := ← entries.read "ef_search_cap" Defaults.breadthCap count?
    probeCap := ← entries.read "nprobe_cap" Defaults.probeCap count? }

def MigrationSettings.ofData? (data : Data) : Option MigrationSettings := do
  let entries ← fields? names data
  return { batchSize := ← entries.read "batch_size" Defaults.batchSize count? }

def GraphSettings.ofData? (data : Data) : Option GraphSettings := do
  let entries ← fields? names data
  return {
    maxLinks := ← entries.read "m" Defaults.maxLinks count?
    buildBreadth := ← entries.read "ef_construction" Defaults.buildBreadth count?
    searchBreadth := ← entries.read "ef_search" Defaults.searchBreadth count? }

def PartitionSettings.ofData? (data : Data) : Option PartitionSettings := do
  let entries ← fields? names data
  return {
    partitions := ← entries.read "nlist" 0 count?
    probes := ← entries.read "nprobe" Defaults.probes count?
    iterations := ← entries.read "kmeans_iterations" Defaults.iterations count?
    seed := ← entries.read "seed" Defaults.seed count? }

def CodeSettings.ofData? (data : Data) : Option CodeSettings := do
  let entries ← fields? names data
  return { candidateFactor := ← entries.read "rerank_factor" Defaults.candidateFactor count? }

def Metric.ofData? (data : Data) : Option Metric := variant? data >>= ofName?

def IndexSettings.ofData? (data : Data) : Option IndexSettings := do
  let entries ← fields? names data
  return {
    metric := ← entries.read "metric" .cosine Metric.ofData?
    graph := ← entries.read "hnsw" {} GraphSettings.ofData?
    partition := ← entries.read "ivf" {} PartitionSettings.ofData?
    code := ← entries.read "binary" {} CodeSettings.ofData? }

def Settings.ofDocument? (document : Entries) : Option Settings := do
  return {
    planner := ← document.read "optimizer" {} PlannerSettings.ofData?
    migration := ← document.read "migration" {} MigrationSettings.ofData?
    index := ← document.read "index" {} IndexSettings.ofData? }

end Reading

/-! Sections as they are written, with their scalars in the order of their names. -/

def countScalar (count : Nat) : Scalar := .whole count

def PlannerSettings.scalars (settings : PlannerSettings) : List Scalar :=
  [countScalar settings.exactScanThreshold, .real settings.selectiveFilterThreshold,
    .real settings.smoothing, countScalar settings.breadthCap, countScalar settings.probeCap]

def PlannerSettings.group (settings : PlannerSettings) : Group where
  key := "optimizer"
  scalars := names.zip settings.scalars
  leaves := []

def MigrationSettings.scalars (settings : MigrationSettings) : List Scalar :=
  [countScalar settings.batchSize]

def MigrationSettings.group (settings : MigrationSettings) : Group where
  key := "migration"
  scalars := names.zip settings.scalars
  leaves := []

def GraphSettings.scalars (settings : GraphSettings) : List Scalar :=
  [countScalar settings.maxLinks, countScalar settings.buildBreadth,
    countScalar settings.searchBreadth]

def GraphSettings.leaf (settings : GraphSettings) : Leaf := ⟨"hnsw", names.zip settings.scalars⟩

def PartitionSettings.scalars (settings : PartitionSettings) : List Scalar :=
  [countScalar settings.partitions, countScalar settings.probes, countScalar settings.iterations,
    countScalar settings.seed]

def PartitionSettings.leaf (settings : PartitionSettings) : Leaf :=
  ⟨"ivf", names.zip settings.scalars⟩

def CodeSettings.scalars (settings : CodeSettings) : List Scalar :=
  [countScalar settings.candidateFactor]

def CodeSettings.leaf (settings : CodeSettings) : Leaf := ⟨"binary", names.zip settings.scalars⟩

def IndexSettings.scalars (settings : IndexSettings) : List Scalar := [.text settings.metric.name]

def IndexSettings.group (settings : IndexSettings) : Group where
  key := "index"
  scalars := names.zip settings.scalars
  leaves := [settings.graph.leaf, settings.partition.leaf, settings.code.leaf]

def Settings.groups (settings : Settings) : List Group :=
  [settings.planner.group, settings.migration.group, settings.index.group]

end VectorSearch

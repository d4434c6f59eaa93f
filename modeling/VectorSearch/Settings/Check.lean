import VectorSearch.Decimal.Text
import VectorSearch.Failure
import VectorSearch.Settings.Basic
/-!
Checks of settings. Of several faults the first in the order of the checks is reported.
-/

namespace VectorSearch

inductive SettingsFault where
  | smoothing (value : Float)
  | selectiveFilterThreshold (value : Float)
  | plannerCaps
  | batchSize
  | maxLinks (value : Nat)
  | graphBreadths
  | partitionCounts
  | candidateFactor

namespace SettingsFault

def message : SettingsFault → String
  | smoothing value => "optimizer.ema_alpha must be in (0, 1], got " ++ Decimal.plain value
  | selectiveFilterThreshold value =>
    "optimizer.selective_filter_threshold must be in [0, 1], got " ++ Decimal.plain value
  | plannerCaps => "optimizer.ef_search_cap and optimizer.nprobe_cap must be > 0"
  | batchSize => "migration.batch_size must be > 0"
  | maxLinks value => "index.hnsw.m must be >= 2, got " ++ toString value
  | graphBreadths => "index.hnsw.ef_construction and index.hnsw.ef_search must be > 0"
  | partitionCounts => "index.ivf.nprobe and index.ivf.kmeans_iterations must be > 0"
  | candidateFactor => "index.binary.rerank_factor must be > 0"

end SettingsFault

/-- The first fault of planner settings. An undefined number is out of every range. -/
def PlannerSettings.fault? (settings : PlannerSettings) : Option SettingsFault :=
  if ¬(0 < settings.smoothing ∧ settings.smoothing ≤ 1) then
    some (.smoothing settings.smoothing)
  else if ¬(0 ≤ settings.selectiveFilterThreshold ∧ settings.selectiveFilterThreshold ≤ 1) then
    some (.selectiveFilterThreshold settings.selectiveFilterThreshold)
  else if settings.breadthCap = 0 ∨ settings.probeCap = 0 then some .plannerCaps
  else none

def MigrationSettings.fault? (settings : MigrationSettings) : Option SettingsFault :=
  if settings.batchSize = 0 then some .batchSize else none

def IndexSettings.fault? (settings : IndexSettings) : Option SettingsFault :=
  if settings.graph.maxLinks < 2 then some (.maxLinks settings.graph.maxLinks)
  else if settings.graph.buildBreadth = 0 ∨ settings.graph.searchBreadth = 0 then
    some .graphBreadths
  else if settings.partition.probes = 0 ∨ settings.partition.iterations = 0 then
    some .partitionCounts
  else if settings.code.candidateFactor = 0 then some .candidateFactor
  else none

namespace Settings

def fault? (settings : Settings) : Option SettingsFault :=
  settings.planner.fault? <|> settings.migration.fault? <|> settings.index.fault?

def check (settings : Settings) : Except Failure Unit :=
  match settings.fault? with
  | some fault => .error (.configuration fault.message)
  | none => .ok ()

end Settings

end VectorSearch

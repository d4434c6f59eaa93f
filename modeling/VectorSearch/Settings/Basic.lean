import VectorSearch.Count
import VectorSearch.Metric
/-!
Settings and their defaults. A value that is built without naming a field has the default there.
-/

namespace VectorSearch

/-! The values of single settings that are not given. -/

namespace Defaults

def exactScanThreshold : Nat := 1000
def selectiveFilterThreshold : Float := 0.01
def smoothing : Float := 0.1
def breadthCap : Nat := 500
def probeCap : Nat := 128
def batchSize : Nat := 100
def maxLinks : Nat := 16
def buildBreadth : Nat := 200
def searchBreadth : Nat := 50
def probes : Nat := 8
def iterations : Nat := 25
def seed : Nat := 42
def candidateFactor : Nat := 4

end Defaults

structure PlannerSettings where
  /-- Collections of at most this many vectors are scanned exactly. -/
  exactScanThreshold : Nat := Defaults.exactScanThreshold
  /-- Filters that match a smaller share than this fetch more candidates and filter them. -/
  selectiveFilterThreshold : Float := Defaults.selectiveFilterThreshold
  smoothing : Float := Defaults.smoothing
  breadthCap : Nat := Defaults.breadthCap
  probeCap : Nat := Defaults.probeCap
  deriving DecidableEq

structure MigrationSettings where
  batchSize : Nat := Defaults.batchSize
  deriving DecidableEq

structure GraphSettings where
  maxLinks : Nat := Defaults.maxLinks
  buildBreadth : Nat := Defaults.buildBreadth
  searchBreadth : Nat := Defaults.searchBreadth
  deriving DecidableEq

/-- The greatest number of links of a node on a layer: the bottom layer has room for twice as
many as the layers above it. -/
def GraphSettings.capacity (settings : GraphSettings) (layer : Nat) : Nat :=
  if layer = 0 then settings.maxLinks * 2 else settings.maxLinks

def GraphSettings.levelScale (settings : GraphSettings) : Float :=
  1 / (Count.toFloat (max settings.maxLinks 2)).log

structure PartitionSettings where
  /-- The number of partitions, or zero for the square root of the number of rows. -/
  partitions : Nat := 0
  probes : Nat := Defaults.probes
  iterations : Nat := Defaults.iterations
  seed : Nat := Defaults.seed
  deriving DecidableEq

structure CodeSettings where
  candidateFactor : Nat := Defaults.candidateFactor
  deriving DecidableEq

structure IndexSettings where
  metric : Metric := .cosine
  graph : GraphSettings := {}
  partition : PartitionSettings := {}
  code : CodeSettings := {}
  deriving DecidableEq

structure Settings where
  planner : PlannerSettings := {}
  migration : MigrationSettings := {}
  index : IndexSettings := {}
  deriving DecidableEq

/-! Single searches. -/

/-- How hard one search tries. A knob that is zero leaves the choice to the settings. -/
structure Knobs where
  breadth : Nat := 0
  probes : Nat := 0
  candidates : Nat := 0
  deriving DecidableEq

def Knobs.orElse (knob setting : Nat) : Nat := if knob = 0 then setting else knob

end VectorSearch

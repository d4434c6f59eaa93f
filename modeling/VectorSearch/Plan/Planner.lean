import VectorSearch.Count
import VectorSearch.Decimal.Text
import VectorSearch.Host
import VectorSearch.IndexKind
import VectorSearch.Plan.Feedback
import VectorSearch.Plan.Plan
import VectorSearch.Settings.Basic
import VectorSearch.Text.Bounded
/-!
The planner. The first rule that applies decides: a small collection is scanned exactly; a filter
that matches few vectors fetches enough candidates to filter them afterwards; any other query
searches the index.

An exact scan costs one unit for each coordinate. An index search for `count` results with breadth
`b` costs `count * b * dimension * log2 total`.
-/

namespace VectorSearch

structure Statistics where
  total : Nat := 0
  dimension : Nat := 0
  kind : IndexKind := .flat
  deletedShare : Float := 0
  meanFilterMatch : Float := 0
  lastLatency : Nat := 0

structure Planner where
  settings : PlannerSettings
  statistics : Statistics
  feedback : Feedback Float

namespace Planner

def new (settings : PlannerSettings) : Planner where
  settings
  statistics := {}
  feedback := .empty

/-- The least whole number that is not below a number that is not negative. Numbers from `2 ^ 53` on
are whole. -/
def ceiling (value : Float) : Float :=
  if value < 9007199254740992 then
    let whole := value.toUInt64.toFloat
    if whole < value then whole + 1 else whole
  else value

/-- The breadth of a graph search for `count` results. Wide vectors need more, and large
collections are kept fast. -/
def breadthFor (settings : PlannerSettings) (statistics : Statistics) (count : Nat) : Nat :=
  let base := max (Count.saturate (count * 2)) 50
  let wide :=
    if 256 < statistics.dimension then Count.ofFloat (Count.toFloat base * 1.5) else base
  let bounded := if 100000 < statistics.total then min wide 200 else wide
  min bounded settings.breadthCap

def probesFor (settings : PlannerSettings) (statistics : Statistics) : Nat :=
  let total := statistics.total
  let probes :=
    if total < 10000 then max (total / 1000) 4
    else if total < 100000 then max (total / 5000) 8
    else max (total / 20000) 16
  min probes settings.probeCap

/-- The logarithm to base two of the size of a collection, which counts as having at least two
vectors. -/
def depth [Host] (statistics : Statistics) : Float :=
  Host.log2 (Count.toFloat (max statistics.total 2))

def searchCost [Host] (statistics : Statistics) (count breadth : Nat) : Float :=
  Count.toFloat count * Count.toFloat breadth * Count.toFloat statistics.dimension *
    depth statistics

/-- The number of candidates to fetch so that `count` are left when only a share of them passes a
filter, with half as many again to be safe and never more than there are vectors. -/
def oversampleFor (total count : Nat) (share : Float) : Nat :=
  let wanted := ceiling (Count.toFloat count / share * 1.5)
  let all := Count.toFloat total
  Count.ofFloat (if all < wanted then all else wanted)

/-! Explanations in full, before they are bounded. -/

def exactText (settings : PlannerSettings) (statistics : Statistics) : String :=
  "Exact scan: " ++ toString statistics.total ++ " vectors is within the " ++
    toString settings.exactScanThreshold ++ " vector threshold"

def oversampleText (settings : PlannerSettings) (oversample count : Nat) (share : Float) : String :=
  "Oversample then filter: selectivity " ++ Decimal.fixed 4 share ++ " is below " ++
    Decimal.fixed 4 settings.selectiveFilterThreshold ++ ", fetching " ++
    toString oversample ++ " candidates for k=" ++ toString count

def searchText (statistics : Statistics) (breadth probes : Nat) (expectedRecall : Float)
    (filtered : Bool) : String :=
  "Index search over " ++ toString statistics.total ++ " vectors: ef_search=" ++
    toString breadth ++ ", nprobe=" ++ toString probes ++ ", recall~" ++
    Decimal.fixed 2 expectedRecall ++ (if filtered then ", tag pre-filter" else "")

/-! Plans. -/

def exactPlan (settings : PlannerSettings) (statistics : Statistics) : Plan where
  strategy := .exactScan
  breadth := 0
  probes := 0
  candidates := 0
  oversample := 0
  usesTags := false
  cost := Count.toFloat statistics.total * Count.toFloat statistics.dimension
  expectedRecall := 1
  explanation := Text.boundedMessage (exactText settings statistics)

def oversamplePlan [Host] (settings : PlannerSettings) (statistics : Statistics) (count : Nat)
    (share : Float) : Plan :=
  let oversample := oversampleFor statistics.total count share
  let breadth := breadthFor settings statistics oversample
  { strategy := .oversampleFilter
    breadth
    probes := probesFor settings statistics
    candidates := oversample
    oversample
    usesTags := true
    cost := searchCost statistics oversample breadth +
      Count.toFloat oversample * Count.toFloat statistics.dimension
    expectedRecall := 0.95
    explanation := Text.boundedMessage (oversampleText settings oversample count share) }

def recallFor (count breadth : Nat) : Float :=
  let ratio := Count.toFloat breadth / Count.toFloat (max count 1)
  let share := 1 - 1 / (1 + ratio)
  if 1 < share then 1 else share

def searchPlan [Host] (settings : PlannerSettings) (statistics : Statistics) (count : Nat)
    (filtered : Bool) : Plan :=
  let breadth := breadthFor settings statistics count
  let probes := probesFor settings statistics
  let expectedRecall := recallFor count breadth
  { strategy := .indexSearch
    breadth
    probes
    candidates := count
    oversample := 0
    usesTags := filtered
    cost := searchCost statistics count breadth
    expectedRecall
    explanation := Text.boundedMessage
      (searchText statistics breadth probes expectedRecall filtered) }

def planFor [Host] (settings : PlannerSettings) (statistics : Statistics) (count : Nat)
    (filter : Option Float) : Plan :=
  if statistics.total ≤ settings.exactScanThreshold then exactPlan settings statistics
  else
    match filter with
    | none => searchPlan settings statistics count false
    | some share =>
      if 0 < share ∧ share < settings.selectiveFilterThreshold then
        oversamplePlan settings statistics count share
      else searchPlan settings statistics count true

def plan [Host] (planner : Planner) (count : Nat) (filter : Option Float) : Plan :=
  planFor planner.settings planner.statistics count filter

def recommendBreadth (planner : Planner) (count : Nat) : Nat :=
  breadthFor planner.settings planner.statistics count

def recommendProbes (planner : Planner) : Nat :=
  probesFor planner.settings planner.statistics

def publish (planner : Planner) (statistics : Statistics) : Planner :=
  { planner with statistics }

def record (planner : Planner) (latency : Nat) (found : Float) : Planner :=
  { planner with
    feedback :=
      planner.feedback.record planner.settings.smoothing (Count.toFloat latency) found }

def observe (planner : Planner) (observation : Observation Float) : Planner :=
  planner.record observation.latency observation.found

end Planner

end VectorSearch

import VectorSearch.Proofs.Plan.Oversample
/-!
Plans for more results. Asking for more of them keeps the rule that applies, and with it the number
of probes, and lowers neither a knob nor the cost: each number of a plan comes from the count by
operations that keep the order of numbers.
-/

namespace VectorSearch.Planner

open Double

variable {settings : PlannerSettings} {statistics : Statistics} {count larger : ℕ}
  {share : Float}

/-! Numbers of a plan. -/

theorem breadthFor_mono (order : count ≤ larger) :
    breadthFor settings statistics count ≤ breadthFor settings statistics larger := by
  have base : max (Count.saturate (count * 2)) 50 ≤ max (Count.saturate (larger * 2)) 50 :=
    max_le_max_right _ (saturate_mono (Nat.mul_le_mul_right 2 order))
  have stretched := ((risesWithin_toFloat base).rises.mul_right sized_threeHalves
    (by norm_num)).ofFloat_le
  refine min_le_min_right _ ?_
  split <;> split <;> omega

theorem wantedFor_mono {size : ℚ} (sized : Sized share size) (positive : 0 < size)
    (order : count ≤ larger) : wantedFor count share ≤ wantedFor larger share :=
  (rises_ceiling (((risesWithin_toFloat order).div sized positive).mul_right sized_threeHalves
    (by norm_num))).ofFloat_le

theorem oversampleFor_mono {size : ℚ} (sized : Sized share size) (positive : 0 < size)
    (total : ℕ) (order : count ≤ larger) :
    oversampleFor total count share ≤ oversampleFor total larger share := by
  rw [oversampleFor_eq sized positive, oversampleFor_eq sized positive]
  exact min_le_min_right _ (wantedFor_mono sized positive order)

theorem risesWithin_depth [Host] (statistics : Statistics) :
    RisesWithin 6 (depth statistics) (depth statistics) := by
  have sixtyFour : Sized 64 ((64 : ℚ) : WithTop ℚ) := by
    have fits : Fits (2 ^ 52) (-46) := ⟨by decide, by decide, Or.inl le_rfl, by decide⟩
    convert sized_of_unpack fits (show (64 : Float).toModel.unpack = _ from rfl)
    norm_num
  obtain ⟨least, greatest⟩ := Host.log2_range _ (Nat.le_max_right statistics.total 2)
  have one : (0 : Float) ≤ 1 := by decide +kernel
  obtain ⟨size, sized⟩ := exists_sized (Progress.le_trans one least)
  have most := (sized.le_iff sixtyFour).mp greatest
  obtain ⟨size, rfl⟩ := WithTop.ne_top_iff_exists.mp (most.trans_lt (WithTop.coe_lt_top _)).ne
  exact ⟨size, size, sized, sized, le_rfl, (WithTop.coe_le_coe.mp most).trans (by norm_num)⟩

theorem risesWithin_searchCost [Host] {breadth wider : ℕ} (order : count ≤ larger)
    (breadths : breadth ≤ wider) :
    RisesWithin 198 (searchCost statistics count breadth)
      (searchCost statistics larger wider) := by
  have counts := (risesWithin_toFloat order).mul (risesWithin_toFloat breadths) (by decide)
  have wide := counts.mul (risesWithin_toFloat (le_refl statistics.dimension)) (by decide)
  exact wide.mul (risesWithin_depth statistics) (by decide)

theorem risesWithin_scanCost (order : count ≤ larger) (dimension : ℕ) :
    RisesWithin 128 (Count.toFloat count * Count.toFloat dimension)
      (Count.toFloat larger * Count.toFloat dimension) :=
  (risesWithin_toFloat order).mul (risesWithin_toFloat (le_refl dimension)) (by decide)

/-! Whole plans. -/

structure Below (plan other : Plan) : Prop where
  strategy : plan.strategy = other.strategy
  probes : plan.probes = other.probes
  usesTags : plan.usesTags = other.usesTags
  breadth : plan.breadth ≤ other.breadth
  candidates : plan.candidates ≤ other.candidates
  oversample : plan.oversample ≤ other.oversample
  cost : plan.cost ≤ other.cost

theorem Below.fetchCount_le {plan other : Plan} (below : Below plan other)
    (order : count ≤ larger) : plan.fetchCount count ≤ other.fetchCount larger := by
  unfold Plan.fetchCount
  rw [← below.strategy]
  cases plan.strategy with
  | oversampleFilter => exact max_le_max below.oversample order
  | exactScan => exact order
  | indexSearch => exact order

theorem below_exactPlan (settings : PlannerSettings) (statistics : Statistics) :
    Below (exactPlan settings statistics) (exactPlan settings statistics) where
  strategy := rfl
  probes := rfl
  usesTags := rfl
  breadth := le_rfl
  candidates := le_rfl
  oversample := le_rfl
  cost := (risesWithin_scanCost le_rfl _).rises.le

theorem below_searchPlan [Host] (order : count ≤ larger) (filtered : Bool) :
    Below (searchPlan settings statistics count filtered)
      (searchPlan settings statistics larger filtered) where
  strategy := rfl
  probes := rfl
  usesTags := rfl
  breadth := breadthFor_mono order
  candidates := order
  oversample := le_rfl
  cost := (risesWithin_searchCost order (breadthFor_mono order)).rises.le

theorem below_oversamplePlan [Host] {size : ℚ} (sized : Sized share size) (positive : 0 < size)
    (order : count ≤ larger) :
    Below (oversamplePlan settings statistics count share)
      (oversamplePlan settings statistics larger share) := by
  have more := oversampleFor_mono sized positive statistics.total order
  have breadths := @breadthFor_mono settings statistics _ _ more
  have search := @risesWithin_searchCost statistics _ _ _ _ _ more breadths
  have scan := (risesWithin_scanCost more statistics.dimension).widen (show 128 ≤ 198 by decide)
  exact {
    strategy := rfl
    probes := rfl
    usesTags := rfl
    breadth := breadths
    candidates := more
    oversample := more
    cost := (search.add scan (by decide)).rises.le }

theorem below_planFor [Host] (settings : PlannerSettings) (statistics : Statistics)
    (filter : Option Float) (order : count ≤ larger) :
    Below (planFor settings statistics count filter)
      (planFor settings statistics larger filter) := by
  unfold planFor
  split
  · exact below_exactPlan settings statistics
  cases filter with
  | none => exact below_searchPlan order false
  | some share =>
      dsimp only
      split
      · rename_i selective
        obtain ⟨size, sized, positive⟩ := exists_sized_between selective.1 selective.2
        exact below_oversamplePlan sized positive order
      · exact below_searchPlan order true

/-- A plan for more results is made by the same rule, with the same number of probes, and has no
smaller breadth, number of candidates, number of results to fetch or cost. -/
theorem plan_mono [Host] (planner : Planner) (filter : Option Float) {count larger : ℕ}
    (order : count ≤ larger) :
    let plan := planner.plan count filter
    let other := planner.plan larger filter
    plan.strategy = other.strategy ∧ plan.probes = other.probes ∧
    plan.usesTags = other.usesTags ∧ plan.breadth ≤ other.breadth ∧
    plan.candidates ≤ other.candidates ∧ plan.oversample ≤ other.oversample ∧
    plan.fetchCount count ≤ other.fetchCount larger ∧ plan.cost ≤ other.cost := by
  intro plan other
  have below : Below plan other := below_planFor planner.settings planner.statistics filter order
  exact ⟨below.strategy, below.probes, below.usesTags, below.breadth, below.candidates,
    below.oversample, below.fetchCount_le order, below.cost⟩

theorem plan_mono_selective :
    let planner : Planner := ⟨{}, { total := 5000, dimension := 768 }, .empty⟩
    10 ≤ 20 ∧ (planner.plan 10 (some 0.005)).breadth ≤ (planner.plan 20 (some 0.005)).breadth ∧
    (planner.plan 10 (some 0.005)).cost ≤ (planner.plan 20 (some 0.005)).cost := by
  intro planner
  have order : 10 ≤ 20 := by decide
  obtain ⟨_, _, _, breadth, _, _, _, cost⟩ := plan_mono planner (some 0.005) order
  exact ⟨order, breadth, cost⟩

end VectorSearch.Planner

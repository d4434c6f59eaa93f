import VectorSearch.Plan.Planner
import VectorSearch.Proofs.Double.Growth
/-!
How many candidates are fetched for a selective filter. They are as many as the results that are
asked for, unless that is more than there are vectors, and no more than there are; but the number of
vectors is taken in double precision, where one above `2 ^ 53` may come out larger or smaller.
-/

namespace VectorSearch.Planner

open Double

/-! Whole numbers. -/

def raised (size : ℚ) : ℚ := if size < 2 ^ 53 then ⌈size⌉₊ else size

theorem le_raised (size : ℚ) : size ≤ raised size := by
  unfold raised
  split
  · exact Nat.le_ceil size
  · exact le_rfl

theorem raised_mono {size other : ℚ} (order : size ≤ other) : raised size ≤ raised other := by
  unfold raised
  by_cases small : other < 2 ^ 53
  · rw [if_pos small, if_pos (order.trans_lt small)]
    exact_mod_cast Nat.ceil_mono order
  · rw [if_neg small]
    split
    · have whole : ⌈size⌉₊ ≤ 2 ^ 53 := Nat.ceil_le.mpr (by exact_mod_cast le_of_lt ‹_›)
      exact le_trans (by exact_mod_cast whole) (not_lt.mp small)
    · exact order

theorem toFloat_ofFloat (value : Float) :
    Count.toFloat (Count.ofFloat value) = value.toUInt64.toFloat := by
  have word : Count.toWord (Count.ofFloat value) = value.toUInt64 :=
    UInt64.toNat_inj.mp ((toNat_toWord _).trans
      (min_eq_left (Nat.le_of_lt_succ value.toUInt64.toNat_lt)))
  rw [Count.toFloat, word]

theorem sized_limit : Sized 9007199254740992 ((2 ^ 53 : ℚ) : WithTop ℚ) := by
  have fits : Fits (2 ^ 52) 1 := ⟨by decide, by decide, Or.inl le_rfl, by decide⟩
  convert sized_of_unpack fits (show (9007199254740992 : Float).toModel.unpack = _ from rfl)
  norm_num

theorem sized_ceiling {value : Float} {size : ℚ} (sized : Sized value size) :
    Sized (ceiling value) (raised size : ℚ) := by
  have least := sized.nonneg
  have below : value < 9007199254740992 ↔ size < 2 ^ 53 :=
    (sized.lt_iff sized_limit).trans WithTop.coe_lt_coe
  unfold ceiling raised
  by_cases small : size < 2 ^ 53
  · rw [if_pos (below.mpr small), if_pos small]
    have floor : ⌊size⌋₊ < 2 ^ 53 := (Nat.floor_lt least).mpr (by exact_mod_cast small)
    have count : Count.ofFloat value = ⌊size⌋₊ :=
      sized.ofFloat.trans (min_eq_left (floor.le.trans (by decide)))
    have whole := sized_toFloat_of_small floor.le
    rw [← count, toFloat_ofFloat, count] at whole
    dsimp only
    by_cases part : (⌊size⌋₊ : ℚ) < size
    · rw [if_pos ((whole.lt_iff sized).mpr (WithTop.coe_lt_coe.mpr part))]
      have ceil : ⌈size⌉₊ = ⌊size⌋₊ + 1 :=
        le_antisymm (Nat.ceil_le_floor_add_one size) (Nat.lt_ceil.mpr part)
      have exact : rounded ((⌊size⌋₊ : ℚ) + 1) = ((⌈size⌉₊ : ℚ) : WithTop ℚ) := by
        have bound : ((⌊size⌋₊ + 1 : ℕ) : ℚ) ≤ 2 ^ (53 : ℤ) := by exact_mod_cast floor
        rw [ceil, ← Nat.cast_add_one, rounded_of_le (Nat.cast_nonneg _)
          (bound.trans (zpow_le_zpow_right₀ one_le_two (by decide))), nearest_natCast floor]
      exact exact ▸ whole.add sized_one
    · rw [if_neg (mt (whole.lt_iff sized).mp (mt WithTop.coe_lt_coe.mp part))]
      have same : (⌊size⌋₊ : ℚ) = size := le_antisymm (Nat.floor_le least) (not_lt.mp part)
      have ceil : ⌈size⌉₊ = ⌊size⌋₊ := by
        rw [← same, Nat.ceil_natCast, Nat.floor_natCast]
      rwa [ceil]
  · rw [if_neg (mt below.mp small), if_neg small]
    exact sized

theorem ceiling_infinity {value : Float} (infinite : Sized value ⊤) : ceiling value = value :=
  if_neg (mt (infinite.lt_iff sized_limit).mp not_top_lt)

theorem rises_ceiling {low high : Float} (rises : Rises low high) :
    Rises (ceiling low) (ceiling high) := by
  obtain ⟨size, other, sized, otherSized, order⟩ := rises
  induction other with
  | top =>
      have same := ceiling_infinity otherSized
      induction size with
      | top => exact ⟨⊤, ⊤, (ceiling_infinity sized).symm ▸ sized, same.symm ▸ otherSized, le_rfl⟩
      | coe size => exact ⟨_, ⊤, sized_ceiling sized, same.symm ▸ otherSized, le_top⟩
  | coe other =>
      obtain ⟨size, rfl⟩ := WithTop.ne_top_iff_exists.mp (order.trans_lt (WithTop.coe_lt_top _)).ne
      exact ⟨_, _, sized_ceiling sized, sized_ceiling otherSized,
        WithTop.coe_le_coe.mpr (raised_mono (WithTop.coe_le_coe.mp order))⟩

/-! Candidates. -/

variable {settings : PlannerSettings} {statistics : Statistics} {count : ℕ} {share : Float}

def wantedFor (count : ℕ) (share : Float) : ℕ :=
  Count.ofFloat (ceiling (Count.toFloat count / share * 1.5))

def roundedCount (count : ℕ) : ℕ := Count.ofFloat (Count.toFloat count)

theorem roundedCount_of_small (small : count ≤ 2 ^ 53) : roundedCount count = count := by
  rw [roundedCount, (sized_toFloat_of_small small).ofFloat, Nat.floor_natCast]
  exact min_eq_left (small.trans (by decide))

theorem exists_sized_share {threshold : Float} (atMostOne : threshold ≤ 1) (positive : 0 < share)
    (selective : share < threshold) : ∃ size : ℚ, Sized share size ∧ 0 < size ∧ size ≤ 1 := by
  obtain ⟨size, sized, above⟩ := exists_sized_between positive selective
  have below := Progress.le_trans (Progress.le_of_lt selective) atMostOne
  exact ⟨size, sized, above, WithTop.coe_le_coe.mp ((sized.le_iff sized_one).mp below)⟩

theorem le_wantedFor {size : ℚ} (fits : count ≤ Count.limit) (sized : Sized share size)
    (positive : 0 < size) (atMostOne : size ≤ 1) : count ≤ wantedFor count share := by
  have number := sized_toFloat count
  rw [Count.saturate, min_eq_left fits] at number
  have larger : nearest count ≤ nearest count / size :=
    le_div_self (nearest_nonneg _) positive atMostOne
  have reached : (nearest count : WithTop ℚ) ≤ rounded (nearest count / size) :=
    le_rounded ((nearest_nearest (Nat.cast_nonneg count)).ge.trans
      (nearest_mono (nearest_nonneg _) larger))
  obtain ⟨stretched, stretchedSized, enough⟩ :=
    exists_sized_stretched (number.div sized positive) reached
  have fetched : Count.saturate count ≤ wantedFor count share := by
    unfold wantedFor
    induction stretched with
    | top =>
        rw [ceiling_infinity stretchedSized]
        exact saturate_le_ofFloat stretchedSized enough
    | coe stretched =>
        exact saturate_le_ofFloat (sized_ceiling stretchedSized)
          (enough.trans (WithTop.coe_le_coe.mpr (le_raised stretched)))
  rwa [Count.saturate, min_eq_left fits] at fetched

theorem oversampleFor_eq {size : ℚ} (sized : Sized share size) (positive : 0 < size)
    (total count : ℕ) :
    oversampleFor total count share = min (wantedFor count share) (roundedCount total) := by
  have all := sized_toFloat total
  obtain ⟨wanted, _, wantedSized, _, _⟩ := rises_ceiling
    (((risesWithin_toFloat (le_refl count)).div sized positive).mul_right sized_threeHalves
      (by norm_num))
  unfold oversampleFor wantedFor roundedCount
  dsimp only
  split
  · rename_i fewer
    have order := ((all.lt_iff wantedSized).mp fewer).le
    exact (min_eq_right (Rises.ofFloat_le ⟨_, _, all, wantedSized, order⟩)).symm
  · rename_i enough
    have order := not_lt.mp (mt (all.lt_iff wantedSized).mpr enough)
    exact (min_eq_left (Rises.ofFloat_le ⟨_, _, wantedSized, all, order⟩)).symm

theorem planFor_of_selective [Host] (large : settings.exactScanThreshold < statistics.total)
    (positive : 0 < share) (selective : share < settings.selectiveFilterThreshold) :
    planFor settings statistics count (some share) =
      oversamplePlan settings statistics count share := by
  rw [planFor, if_neg (Nat.not_le.mpr large)]
  exact if_pos ⟨positive, selective⟩

/-- For a selective filter as many candidates are fetched as results are asked for, unless that is
more than the number of vectors in double precision, and no more than that number; so there are
enough and no more than there are vectors wherever that number is right, as it is up to `2 ^ 53`. -/
theorem oversample_planFor [Host] (settings : PlannerSettings) (statistics : Statistics) (count : ℕ)
    (share : Float) (large : settings.exactScanThreshold < statistics.total)
    (fits : count ≤ Count.limit) (atMostOne : settings.selectiveFilterThreshold ≤ 1)
    (positive : 0 < share) (selective : share < settings.selectiveFilterThreshold) :
    let plan := planFor settings statistics count (some share)
    let total := statistics.total
    plan.strategy = .oversampleFilter ∧
    min count (roundedCount total) ≤ plan.oversample ∧ plan.oversample ≤ roundedCount total ∧
    (plan.oversample ≤ total ↔ wantedFor count share ≤ total ∨ roundedCount total ≤ total) ∧
    (min count total ≤ plan.oversample ↔ min count total ≤ roundedCount total) ∧
    (total ≤ 2 ^ 53 → roundedCount total = total) ∧
    plan.candidates = plan.oversample ∧ plan.fetchCount count = max plan.oversample count := by
  intro plan total
  have same : plan = oversamplePlan settings statistics count share :=
    planFor_of_selective large positive selective
  obtain ⟨size, sized, above, below⟩ := exists_sized_share atMostOne positive selective
  have oversample : plan.oversample = min (wantedFor count share) (roundedCount total) := by
    rw [same]
    exact oversampleFor_eq sized above total count
  have enough := le_wantedFor fits sized above below
  refine ⟨by rw [same]; rfl, ?_, ?_, ?_, ?_, roundedCount_of_small, by rw [same]; rfl,
    by rw [same]; rfl⟩ <;> rw [oversample]
  · exact min_le_min_right _ enough
  · exact min_le_right _ _
  · exact min_le_iff
  · rw [le_min_iff]
    exact and_iff_right ((min_le_left _ _).trans enough)

theorem oversample_planFor_all :
    (1000 < 1500 ∧ 10 ≤ Count.limit ∧ (0.01 : Float) ≤ 1 ∧ (0 : Float) < 0.005 ∧
      (0.005 : Float) < 0.01) ∧
    (planFor {} { total := 1500 } 10 (some 0.005)).oversample ≤ roundedCount 1500 := by
  have settled : 1000 < 1500 ∧ 10 ≤ Count.limit ∧ (0.01 : Float) ≤ 1 ∧ (0 : Float) < 0.005 ∧
      (0.005 : Float) < 0.01 := by decide +kernel
  obtain ⟨large, fits, atMostOne, positive, selective⟩ := settled
  exact ⟨⟨large, fits, atMostOne, positive, selective⟩,
    (oversample_planFor {} { total := 1500 } 10 0.005 large fits atMostOne positive
      selective).2.2.1⟩

/-- A collection of `2 ^ 53 + 3` vectors is one larger in double precision, and as many candidates
are fetched. -/
theorem not_forall_oversample_le_total :
    ¬ ∀ (settings : PlannerSettings) (statistics : Statistics) (count : ℕ) (share : Float),
      settings.exactScanThreshold < statistics.total → statistics.total ≤ Count.limit →
      count ≤ Count.limit → settings.selectiveFilterThreshold ≤ 1 → 0 < share →
      share < settings.selectiveFilterThreshold →
      let plan := planFor settings statistics count (some share)
      min count statistics.total ≤ plan.oversample ∧ plan.oversample ≤ statistics.total ∧
      plan.candidates = plan.oversample ∧ plan.fetchCount count = max plan.oversample count := by
  intro bounded
  have most := (bounded {} { total := 9007199254740995 } 9007199254740995 0.005 (by decide)
    (by decide) (by decide) (by decide +kernel) (by decide +kernel) (by decide +kernel)).2.1
  have fetched : (planFor {} { total := 9007199254740995 } 9007199254740995
      (some 0.005)).oversample = 9007199254740996 := by decide +kernel
  rw [fetched] at most
  exact absurd most (by decide)

end VectorSearch.Planner

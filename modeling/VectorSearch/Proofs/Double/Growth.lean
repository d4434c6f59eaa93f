import VectorSearch.Proofs.Double.Arithmetic
/-!
Operations that keep the order of numbers that are not negative. A product is only kept in order
where it cannot be undefined, so bounds are kept with the order.
-/

namespace VectorSearch.Double

open Float.Model
open Float.Model.UnpackedFloat

/-! Numbers that have a size. -/

theorem fits_subnormal {stored : BitVec 52} (some : stored ≠ 0#52) : Fits stored.toNat (-1074) := by
  have above : stored.toNat ≠ 0 := fun none => some (BitVec.eq_of_toNat_eq none)
  have short := stored.isLt
  exact ⟨by omega, by omega, Or.inr rfl, le_rfl⟩

theorem fits_normal (stored : BitVec 52) {exponent : ℤ} (low : -1074 ≤ exponent) :
    Fits (1#1 ++ stored).toNat exponent := by
  have short := stored.isLt
  have hidden : (1#1 ++ stored).toNat = 2 ^ 52 + stored.toNat := by
    rw [BitVec.toNat_append, ← Nat.shiftLeft_add_eq_or_of_lt short, Nat.shiftLeft_eq]
    simp
  rw [hidden]
  exact ⟨by omega, by omega, Or.inl (by omega), low⟩

theorem fits_of_unpack {packed : Float.Model} {sign : Sign} {mantissa : ℕ} {exponent : ℤ}
    {above : 0 < mantissa} (same : packed.unpack = .finite sign mantissa exponent above) :
    Fits mantissa exponent := by
  rw [Float.Model.unpack, UnpackedFloat.unpack] at same
  simp only [exponentBias_eq] at same
  split at same
  · split at same <;> cases same
  · split at same
    · split at same
      · cases same
      · rename_i least some
        cases same
        rw [least]
        exact fits_subnormal some
    · rename_i some
      cases same
      have positive : (@unpackExponent .binary64 packed.toBits.toBitVec).toNat ≠ 0 :=
        fun none => some (BitVec.eq_of_toNat_eq none)
      exact fits_normal _ (by omega)

theorem exists_sized {value : Float} (least : 0 ≤ value) :
    ∃ size : WithTop ℚ, Sized value size := by
  obtain ⟨⟨_, defined⟩, above⟩ := (Progress.le_iff 0 value).mp least
  have none : Progress.grade 0 = Score.place 0 0 0 := by rfl
  have model : value.toModel.unpack.isNaN = false := defined
  rw [none, Progress.grade] at above
  unfold Sized
  match unpacked : value.toModel.unpack with
  | .infinity .positive => exact ⟨_, .infinity⟩
  | .finite .positive mantissa exponent _ => exact ⟨_, .finite (fits_of_unpack unpacked)⟩
  | .zero sign => exact ⟨_, .zero sign⟩
  | .notANumber =>
      rw [unpacked] at model
      cases model
  | .infinity .negative =>
      rw [unpacked] at above
      exact absurd above (place_lt_of_band (by decide)).not_ge
  | .finite .negative mantissa exponent _ =>
      rw [unpacked] at above
      exact absurd above (place_lt_of_band (by decide)).not_ge

theorem sized_zero : Sized 0 ((0 : ℚ) : WithTop ℚ) := .zero .positive

theorem exists_sized_between {value bound : Float} (positive : 0 < value) (below : value < bound) :
    ∃ size : ℚ, Sized value size ∧ 0 < size := by
  have least := Progress.le_of_lt positive
  obtain ⟨size, sized⟩ := exists_sized least
  obtain ⟨most, mostSized⟩ := exists_sized (Progress.le_trans least (Progress.le_of_lt below))
  have finite := ((sized.lt_iff mostSized).mp below).ne_top
  obtain ⟨size, rfl⟩ := WithTop.ne_top_iff_exists.mp finite
  exact ⟨size, sized, WithTop.coe_lt_coe.mp ((sized_zero.lt_iff sized).mp positive)⟩

theorem sized_of_unpack {mantissa : ℕ} {exponent : ℤ} (fits : Fits mantissa exponent)
    {value : Float}
    (same : value.toModel.unpack = .finite .positive mantissa exponent fits.positive) :
    Sized value ((mantissa * 2 ^ exponent : ℚ) : WithTop ℚ) := by
  rw [Sized, same]
  exact .finite fits

theorem sized_one : Sized 1 ((1 : ℚ) : WithTop ℚ) := by
  have fits : Fits (2 ^ 52) (-52) := ⟨by decide, by decide, Or.inl le_rfl, by decide⟩
  convert sized_of_unpack fits (show (1 : Float).toModel.unpack = _ from rfl)
  norm_num

theorem sized_threeHalves : Sized 1.5 ((3 / 2 : ℚ) : WithTop ℚ) := by
  have fits : Fits (3 * 2 ^ 51) (-52) := ⟨by decide, by decide, Or.inl (by decide), by decide⟩
  convert sized_of_unpack fits (show (1.5 : Float).toModel.unpack = _ from rfl)
  norm_num

theorem sized_toFloat_of_small {count : ℕ} (small : count ≤ 2 ^ 53) :
    Sized (Count.toFloat count) ((count : ℚ) : WithTop ℚ) := by
  have sized := sized_toFloat count
  rwa [Count.saturate, min_eq_left (small.trans (by decide)), nearest_natCast small] at sized

theorem Sized.nonneg {value : Float} {size : ℚ} (sized : Sized value size) : 0 ≤ size :=
  WithTop.coe_le_coe.mp (Measures.nonneg sized)

/-! Order. -/

def Rises (low high : Float) : Prop :=
  ∃ size other : WithTop ℚ, Sized low size ∧ Sized high other ∧ size ≤ other

/-- The numbers are finite as well, and of no more than so many bits before the point. -/
def RisesWithin (bits : ℕ) (low high : Float) : Prop :=
  ∃ size other : ℚ, Sized low size ∧ Sized high other ∧ size ≤ other ∧ other ≤ 2 ^ (bits : ℤ)

theorem RisesWithin.rises {bits : ℕ} {low high : Float} (within : RisesWithin bits low high) :
    Rises low high := by
  obtain ⟨size, other, sized, otherSized, order, _⟩ := within
  exact ⟨size, other, sized, otherSized, WithTop.coe_le_coe.mpr order⟩

theorem RisesWithin.widen {bits more : ℕ} {low high : Float} (within : RisesWithin bits low high)
    (order : bits ≤ more) : RisesWithin more low high := by
  obtain ⟨size, other, sized, otherSized, less, small⟩ := within
  exact ⟨size, other, sized, otherSized, less,
    small.trans (zpow_le_zpow_right₀ one_le_two (by exact_mod_cast order))⟩

theorem Rises.le {low high : Float} (rises : Rises low high) : low ≤ high := by
  obtain ⟨size, other, sized, otherSized, order⟩ := rises
  exact (sized.le_iff otherSized).mpr order

theorem saturate_mono {count larger : ℕ} (order : count ≤ larger) :
    Count.saturate count ≤ Count.saturate larger :=
  min_le_min_right _ order

theorem Rises.ofFloat_le {low high : Float} (rises : Rises low high) :
    Count.ofFloat low ≤ Count.ofFloat high := by
  obtain ⟨size, other, sized, otherSized, order⟩ := rises
  induction other with
  | top =>
      have most : Count.ofFloat low ≤ Count.limit :=
        Nat.le_of_lt_succ (UInt64.toNat_lt low.toUInt64)
      rwa [ofFloat_infinity otherSized]
  | coe other =>
      obtain ⟨size, rfl⟩ := WithTop.ne_top_iff_exists.mp (order.trans_lt (WithTop.coe_lt_top _)).ne
      rw [sized.ofFloat, otherSized.ofFloat]
      exact saturate_mono (Nat.floor_mono (WithTop.coe_le_coe.mp order))

theorem risesWithin_toFloat {count larger : ℕ} (order : count ≤ larger) :
    RisesWithin 64 (Count.toFloat count) (Count.toFloat larger) := by
  refine ⟨_, _, sized_toFloat count, sized_toFloat larger,
    nearest_mono (Nat.cast_nonneg _) (Nat.cast_le.mpr (saturate_mono order)),
    nearest_le_two_pow (Nat.cast_nonneg _) (by decide) ?_⟩
  exact_mod_cast (saturate_lt larger).le

variable {bits otherBits : ℕ} {low high otherLow otherHigh : Float}

theorem risesWithin_of_rounded {size other : ℚ} (least : 0 ≤ size) (order : size ≤ other)
    (small : other ≤ 2 ^ (bits : ℤ)) (few : bits ≤ 1023) (sized : Sized low (rounded size))
    (otherSized : Sized high (rounded other)) : RisesWithin bits low high := by
  have bound : (2 : ℚ) ^ (bits : ℤ) ≤ 2 ^ (1023 : ℤ) :=
    zpow_le_zpow_right₀ one_le_two (by omega)
  rw [rounded_of_le least (order.trans (small.trans bound))] at sized
  rw [rounded_of_le (least.trans order) (small.trans bound)] at otherSized
  exact ⟨_, _, sized, otherSized, nearest_mono least order,
    nearest_le_two_pow (least.trans order) (by omega) small⟩

theorem RisesWithin.mul (first : RisesWithin bits low high)
    (second : RisesWithin otherBits otherLow otherHigh) (few : bits + otherBits ≤ 1023) :
    RisesWithin (bits + otherBits) (low * otherLow) (high * otherHigh) := by
  obtain ⟨size, large, sized, largeSized, order, small⟩ := first
  obtain ⟨otherSize, otherLarge, otherSized, otherLargeSized, otherOrder, otherSmall⟩ := second
  refine risesWithin_of_rounded (mul_nonneg sized.nonneg otherSized.nonneg)
    (mul_le_mul order otherOrder otherSized.nonneg largeSized.nonneg) ?_ few
    (sized.mul otherSized) (largeSized.mul otherLargeSized)
  rw [Nat.cast_add, zpow_add₀ two_ne_zero]
  exact mul_le_mul small otherSmall otherLargeSized.nonneg (unit_pos _).le

theorem RisesWithin.add (first : RisesWithin bits low high)
    (second : RisesWithin bits otherLow otherHigh) (few : bits + 1 ≤ 1023) :
    RisesWithin (bits + 1) (low + otherLow) (high + otherHigh) := by
  obtain ⟨size, large, sized, largeSized, order, small⟩ := first
  obtain ⟨otherSize, otherLarge, otherSized, otherLargeSized, otherOrder, otherSmall⟩ := second
  refine risesWithin_of_rounded (add_nonneg sized.nonneg otherSized.nonneg)
    (add_le_add order otherOrder) ?_ few (sized.add otherSized) (largeSized.add otherLargeSized)
  rw [Nat.cast_add, zpow_add₀ two_ne_zero, Nat.cast_one, zpow_one]
  linarith

theorem RisesWithin.div (rises : RisesWithin bits low high) {divisor : Float} {size : ℚ}
    (sized : Sized divisor size) (positive : 0 < size) :
    Rises (low / divisor) (high / divisor) := by
  obtain ⟨dividend, large, dividendSized, largeSized, order, _⟩ := rises
  exact ⟨_, _, dividendSized.div sized positive, largeSized.div sized positive,
    rounded_mono (div_nonneg dividendSized.nonneg positive.le)
      (div_le_div_of_nonneg_right order positive.le)⟩

theorem Rises.mul_right (rises : Rises low high) {factor : Float} {size : ℚ}
    (sized : Sized factor size) (positive : 0 < size) : Rises (low * factor) (high * factor) := by
  obtain ⟨value, large, valueSized, largeSized, order⟩ := rises
  induction large with
  | top =>
      induction value with
      | top =>
          exact ⟨_, _, valueSized.infinity_mul sized positive,
            largeSized.infinity_mul sized positive, le_rfl⟩
      | coe value =>
          exact ⟨_, _, valueSized.mul sized, largeSized.infinity_mul sized positive, le_top⟩
  | coe large =>
      obtain ⟨value, rfl⟩ := WithTop.ne_top_iff_exists.mp (order.trans_lt (WithTop.coe_lt_top _)).ne
      exact ⟨_, _, valueSized.mul sized, largeSized.mul sized,
        rounded_mono (mul_nonneg valueSized.nonneg positive.le)
          (mul_le_mul_of_nonneg_right (WithTop.coe_le_coe.mp order) positive.le)⟩

/-! Stretched numbers. -/

theorem saturate_le_ofFloat {value : Float} {size : WithTop ℚ} {count : ℕ}
    (sized : Sized value size) (reached : ((count : ℚ) : WithTop ℚ) ≤ size) :
    Count.saturate count ≤ Count.ofFloat value := by
  induction size with
  | top =>
      rw [ofFloat_infinity sized]
      exact min_le_right _ _
  | coe size =>
      rw [sized.ofFloat]
      exact saturate_mono (Nat.le_floor (WithTop.coe_le_coe.mp reached))

theorem le_nearest_stretched {number : ℕ} {size : ℚ} (reached : nearest number ≤ size) :
    (number : ℚ) ≤ nearest (size * (3 / 2)) := by
  rcases Nat.eq_zero_or_pos number with rfl | positive
  · rw [Nat.cast_zero]
    exact nearest_nonneg _
  have normal : (2 : ℚ) ^ (-1022 : ℤ) ≤ 1 := zpow_le_one_of_nonpos₀ one_le_two (by decide)
  have one : (1 : ℚ) ≤ number := by exact_mod_cast positive
  have near := (nearest_near (normal.trans one)).1
  have least : (1 : ℚ) ≤ nearest number * (3 / 2) := by linarith
  have stretched := (nearest_near (normal.trans least)).1
  have order : nearest (nearest number * (3 / 2)) ≤ nearest (size * (3 / 2)) :=
    nearest_mono (by linarith) (by linarith)
  linarith

theorem exists_sized_stretched {value : Float} {size : WithTop ℚ} {number : ℕ}
    (sized : Sized value size) (reached : (nearest number : WithTop ℚ) ≤ size) :
    ∃ stretched, Sized (value * 1.5) stretched ∧ ((number : ℚ) : WithTop ℚ) ≤ stretched := by
  induction size with
  | top => exact ⟨⊤, sized.infinity_mul sized_threeHalves (by norm_num), le_top⟩
  | coe size =>
      exact ⟨_, sized.mul sized_threeHalves,
        le_rounded (le_nearest_stretched (WithTop.coe_le_coe.mp reached))⟩

theorem saturate_le_stretched (count : ℕ) :
    Count.saturate count ≤ Count.ofFloat (Count.toFloat count * 1.5) := by
  obtain ⟨stretched, sized, enough⟩ := exists_sized_stretched (sized_toFloat count) le_rfl
  have fits : Count.saturate count ≤ Count.limit := min_le_right _ _
  exact (min_eq_left fits).ge.trans (saturate_le_ofFloat sized enough)

end VectorSearch.Double

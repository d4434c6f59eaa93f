import Mathlib
/-!
Rounding to double precision. A number that is not negative is measured in units of its last place,
of which it has 53 at most, and goes to the nearest whole number of units, a half to the even one.
Rounding keeps the order of numbers.
-/

namespace VectorSearch.Double

/-! Whole numbers. -/

/-- The whole number nearest to a number, and the even one of two that are equally near. -/
def toEven (value : ℚ) : ℕ :=
  let whole := ⌊value⌋₊
  if value - whole < 1 / 2 then whole
  else if 1 / 2 < value - whole then whole + 1
  else whole + whole % 2

theorem toEven_natCast (number : ℕ) : toEven number = number := by
  simp [toEven]

theorem toEven_cases (value : ℚ) : toEven value = ⌊value⌋₊ ∧ value - ⌊value⌋₊ ≤ 1 / 2 ∨
    toEven value = ⌊value⌋₊ + 1 ∧ 1 / 2 ≤ value - ⌊value⌋₊ := by
  unfold toEven
  dsimp only
  split
  · exact Or.inl ⟨rfl, le_of_lt ‹_›⟩
  · split
    · exact Or.inr ⟨rfl, le_of_lt ‹_›⟩
    · rcases Nat.mod_two_eq_zero_or_one ⌊value⌋₊ with even | odd
      · exact Or.inl ⟨by omega, not_lt.mp ‹_›⟩
      · exact Or.inr ⟨by omega, not_lt.mp ‹_›⟩

theorem toEven_bounds {value : ℚ} (least : 0 ≤ value) :
    value - 1 / 2 ≤ toEven value ∧ (toEven value : ℚ) ≤ value + 1 / 2 := by
  have floor := Nat.floor_le least
  have next := Nat.lt_floor_add_one value
  rcases toEven_cases value with ⟨same, near⟩ | ⟨same, near⟩
  · rw [same]
    constructor <;> linarith
  · rw [same, Nat.cast_add_one]
    constructor <;> linarith

theorem toEven_mono {value other : ℚ} (order : value ≤ other) : toEven value ≤ toEven other := by
  have floors : ⌊value⌋₊ ≤ ⌊other⌋₊ := Nat.floor_mono order
  rcases floors.lt_or_eq with less | same
  · rcases toEven_cases value with ⟨low, _⟩ | ⟨low, _⟩ <;>
      rcases toEven_cases other with ⟨high, _⟩ | ⟨high, _⟩ <;> omega
  · rcases toEven_cases value with ⟨low, _⟩ | ⟨low, far⟩ <;>
      rcases toEven_cases other with ⟨high, near⟩ | ⟨high, _⟩
    case inr.inl =>
      obtain rfl : value = other := by
        rw [same] at far
        linarith
      exact le_rfl
    all_goals omega

/-! The last place. -/

def lastPlace (value : ℚ) : ℤ := max (Int.log 2 value - 52) (-1074)

theorem low_lastPlace (value : ℚ) : -1074 ≤ lastPlace value := le_max_right _ _

theorem lastPlace_mono {value other : ℚ} (positive : 0 < value) (order : value ≤ other) :
    lastPlace value ≤ lastPlace other :=
  max_le_max_right _ (sub_le_sub_right (Int.log_mono_right positive order) _)

theorem lt_of_lastPlace {value : ℚ} : value < 2 ^ (lastPlace value + 53) := by
  refine (Int.lt_zpow_succ_log_self Nat.one_lt_two value).trans_le ?_
  rw [Nat.cast_ofNat]
  exact zpow_le_zpow_right₀ one_le_two (by unfold lastPlace; omega)

theorem le_of_lastPlace {value : ℚ} (positive : 0 < value) (coarse : lastPlace value ≠ -1074) :
    2 ^ (lastPlace value + 52) ≤ value := by
  refine le_trans (le_of_eq ?_) (Int.zpow_log_le_self Nat.one_lt_two positive)
  rw [Nat.cast_ofNat]
  congr 1
  unfold lastPlace at coarse ⊢
  omega

theorem lastPlace_eq {value : ℚ} (positive : 0 < value) {exponent : ℤ} (low : -1074 ≤ exponent)
    (less : value < 2 ^ (exponent + 53)) (full : 2 ^ (exponent + 52) ≤ value ∨ exponent = -1074) :
    lastPlace value = exponent := by
  have high : Int.log 2 value < exponent + 53 :=
    (Int.lt_zpow_iff_log_lt Nat.one_lt_two positive).mp (by exact_mod_cast less)
  unfold lastPlace
  rcases full with reached | finest
  · have least : exponent + 52 ≤ Int.log 2 value :=
      (Int.zpow_le_iff_le_log Nat.one_lt_two positive).mp (by exact_mod_cast reached)
    omega
  · omega

theorem unit_pos (exponent : ℤ) : (0 : ℚ) < 2 ^ exponent := zpow_pos two_pos _

/-! Rounded numbers. -/

def units (value : ℚ) : ℕ := toEven (value / 2 ^ lastPlace value)

/-- A number rounded to 53 bits, whatever its size. -/
def nearest (value : ℚ) : ℚ := units value * 2 ^ lastPlace value

theorem nearest_nonneg (value : ℚ) : 0 ≤ nearest value :=
  mul_nonneg (Nat.cast_nonneg _) (unit_pos _).le

theorem nearest_zero : nearest 0 = 0 := by
  simp [nearest, units, toEven]

theorem units_le (value : ℚ) : units value ≤ 2 ^ 53 := by
  have bound : value / 2 ^ lastPlace value ≤ ((2 ^ 53 : ℕ) : ℚ) := by
    rw [div_le_iff₀ (unit_pos _)]
    refine lt_of_lastPlace.le.trans (le_of_eq ?_)
    rw [zpow_add₀ two_ne_zero, mul_comm]
    norm_num
  exact (toEven_mono bound).trans (toEven_natCast _).le

theorem le_units {value : ℚ} (positive : 0 < value) (coarse : lastPlace value ≠ -1074) :
    2 ^ 52 ≤ units value := by
  have bound : ((2 ^ 52 : ℕ) : ℚ) ≤ value / 2 ^ lastPlace value := by
    rw [le_div_iff₀ (unit_pos _)]
    refine le_trans (le_of_eq ?_) (le_of_lastPlace positive coarse)
    rw [zpow_add₀ two_ne_zero, mul_comm]
    norm_num
  exact (toEven_natCast _).ge.trans (toEven_mono bound)

theorem nearest_mono {value other : ℚ} (least : 0 ≤ value) (order : value ≤ other) :
    nearest value ≤ nearest other := by
  rcases least.eq_or_lt with rfl | positive
  · rw [nearest_zero]
    exact nearest_nonneg other
  unfold nearest
  rcases (lastPlace_mono positive order).eq_or_lt with same | finer
  · refine (mul_le_mul_of_nonneg_right (Nat.cast_le.mpr ?_) (unit_pos _).le).trans_eq
      (by rw [same])
    unfold units
    rw [same]
    exact toEven_mono (div_le_div_of_nonneg_right order (unit_pos _).le)
  · -- A carry takes the smaller number up to the next power of two at most.
    have coarse : lastPlace other ≠ -1074 := by
      have low := low_lastPlace value
      omega
    have few : (units value : ℚ) ≤ 2 ^ (53 : ℤ) := by exact_mod_cast units_le value
    have many : (2 : ℚ) ^ (52 : ℤ) ≤ units other := by
      exact_mod_cast le_units (positive.trans_le order) coarse
    calc (units value : ℚ) * 2 ^ lastPlace value
        ≤ 2 ^ (53 : ℤ) * 2 ^ lastPlace value := mul_le_mul_of_nonneg_right few (unit_pos _).le
      _ = 2 ^ (53 + lastPlace value) := (zpow_add₀ two_ne_zero _ _).symm
      _ ≤ 2 ^ (52 + lastPlace other) := zpow_le_zpow_right₀ one_le_two (by omega)
      _ = 2 ^ (52 : ℤ) * 2 ^ lastPlace other := zpow_add₀ two_ne_zero _ _
      _ ≤ units other * 2 ^ lastPlace other := mul_le_mul_of_nonneg_right many (unit_pos _).le

theorem nearest_eq_of_whole {value : ℚ} {count : ℕ}
    (whole : value = count * 2 ^ lastPlace value) : nearest value = value := by
  have quotient : value / 2 ^ lastPlace value = count := by
    rw [div_eq_iff (unit_pos _).ne']
    exact whole
  rw [nearest, units, quotient, toEven_natCast]
  exact whole.symm

structure Fits (mantissa : ℕ) (exponent : ℤ) : Prop where
  positive : 0 < mantissa
  short : mantissa < 2 ^ 53
  full : 2 ^ 52 ≤ mantissa ∨ exponent = -1074
  low : -1074 ≤ exponent

theorem Fits.value_pos {mantissa : ℕ} {exponent : ℤ} (fits : Fits mantissa exponent) :
    (0 : ℚ) < mantissa * 2 ^ exponent :=
  mul_pos (Nat.cast_pos.mpr fits.positive) (unit_pos _)

theorem Fits.lastPlace_eq {mantissa : ℕ} {exponent : ℤ} (fits : Fits mantissa exponent) :
    lastPlace (mantissa * 2 ^ exponent) = exponent := by
  refine Double.lastPlace_eq fits.value_pos fits.low ?_ (fits.full.imp_left fun full => ?_)
  · rw [add_comm, zpow_add₀ two_ne_zero]
    exact mul_lt_mul_of_pos_right (by exact_mod_cast fits.short) (unit_pos _)
  · rw [add_comm, zpow_add₀ two_ne_zero]
    exact mul_le_mul_of_nonneg_right (by exact_mod_cast full) (unit_pos _).le

theorem Fits.nearest_eq {mantissa : ℕ} {exponent : ℤ} (fits : Fits mantissa exponent) :
    nearest (mantissa * 2 ^ exponent) = mantissa * 2 ^ exponent :=
  nearest_eq_of_whole (by rw [fits.lastPlace_eq])

theorem exists_fits {value : ℚ} (positive : 0 < value) (some : units value ≠ 0) :
    ∃ mantissa exponent, Fits mantissa exponent ∧ nearest value = mantissa * 2 ^ exponent ∧
      lastPlace value ≤ exponent := by
  have low := low_lastPlace value
  rcases (units_le value).lt_or_eq with less | carried
  · refine ⟨units value, lastPlace value, ⟨Nat.pos_of_ne_zero some, less, ?_, low⟩, rfl, le_rfl⟩
    by_cases coarse : lastPlace value = -1074
    · exact Or.inr coarse
    · exact Or.inl (le_units positive coarse)
  · refine ⟨2 ^ 52, lastPlace value + 1, ⟨by norm_num, by norm_num, Or.inl le_rfl, by omega⟩, ?_,
      by omega⟩
    rw [nearest, carried, zpow_add₀ two_ne_zero]
    norm_num
    ring

theorem nearest_nearest {value : ℚ} (least : 0 ≤ value) :
    nearest (nearest value) = nearest value := by
  rcases least.eq_or_lt with rfl | positive
  · rw [nearest_zero, nearest_zero]
  by_cases none : units value = 0
  · have zero : nearest value = 0 := by rw [nearest, none, Nat.cast_zero, zero_mul]
    rw [zero, nearest_zero]
  · obtain ⟨mantissa, exponent, fits, same, _⟩ := exists_fits positive none
    rw [same, fits.nearest_eq]

theorem fits_two_pow {exponent : ℤ} (low : -1022 ≤ exponent) : Fits (2 ^ 52) (exponent - 52) :=
  ⟨by norm_num, by norm_num, Or.inl le_rfl, by omega⟩

theorem nearest_two_pow {exponent : ℤ} (low : -1022 ≤ exponent) :
    nearest (2 ^ exponent) = 2 ^ exponent := by
  have split : (2 : ℚ) ^ exponent = (2 ^ 52 : ℕ) * 2 ^ (exponent - 52) := by
    rw [Nat.cast_pow, Nat.cast_ofNat, ← zpow_natCast, ← zpow_add₀ two_ne_zero]
    congr 1
    push_cast
    omega
  rw [split]
  exact (fits_two_pow low).nearest_eq

theorem nearest_natCast {number : ℕ} (small : number ≤ 2 ^ 53) : nearest number = number := by
  rcases Nat.eq_zero_or_pos number with rfl | positive
  · exact_mod_cast nearest_zero
  rcases small.lt_or_eq with less | rfl
  · have fine : lastPlace number ≤ 0 := by
      by_contra coarse
      have large : (2 : ℚ) ^ (lastPlace number + 52) ≤ number :=
        le_of_lastPlace (Nat.cast_pos.mpr positive) (by omega)
      have bound : (2 : ℚ) ^ (53 : ℤ) ≤ 2 ^ (lastPlace number + 52) :=
        zpow_le_zpow_right₀ one_le_two (by omega)
      exact absurd (bound.trans large) (not_le.mpr (by exact_mod_cast less))
    obtain ⟨places, same⟩ := Int.eq_ofNat_of_zero_le (show 0 ≤ -lastPlace number by omega)
    have whole : (number : ℚ) = (number * 2 ^ places : ℕ) * 2 ^ lastPlace number := by
      rw [show lastPlace number = -(places : ℤ) by omega, Nat.cast_mul, Nat.cast_pow,
        Nat.cast_ofNat, zpow_neg, zpow_natCast, mul_assoc, mul_inv_cancel₀ (by positivity), mul_one]
    exact nearest_eq_of_whole whole
  · have power : nearest (2 ^ (53 : ℤ)) = 2 ^ (53 : ℤ) := nearest_two_pow (by decide)
    exact_mod_cast power

theorem nearest_near {value : ℚ} (normal : 2 ^ (-1022 : ℤ) ≤ value) :
    value - value / 2 ^ 53 ≤ nearest value ∧ nearest value ≤ value + value / 2 ^ 53 := by
  have positive : 0 < value := (unit_pos _).trans_le normal
  have magnitude : (-1022 : ℤ) ≤ Int.log 2 value :=
    (Int.zpow_le_iff_le_log Nat.one_lt_two positive).mp (by exact_mod_cast normal)
  have unit : (2 : ℚ) ^ lastPlace value ≤ value / 2 ^ 52 := by
    rw [le_div_iff₀ (by positivity), ← zpow_natCast, ← zpow_add₀ two_ne_zero]
    refine le_trans (le_of_eq ?_) (Int.zpow_log_le_self Nat.one_lt_two positive)
    rw [Nat.cast_ofNat]
    congr 1
    unfold lastPlace
    omega
  have scaled : value / 2 ^ lastPlace value * 2 ^ lastPlace value = value :=
    div_mul_cancel₀ _ (unit_pos _).ne'
  obtain ⟨low, high⟩ := toEven_bounds (div_nonneg positive.le (unit_pos (lastPlace value)).le)
  have lower := mul_le_mul_of_nonneg_right low (unit_pos (lastPlace value)).le
  have upper := mul_le_mul_of_nonneg_right high (unit_pos (lastPlace value)).le
  rw [sub_mul, scaled] at lower
  rw [add_mul, scaled] at upper
  rw [nearest, units]
  constructor <;> linarith

end VectorSearch.Double

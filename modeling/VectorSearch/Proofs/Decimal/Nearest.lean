import Mathlib
import VectorSearch.Decimal.Nearest
import VectorSearch.Decimal.Shortest
/-!
Decimals that read back. A number in double precision is a mantissa times a power of two; every
decimal between the midpoints to its two neighbors reads back as it, and so does a midpoint if the
mantissa is even.
-/

namespace VectorSearch.Decimal

/-! Exact values. -/

def Digits.value (digits : Digits) : ℚ := digits.coefficient * 10 ^ digits.exponent

theorem power_pos {base : Nat} (positive : 0 < base) (exponent : Int) : 0 < power base exponent :=
  Nat.pow_pos positive

theorem power_div_power (base : Nat) (positive : 0 < base) (exponent : Int) :
    (power base exponent : ℚ) / power base (-exponent) = (base : ℚ) ^ exponent := by
  have nonzero : (base : ℚ) ≠ 0 := by exact_mod_cast positive.ne'
  rcases Int.eq_nat_or_neg exponent with ⟨size, rfl | rfl⟩
  · simp [power]
  · simp [power]

theorem stretched_div (base : Nat) (positive : 0 < base) (numerator denominator : Nat)
    (exponent : Int) :
    ((numerator * power base (-exponent) : Nat) : ℚ) / (denominator * power base exponent : Nat) =
      numerator / denominator / (base : ℚ) ^ exponent := by
  have factor := power_div_power base positive (-exponent)
  rw [neg_neg, zpow_neg] at factor
  push_cast
  rw [div_eq_mul_inv _ ((base : ℚ) ^ exponent), ← factor, div_mul_div_comm]

/-! Rounding. -/

theorem roundDiv_eq {numerator denominator whole : Nat} (positive : 0 < denominator)
    (low : 2 * (whole * denominator) ≤ 2 * numerator + denominator)
    (high : 2 * numerator ≤ 2 * (whole * denominator) + denominator)
    (inside : whole % 2 = 0 ∨ 2 * (whole * denominator) < 2 * numerator + denominator ∧
      2 * numerator < 2 * (whole * denominator) + denominator) :
    roundDiv numerator denominator = whole := by
  have parts := Nat.div_add_mod numerator denominator
  have rest := Nat.mod_lt numerator positive
  rw [Nat.mul_comm] at parts
  unfold roundDiv
  dsimp only
  generalize numerator / denominator = quotient at parts ⊢
  generalize numerator % denominator = remainder at parts rest ⊢
  have atLeast : quotient ≤ whole := by
    by_contra less
    have product := Nat.mul_le_mul_right denominator (show whole + 1 ≤ quotient by omega)
    rw [Nat.add_mul] at product
    omega
  have atMost : whole ≤ quotient + 1 := by
    by_contra more
    have product := Nat.mul_le_mul_right denominator (show quotient + 2 ≤ whole by omega)
    rw [Nat.add_mul] at product
    omega
  obtain rfl | rfl : whole = quotient ∨ whole = quotient + 1 := by omega
  · split
    · rfl
    · rw [if_neg (by omega)]
      omega
  · rw [Nat.add_mul] at low high inside
    rw [if_neg (by omega)]
    split
    · rfl
    · omega

theorem roundDiv_eq_of_near {numerator denominator whole : Nat} (positive : 0 < denominator)
    {quotient : ℚ} (same : (numerator : ℚ) / denominator = quotient)
    (low : (whole : ℚ) - 1 / 2 ≤ quotient) (high : quotient ≤ whole + 1 / 2)
    (inside : whole % 2 = 0 ∨ (whole : ℚ) - 1 / 2 < quotient ∧ quotient < whole + 1 / 2) :
    roundDiv numerator denominator = whole := by
  have above : (0 : ℚ) < denominator := by exact_mod_cast positive
  have product : (numerator : ℚ) = quotient * denominator := by
    rw [← same, div_mul_cancel₀ _ above.ne']
  refine roundDiv_eq positive ?_ ?_ (inside.imp_right fun strict => ⟨?_, ?_⟩)
  · have scaled := mul_le_mul_of_nonneg_right low above.le
    rw [← product] at scaled
    exact_mod_cast (by linarith : (2 : ℚ) * (whole * denominator) ≤ 2 * numerator + denominator)
  · have scaled := mul_le_mul_of_nonneg_right high above.le
    rw [← product] at scaled
    exact_mod_cast (by linarith : (2 : ℚ) * numerator ≤ 2 * (whole * denominator) + denominator)
  · have scaled := mul_lt_mul_of_pos_right strict.1 above
    rw [← product] at scaled
    exact_mod_cast (by linarith : (2 : ℚ) * (whole * denominator) < 2 * numerator + denominator)
  · have scaled := mul_lt_mul_of_pos_right strict.2 above
    rw [← product] at scaled
    exact_mod_cast (by linarith : (2 : ℚ) * numerator < 2 * (whole * denominator) + denominator)

/-! Powers of two around a fraction. -/

theorem zpow_le_div_iff {numerator denominator : Nat} (positive : 0 < denominator)
    (exponent : Int) :
    (2 : ℚ) ^ exponent ≤ (numerator : ℚ) / denominator ↔
      denominator * power 2 exponent ≤ numerator * power 2 (-exponent) := by
  have factor := power_div_power 2 (by decide) exponent
  have above : (0 : ℚ) < denominator := by exact_mod_cast positive
  have unit : (0 : ℚ) < power 2 (-exponent) := by exact_mod_cast power_pos (by decide) _
  rw [Nat.cast_ofNat] at factor
  rw [← factor, div_le_div_iff₀ unit above, mul_comm (power 2 exponent : ℚ)]
  exact_mod_cast Iff.rfl

theorem binaryMagnitude_bounds {numerator denominator : Nat} (positive : 0 < numerator)
    (below : 0 < denominator) :
    (2 : ℚ) ^ binaryMagnitude numerator denominator ≤ (numerator : ℚ) / denominator ∧
      (numerator : ℚ) / denominator < 2 ^ (binaryMagnitude numerator denominator + 1) := by
  have above : (0 : ℚ) < denominator := by exact_mod_cast below
  have lower : (2 : ℚ) ^ ((numerator.log2 : Int) - denominator.log2 - 1) ≤
      (numerator : ℚ) / denominator := by
    have top : (2 : ℚ) ^ numerator.log2 ≤ numerator := by
      exact_mod_cast Nat.log2_self_le positive.ne'
    have bottom : (denominator : ℚ) ≤ 2 ^ (denominator.log2 + 1) := by
      exact_mod_cast Nat.lt_log2_self.le
    rw [show (numerator.log2 : Int) - denominator.log2 - 1 =
      (numerator.log2 : Int) - ((denominator.log2 + 1 : Nat) : Int) by push_cast; ring,
      zpow_sub₀ two_ne_zero, zpow_natCast, zpow_natCast]
    exact div_le_div₀ (by positivity) top above bottom
  have upper : (numerator : ℚ) / denominator <
      2 ^ ((numerator.log2 : Int) - denominator.log2 + 1) := by
    have top : (numerator : ℚ) < 2 ^ (numerator.log2 + 1) := by exact_mod_cast Nat.lt_log2_self
    have bottom : (2 : ℚ) ^ denominator.log2 ≤ denominator := by
      exact_mod_cast Nat.log2_self_le below.ne'
    rw [show (numerator.log2 : Int) - denominator.log2 + 1 =
      ((numerator.log2 + 1 : Nat) : Int) - (denominator.log2 : Int) by push_cast; ring,
      zpow_sub₀ two_ne_zero, zpow_natCast, zpow_natCast]
    exact div_lt_div₀ top bottom (by positivity) (by positivity)
  unfold binaryMagnitude
  dsimp only
  split
  · rename_i reached
    exact ⟨(zpow_le_div_iff below _).mpr reached, upper⟩
  · rename_i missed
    refine ⟨lower, ?_⟩
    rw [sub_add_cancel]
    exact not_le.mp (mt (zpow_le_div_iff below _).mp missed)

theorem le_binaryMagnitude_iff {numerator denominator : Nat} (positive : 0 < numerator)
    (below : 0 < denominator) (exponent : Int) :
    exponent ≤ binaryMagnitude numerator denominator ↔
      (2 : ℚ) ^ exponent ≤ (numerator : ℚ) / denominator := by
  obtain ⟨low, high⟩ := binaryMagnitude_bounds positive below
  constructor
  · intro le
    exact (zpow_le_zpow_right₀ one_le_two le).trans low
  · intro le
    exact Int.lt_add_one_iff.mp ((zpow_lt_zpow_iff_right₀ one_lt_two).mp (le.trans_lt high))

/-! Numbers in double precision. -/

structure Canonical (mantissa : Nat) (exponent : Int) : Prop where
  positive : 0 < mantissa
  short : mantissa < 2 * hiddenBit
  full : hiddenBit ≤ mantissa ∨ exponent = -1074
  low : -1074 ≤ exponent
  high : exponent ≤ 971

/-- The gap to the midpoint below a number, in units of its last place. -/
def gapBelow (mantissa : Nat) (exponent : Int) : ℚ :=
  if mantissa = hiddenBit ∧ exponent ≠ -1074 then 1 / 4 else 1 / 2

/-- A value between the midpoints around a number, in units of its last place. -/
structure Near (mantissa : Nat) (exponent : Int) (value : ℚ) : Prop where
  low : (mantissa : ℚ) - gapBelow mantissa exponent ≤ value
  high : value ≤ mantissa + 1 / 2
  inside : mantissa % 2 = 0 ∨
    (mantissa : ℚ) - gapBelow mantissa exponent < value ∧ value < mantissa + 1 / 2

theorem value_div_zpow (digits : Digits) (exponent : Int) :
    digits.value / 2 ^ exponent =
      (digits.coefficient * power 10 digits.exponent * power 2 (-exponent) : Nat) /
        (power 10 (-digits.exponent) * power 2 exponent : Nat) := by
  have ten := power_div_power 10 (by decide) digits.exponent
  have two := power_div_power 2 (by decide) exponent
  push_cast at ten two ⊢
  rw [Digits.value, ← ten, ← two, div_div_eq_mul_div, mul_div_assoc', div_mul_eq_mul_div,
    div_div]

def stretch (digits : Digits) (exponent : Int) : Nat :=
  4 * (power 10 (-digits.exponent) * power 2 exponent)

theorem stretch_pos (digits : Digits) (exponent : Int) : (0 : ℚ) < stretch digits exponent := by
  exact_mod_cast Nat.mul_pos (by decide)
    (Nat.mul_pos (power_pos (by decide) _) (power_pos (by decide) _))

theorem quarters_div_stretch (digits : Digits) (exponent : Int) (quarters : Nat) :
    ((quarters * power 2 exponent * power 10 (-digits.exponent) : Nat) : ℚ) /
      stretch digits exponent = quarters / 4 := by
  have unit := (stretch_pos digits exponent).ne'
  rw [div_eq_div_iff unit four_ne_zero, stretch]
  push_cast
  ring

theorem point_div_stretch (digits : Digits) (exponent : Int) :
    ((digits.coefficient * power 10 digits.exponent * (4 * power 2 (-exponent)) : Nat) : ℚ) /
      stretch digits exponent = digits.value / 2 ^ exponent := by
  rw [value_div_zpow, stretch]
  push_cast
  rw [mul_left_comm, mul_div_mul_left _ _ four_ne_zero]

theorem quarters_le_iff (digits : Digits) (exponent : Int) (quarters : Nat) :
    quarters * power 2 exponent * power 10 (-digits.exponent) ≤
        digits.coefficient * power 10 digits.exponent * (4 * power 2 (-exponent)) ↔
      (quarters : ℚ) / 4 ≤ digits.value / 2 ^ exponent := by
  rw [← quarters_div_stretch digits exponent, ← point_div_stretch,
    div_le_div_iff_of_pos_right (stretch_pos digits exponent), Nat.cast_le]

theorem le_quarters_iff (digits : Digits) (exponent : Int) (quarters : Nat) :
    digits.coefficient * power 10 digits.exponent * (4 * power 2 (-exponent)) ≤
        quarters * power 2 exponent * power 10 (-digits.exponent) ↔
      digits.value / 2 ^ exponent ≤ (quarters : ℚ) / 4 := by
  rw [← quarters_div_stretch digits exponent, ← point_div_stretch,
    div_le_div_iff_of_pos_right (stretch_pos digits exponent), Nat.cast_le]

theorem lowest_quarters {mantissa : Nat} (positive : 0 < mantissa) (exponent : Int) :
    ((4 * mantissa - (if mantissa = hiddenBit ∧ exponent ≠ -1074 then 1 else 2) : Nat) : ℚ) / 4 =
      mantissa - gapBelow mantissa exponent := by
  unfold gapBelow
  split
  · rw [Nat.cast_sub (by omega)]
    push_cast
    ring
  · rw [Nat.cast_sub (by omega)]
    push_cast
    ring

theorem holds_iff (range : ReadBack) (digits : Digits) : range.holds digits = true ↔
    let point := digits.coefficient * power 10 digits.exponent * range.scale
    let low := range.low * power 10 (-digits.exponent)
    let high := range.high * power 10 (-digits.exponent)
    low ≤ point ∧ point ≤ high ∧ (range.ends = true ∨ low < point ∧ point < high) := by
  unfold ReadBack.holds
  dsimp only
  split
  · rename_i ends
    rw [Bool.and_eq_true, decide_eq_true_iff, decide_eq_true_iff]
    exact ⟨fun ⟨low, high⟩ => ⟨low, high, Or.inl ends⟩, fun ⟨low, high, _⟩ => ⟨low, high⟩⟩
  · rename_i open'
    rw [Bool.and_eq_true, decide_eq_true_iff, decide_eq_true_iff]
    exact ⟨fun ⟨low, high⟩ => ⟨low.le, high.le, Or.inr ⟨low, high⟩⟩,
      fun ⟨_, _, inside⟩ => inside.resolve_left open'⟩

theorem holds_iff_near {mantissa : Nat} {exponent : Int} (positive : 0 < mantissa)
    (digits : Digits) : (ReadBack.of mantissa exponent).holds digits = true ↔
      Near mantissa exponent (digits.value / 2 ^ exponent) := by
  have lowest := lowest_quarters positive exponent
  have highest : ((4 * mantissa + 2 : Nat) : ℚ) / 4 = mantissa + 1 / 2 := by push_cast; ring
  have low := quarters_le_iff digits exponent
    (4 * mantissa - if mantissa = hiddenBit ∧ exponent ≠ -1074 then 1 else 2)
  have high := le_quarters_iff digits exponent (4 * mantissa + 2)
  have above := not_congr
    (le_quarters_iff digits exponent
      (4 * mantissa - if mantissa = hiddenBit ∧ exponent ≠ -1074 then 1 else 2))
  have below := not_congr (quarters_le_iff digits exponent (4 * mantissa + 2))
  rw [lowest] at low above
  rw [highest] at high below
  rw [not_le, not_le] at above below
  have even : (decide (mantissa % 2 = 0)) = true ↔ mantissa % 2 = 0 := decide_eq_true_iff
  rw [holds_iff]
  refine (and_congr low (and_congr high (or_congr even (and_congr above below)))).trans ?_
  exact ⟨fun ⟨low, high, inside⟩ => ⟨low, high, inside⟩,
    fun near => ⟨near.low, near.high, near.inside⟩⟩

/-! The nearest number. -/

section Nearest

variable {mantissa : Nat} {exponent : Int}

def wordOf (mantissa : Nat) (exponent : Int) : Nat :=
  (exponent + 1074).toNat * hiddenBit + mantissa

theorem Canonical.wordOf_lt (canonical : Canonical mantissa exponent) :
    wordOf mantissa exponent < infiniteBits := by
  have short := canonical.short
  have least := canonical.low
  have most := canonical.high
  have steps : (exponent + 1074).toNat ≤ 2045 := by omega
  have product := Nat.mul_le_mul_right hiddenBit steps
  rw [wordOf, infiniteBits]
  omega

theorem gapBelow_le (mantissa : Nat) (exponent : Int) : gapBelow mantissa exponent ≤ 1 / 2 := by
  unfold gapBelow
  split <;> norm_num

theorem Near.roundDiv_eq {numerator denominator : Nat} (below : 0 < denominator)
    (near : Near mantissa exponent ((numerator : ℚ) / denominator / 2 ^ exponent)) :
    roundDiv (numerator * power 2 (-exponent)) (denominator * power 2 exponent) = mantissa := by
  have gap := gapBelow_le mantissa exponent
  have same := stretched_div 2 (by decide) numerator denominator exponent
  rw [Nat.cast_ofNat] at same
  refine roundDiv_eq_of_near (Nat.mul_pos below (power_pos (by decide) _)) same ?_ near.high
    (near.inside.imp_right fun strict => ⟨?_, strict.2⟩)
  · linarith [near.low]
  · linarith [strict.1]

theorem Near.eq_hiddenBit {value : ℚ} (near : Near mantissa exponent value)
    (full : hiddenBit ≤ mantissa) (less : value < 2 ^ 52) : mantissa = hiddenBit := by
  by_contra more
  have above : (2 : ℚ) ^ 52 + 1 ≤ mantissa := by
    have large : 2 ^ 52 + 1 ≤ mantissa := by
      have hidden : hiddenBit = 2 ^ 52 := rfl
      omega
    exact_mod_cast large
  linarith [near.low, gapBelow_le mantissa exponent]

theorem Near.roundDiv_below {numerator denominator : Nat} (below : 0 < denominator)
    (fine : exponent ≠ -1074)
    (near : Near hiddenBit exponent ((numerator : ℚ) / denominator / 2 ^ exponent))
    (less : (numerator : ℚ) / denominator / 2 ^ exponent < 2 ^ 52) :
    roundDiv (numerator * power 2 (-(exponent - 1))) (denominator * power 2 (exponent - 1)) =
      2 * hiddenBit := by
  have same := stretched_div 2 (by decide) numerator denominator (exponent - 1)
  have double : (numerator : ℚ) / denominator / 2 ^ (exponent - 1) =
      2 * ((numerator : ℚ) / denominator / 2 ^ exponent) := by
    rw [zpow_sub₀ two_ne_zero, zpow_one]
    field_simp
  have low := near.low
  rw [gapBelow, if_pos ⟨rfl, fine⟩] at low
  have hidden : (hiddenBit : ℚ) = 2 ^ 52 := by norm_num [hiddenBit]
  rw [Nat.cast_ofNat, double] at same
  refine roundDiv_eq_of_near (Nat.mul_pos below (power_pos (by decide) _)) same ?_ ?_
    (Or.inl (by decide))
  · push_cast
    linarith
  · push_cast
    linarith

theorem fractionBits_eq (canonical : Canonical mantissa exponent) {numerator denominator : Nat}
    (positive : 0 < numerator) (below : 0 < denominator)
    (near : Near mantissa exponent ((numerator : ℚ) / denominator / 2 ^ exponent)) :
    fractionBits numerator denominator = wordOf mantissa exponent := by
  have unit : (0 : ℚ) < 2 ^ exponent := by positivity
  have least := canonical.low
  have hidden : hiddenBit = 2 ^ 52 := rfl
  have top := canonical.wordOf_lt
  have reach (places : Nat) : exponent + places ≤ binaryMagnitude numerator denominator ↔
      (2 : ℚ) ^ places ≤ (numerator : ℚ) / denominator / 2 ^ exponent := by
    rw [le_binaryMagnitude_iff positive below, zpow_add₀ two_ne_zero, zpow_natCast,
      le_div_iff₀ unit, mul_comm]
  have bounded : ¬exponent + (53 : Nat) ≤ binaryMagnitude numerator denominator := by
    rw [reach, not_le]
    have short : (mantissa : ℚ) + 1 ≤ 2 ^ 53 := by
      have whole : mantissa + 1 ≤ 2 ^ 53 := by have := canonical.short; omega
      exact_mod_cast whole
    linarith [near.high]
  have exact (same : max (binaryMagnitude numerator denominator - 52) (-1074) = exponent) :
      fractionBits numerator denominator = wordOf mantissa exponent := by
    rw [fractionBits, same, near.roundDiv_eq below]
    exact Nat.min_eq_left top.le
  by_cases reached : exponent + (52 : Nat) ≤ binaryMagnitude numerator denominator
  · exact exact (by omega)
  have less := not_le.mp (mt (reach 52).mpr reached)
  by_cases fine : exponent = -1074
  · exact exact (by omega)
  -- The value lies just below the power of two that the number is: its last place is finer by one
  -- bit there, and rounding carries into the next exponent.
  obtain rfl := near.eq_hiddenBit (canonical.full.resolve_right fine) less
  have close : exponent + (51 : Nat) ≤ binaryMagnitude numerator denominator := by
    rw [reach]
    have low := near.low
    rw [gapBelow, if_pos ⟨rfl, fine⟩, hidden] at low
    push_cast at low
    linarith
  rw [fractionBits, show max (binaryMagnitude numerator denominator - 52) (-1074) = exponent - 1 by
    omega, near.roundDiv_below below fine less]
  have steps : (exponent + 1074).toNat = (exponent - 1 + 1074).toNat + 1 := by omega
  rw [wordOf, steps, Nat.add_mul] at top ⊢
  omega

variable {digits : Digits}

theorem Near.value_bounds (canonical : Canonical mantissa exponent)
    (near : Near mantissa exponent (digits.value / 2 ^ exponent)) :
    (2 : ℚ) ^ (-1075 : ℤ) ≤ digits.value ∧ digits.value < 2 ^ (1024 : ℤ) := by
  have unit : (0 : ℚ) < 2 ^ exponent := by positivity
  have some : (1 : ℚ) ≤ mantissa := by exact_mod_cast canonical.positive
  have short : (mantissa : ℚ) + 1 ≤ 2 ^ (53 : ℤ) := by
    have whole : mantissa + 1 ≤ 2 ^ 53 := by
      have := canonical.short
      have hidden : hiddenBit = 2 ^ 52 := rfl
      omega
    exact_mod_cast whole
  have scaled : digits.value / 2 ^ exponent * 2 ^ exponent = digits.value :=
    div_mul_cancel₀ _ unit.ne'
  rw [← scaled]
  constructor
  · calc (2 : ℚ) ^ (-1075 : ℤ) = 2 ^ (-1 : ℤ) * 2 ^ (-1074 : ℤ) := by
          rw [← zpow_add₀ two_ne_zero]; rfl
      _ ≤ digits.value / 2 ^ exponent * 2 ^ exponent := by
          refine mul_le_mul ?_ (zpow_le_zpow_right₀ one_le_two canonical.low) (by positivity) ?_
          · norm_num
            linarith [near.low, gapBelow_le mantissa exponent]
          · linarith [near.low, gapBelow_le mantissa exponent]
  · calc digits.value / 2 ^ exponent * 2 ^ exponent < 2 ^ (53 : ℤ) * 2 ^ exponent := by
          refine mul_lt_mul_of_pos_right ?_ unit
          linarith [near.high]
      _ = 2 ^ (53 + exponent) := (zpow_add₀ two_ne_zero _ _).symm
      _ ≤ 2 ^ (1024 : ℤ) := zpow_le_zpow_right₀ one_le_two (by have := canonical.high; omega)

theorem two_pow_le_ten_pow (places : Nat) : 2 ^ (3 * places) ≤ 10 ^ places := by
  rw [pow_mul]
  exact Nat.pow_le_pow_left (by decide) places

theorem power_two_le_ten_pow {exponent : Int} {places : Nat} (bound : exponent ≤ 3 * places) :
    power 2 exponent ≤ 10 ^ places := by
  refine le_trans ?_ (two_pow_le_ten_pow places)
  exact Nat.pow_le_pow_right (by decide) (by omega)

theorem two_zpow_le_ten_zpow (places : Nat) :
    (2 : ℚ) ^ (3 * (places : ℤ)) ≤ 10 ^ (places : ℤ) := by
  exact_mod_cast two_pow_le_ten_pow places

theorem exponent_le_of_value_lt (positive : 0 < digits.coefficient)
    (less : digits.value < 2 ^ (1024 : ℤ)) : digits.exponent ≤ 400 := by
  by_contra large
  have some : (1 : ℚ) ≤ digits.coefficient := by exact_mod_cast positive
  have huge : (2 : ℚ) ^ (1024 : ℤ) ≤ digits.value :=
    calc (2 : ℚ) ^ (1024 : ℤ) ≤ 2 ^ (3 * ((401 : Nat) : ℤ)) :=
          zpow_le_zpow_right₀ one_le_two (by decide)
      _ ≤ 10 ^ ((401 : Nat) : ℤ) := two_zpow_le_ten_zpow 401
      _ ≤ 10 ^ digits.exponent := zpow_le_zpow_right₀ (by norm_num) (by omega)
      _ ≤ digits.value := le_mul_of_one_le_left (by positivity) some
  exact absurd less (not_lt.mpr huge)

theorem value_lt_of_log2 (small : digits.exponent ≤ 0) :
    digits.value < 2 ^ ((digits.coefficient.log2 : ℤ) + 1 + 3 * digits.exponent) := by
  have coefficient : (digits.coefficient : ℚ) < 2 ^ ((digits.coefficient.log2 : ℤ) + 1) := by
    exact_mod_cast Nat.lt_log2_self
  have power : (10 : ℚ) ^ digits.exponent ≤ 2 ^ (3 * digits.exponent) := by
    obtain ⟨places, same⟩ := Int.eq_ofNat_of_zero_le (show 0 ≤ -digits.exponent by omega)
    rw [show digits.exponent = -(places : ℤ) by omega, mul_neg, zpow_neg, zpow_neg]
    exact inv_anti₀ (by positivity) (two_zpow_le_ten_zpow places)
  rw [zpow_add₀ two_ne_zero]
  calc digits.value ≤ digits.coefficient * 2 ^ (3 * digits.exponent) :=
        mul_le_mul_of_nonneg_left power (Nat.cast_nonneg _)
    _ < _ := mul_lt_mul_of_pos_right coefficient (by positivity)

theorem Near.coefficient_pos (canonical : Canonical mantissa exponent)
    (near : Near mantissa exponent (digits.value / 2 ^ exponent)) : 0 < digits.coefficient := by
  rw [Nat.pos_iff_ne_zero]
  intro zero
  have low := (near.value_bounds canonical).1
  rw [Digits.value, zero, Nat.cast_zero, zero_mul] at low
  exact absurd low (not_le.mpr (by positivity))

/-- A decimal near a number is read as that number. -/
theorem nearestBits_eq (canonical : Canonical mantissa exponent)
    (near : Near mantissa exponent (digits.value / 2 ^ exponent)) :
    nearestBits digits.coefficient digits.exponent = wordOf mantissa exponent := by
  obtain ⟨low, high⟩ := near.value_bounds canonical
  have positive := near.coefficient_pos canonical
  have inRange : ¬(digits.coefficient.log2 : Int) + 3 * digits.exponent < -1200 := by
    intro small
    have less := value_lt_of_log2 (show digits.exponent ≤ 0 by omega)
    have bound : (2 : ℚ) ^ ((digits.coefficient.log2 : ℤ) + 1 + 3 * digits.exponent) ≤
        2 ^ (-1075 : ℤ) := zpow_le_zpow_right₀ one_le_two (by omega)
    exact absurd (low.trans_lt less) (not_lt.mpr bound)
  have quotient : ((digits.coefficient * power 10 digits.exponent : Nat) : ℚ) /
      power 10 (-digits.exponent) = digits.value := by
    have ten := power_div_power 10 (by decide) digits.exponent
    push_cast at ten ⊢
    rw [mul_div_assoc, ten, Digits.value]
  rw [nearestBits, if_neg positive.ne', if_neg (not_lt.mpr (exponent_le_of_value_lt positive high)),
    if_neg inRange]
  exact fractionBits_eq canonical (Nat.mul_pos positive (power_pos (by decide) _))
    (power_pos (by decide) _) (quotient ▸ near)

end Nearest

end VectorSearch.Decimal

import VectorSearch.Proofs.Decimal.Nearest
/-!
Shortest decimals read back. With seventeen digits decimals are less far apart than the midpoints
around a number, so one of the two next to the number lies between them.
-/

namespace VectorSearch.Decimal

variable {mantissa : Nat} {exponent : Int}

def exactValue (mantissa : Nat) (exponent : Int) : ℚ := mantissa * 2 ^ exponent

theorem value_div_scale (mantissa : Nat) (exponent : Int) :
    ((ReadBack.of mantissa exponent).value : ℚ) / (ReadBack.of mantissa exponent).scale =
      exactValue mantissa exponent := by
  have two := power_div_power 2 (by decide) exponent
  have unit : (power 2 (-exponent) : ℚ) ≠ 0 := by
    exact_mod_cast (power_pos (by decide) _).ne'
  simp only [ReadBack.of]
  push_cast at two ⊢
  rw [exactValue, ← two]
  field_simp

theorem scale_pos (mantissa : Nat) (exponent : Int) :
    0 < (ReadBack.of mantissa exponent).scale :=
  Nat.mul_pos (by decide) (power_pos (by decide) _)

/-! Decimals on both sides of a number. -/

def Digits.next (digits : Digits) : Digits :=
  { digits with coefficient := digits.coefficient + 1 }

theorem value_next (digits : Digits) : digits.next.value = digits.value + 10 ^ digits.exponent := by
  simp only [Digits.value, Digits.next]
  push_cast
  ring

theorem floor_bounds (range : ReadBack) (positive : 0 < range.scale) (place : Int) :
    (range.floor place).value ≤ range.value / range.scale ∧
      (range.value : ℚ) / range.scale < (range.floor place).next.value := by
  have same := stretched_div 10 (by decide) range.value range.scale place
  have unit : (0 : ℚ) < 10 ^ place := by positivity
  have below : 0 < range.scale * power 10 place := Nat.mul_pos positive (power_pos (by decide) _)
  have fraction : (range.value : ℚ) / range.scale =
      (range.value * power 10 (-place) : Nat) / (range.scale * power 10 place : Nat) *
        10 ^ place := by
    rw [same, Nat.cast_ofNat, div_mul_cancel₀ _ unit.ne']
  rw [value_next, fraction]
  change ((range.value * power 10 (-place) / (range.scale * power 10 place) : Nat) : ℚ) *
      10 ^ place ≤ _ ∧ _ < ((range.value * power 10 (-place) / (range.scale * power 10 place) :
        Nat) : ℚ) * 10 ^ place + 10 ^ place
  have whole := Nat.lt_mul_div_succ (range.value * power 10 (-place)) below
  refine ⟨mul_le_mul_of_nonneg_right Nat.cast_div_le unit.le, ?_⟩
  rw [← add_one_mul]
  refine mul_lt_mul_of_pos_right ((div_lt_iff₀' (by exact_mod_cast below)).mpr ?_) unit
  exact_mod_cast whole

/-! The first digit. -/

theorem pow_digitCount_le {value : Nat} (positive : 0 < value) :
    10 ^ (digitCount value - 1) ≤ value := by
  rw [digitCount, if_neg positive.ne']
  by_cases single : (Nat.toDigits 10 value).length - 1 = 0
  · rw [single]
    exact positive
  · have short := Nat.length_toDigits_le_iff (b := 10) (n := value) (by decide)
      (Nat.pos_of_ne_zero single)
    exact not_lt.mp (mt short.mpr (by omega))

theorem le_pow_zerosFrom (denominator limit : Nat) : ∀ numerator : Nat,
    denominator ≤ 10 ^ limit * numerator →
    denominator ≤ 10 ^ (zerosFrom numerator denominator limit + 1) * numerator := by
  induction limit with
  | zero =>
      intro numerator reached
      rw [zerosFrom]
      omega
  | succ limit ih =>
      intro numerator reached
      rw [zerosFrom]
      split
      · rename_i first
        rwa [zero_add, pow_one]
      · have further := ih (10 * numerator) (by rwa [← mul_assoc, ← pow_succ])
        rwa [← mul_assoc, ← pow_succ] at further

theorem zpow_magnitude_le {range : ReadBack} (positive : 0 < range.scale)
    (notTiny : range.scale ≤ 10 ^ 400 * range.value) :
    (10 : ℚ) ^ (range.magnitude - 1) ≤ range.value / range.scale := by
  have above : (0 : ℚ) < range.scale := by exact_mod_cast positive
  unfold ReadBack.magnitude
  split
  · rename_i whole
    have some : 0 < range.value / range.scale := Nat.div_pos whole positive
    have digits := pow_digitCount_le some
    have counted : 0 < digitCount (range.value / range.scale) := by
      rw [digitCount, if_neg some.ne']
      exact Nat.length_toDigits_pos
    rw [show (digitCount (range.value / range.scale) : ℤ) - 1 =
      ((digitCount (range.value / range.scale) - 1 : Nat) : ℤ) by omega, zpow_natCast]
    exact le_trans (by exact_mod_cast digits) Nat.cast_div_le
  · have places := le_pow_zerosFrom range.scale 400 range.value notTiny
    rw [show -(zerosFrom range.value range.scale 400 : ℤ) - 1 =
      -((zerosFrom range.value range.scale 400 + 1 : Nat) : ℤ) by push_cast; ring, zpow_neg,
      zpow_natCast, inv_eq_one_div, div_le_div_iff₀ (by positivity) above, one_mul]
    rw [mul_comm] at places
    exact_mod_cast places

theorem Canonical.notTiny (canonical : Canonical mantissa exponent) :
    (ReadBack.of mantissa exponent).scale ≤ 10 ^ 400 * (ReadBack.of mantissa exponent).value := by
  have least := canonical.low
  have bound : -exponent ≤ 3 * (400 : Nat) := by omega
  have small : power 2 (-exponent) ≤ 10 ^ 400 := power_two_le_ten_pow bound
  have whole : 1 ≤ mantissa * power 2 exponent :=
    Nat.mul_pos canonical.positive (power_pos (by decide) _)
  calc 4 * power 2 (-exponent) ≤ 4 * (10 ^ 400 * (mantissa * power 2 exponent)) :=
        Nat.mul_le_mul_left 4 (small.trans (Nat.le_mul_of_pos_right _ whole))
    _ = 10 ^ 400 * (4 * mantissa * power 2 exponent) := by
        rw [Nat.mul_left_comm, Nat.mul_assoc 4]

/-! Seventeen digits. -/

/-- Around a number there is more room than between two decimals of seventeen digits. -/
theorem Canonical.step_lt (canonical : Canonical mantissa exponent) :
    (10 : ℚ) ^ ((ReadBack.of mantissa exponent).magnitude - 17) / 2 ^ exponent <
      gapBelow mantissa exponent + 1 / 2 := by
  have unit : (0 : ℚ) < 2 ^ exponent := by positivity
  have least := zpow_magnitude_le (scale_pos mantissa exponent) canonical.notTiny
  have hidden : (hiddenBit : ℚ) = 2 ^ 52 := by norm_num [hiddenBit]
  have short : (mantissa : ℚ) < 2 * hiddenBit := by exact_mod_cast canonical.short
  have step : (10 : ℚ) ^ ((ReadBack.of mantissa exponent).magnitude - 17) / 2 ^ exponent ≤
      mantissa / 10 ^ 16 := by
    rw [value_div_scale, exactValue] at least
    rw [div_le_iff₀ unit, div_mul_eq_mul_div, le_div_iff₀ (by positivity)]
    refine le_trans (le_of_eq ?_) least
    rw [← zpow_natCast, ← zpow_add₀ (by norm_num)]
    congr 1
    push_cast
    ring
  refine step.trans_lt ?_
  -- At a power of two the gap below is only half as wide, but the mantissa is the least one there.
  unfold gapBelow
  split
  · rename_i power
    rw [power.1, hidden]
    norm_num
  · rw [hidden] at short
    rw [div_lt_iff₀ (by positivity)]
    linarith

theorem holds_or_holds_next (canonical : Canonical mantissa exponent) {digits : Digits}
    (low : digits.value ≤ exactValue mantissa exponent)
    (high : exactValue mantissa exponent < digits.next.value)
    (close : (10 : ℚ) ^ digits.exponent / 2 ^ exponent < gapBelow mantissa exponent + 1 / 2) :
    (ReadBack.of mantissa exponent).holds digits = true ∨
      (ReadBack.of mantissa exponent).holds digits.next = true := by
  have unit : (0 : ℚ) < 2 ^ exponent := by positivity
  have gap : 0 < gapBelow mantissa exponent := by
    unfold gapBelow
    split <;> norm_num
  rw [exactValue, ← div_le_iff₀ unit] at low
  rw [exactValue, ← lt_div_iff₀ unit] at high
  rw [holds_iff_near canonical.positive, holds_iff_near canonical.positive]
  have sum : digits.next.value / 2 ^ exponent =
      digits.value / 2 ^ exponent + 10 ^ digits.exponent / 2 ^ exponent := by
    rw [value_next, add_div]
  by_cases above : (mantissa : ℚ) - gapBelow mantissa exponent < digits.value / 2 ^ exponent
  · exact Or.inl ⟨above.le, by linarith, Or.inr ⟨above, by linarith⟩⟩
  · refine Or.inr ⟨by linarith, by linarith, Or.inr ⟨by linarith, by linarith⟩⟩

theorem holds_of_at? {range : ReadBack} {place : Int} {digits : Digits}
    (found : range.at? place = some digits) : range.holds digits = true := by
  unfold ReadBack.at? at found
  dsimp only at found
  split at found
  · rename_i lower
    split at found
    · rename_i upper
      rw [Bool.and_eq_true] at upper
      obtain rfl := Option.some.inj found
      exact upper.1
    · obtain rfl := Option.some.inj found
      exact lower
  · split at found
    · rename_i upper
      obtain rfl := Option.some.inj found
      exact upper
    · exact absurd found.symm (Option.some_ne_none _)

theorem at?_ne_none {range : ReadBack} {place : Int}
    (one : range.holds (range.floor place) = true ∨
      range.holds (range.floor place).next = true) : range.at? place ≠ none := by
  unfold ReadBack.at?
  dsimp only
  split
  · split <;> exact Option.some_ne_none _
  · rename_i notLower
    have upper := one.resolve_left notLower
    unfold Digits.next at upper
    rw [if_pos upper]
    exact Option.some_ne_none _

theorem holds_firstFrom (canonical : Canonical mantissa exponent) (left : Nat) :
    ∀ digits : Nat, left + digits = 17 → (ReadBack.of mantissa exponent).holds
      ((ReadBack.of mantissa exponent).firstFrom (ReadBack.of mantissa exponent).magnitude
        (left + 1) digits) = true := by
  -- The induction is on the digits that are left to try. No decimal need be found before the last.
  induction left with
  | zero =>
      intro digits total
      obtain ⟨low, high⟩ := floor_bounds (ReadBack.of mantissa exponent)
        (scale_pos mantissa exponent) ((ReadBack.of mantissa exponent).magnitude - 17)
      rw [value_div_scale] at low high
      have found := at?_ne_none (holds_or_holds_next canonical low high canonical.step_lt)
      rw [ReadBack.firstFrom, show (digits : ℤ) = 17 by omega]
      split
      · rename_i found
        exact holds_of_at? found
      · contradiction
  | succ left ih =>
      intro digits total
      rw [ReadBack.firstFrom]
      split
      · rename_i found
        exact holds_of_at? found
      · exact ih (digits + 1) (by omega)

/-! Zeros at the end. -/

theorem value_trimFrom (limit : Nat) : ∀ digits : Digits,
    (digits.trimFrom limit).value = digits.value := by
  induction limit with
  | zero => exact fun digits => rfl
  | succ limit ih =>
      intro digits
      unfold Digits.trimFrom
      split
      · rename_i zero
        have tenth : digits.coefficient = 10 * (digits.coefficient / 10) := by omega
        rw [ih, Digits.value, Digits.value, zpow_add_one₀ (by norm_num)]
        conv_rhs => rw [tenth]
        push_cast
        ring
      · rfl

theorem near_shortest (canonical : Canonical mantissa exponent) :
    Near mantissa exponent ((shortest mantissa exponent).value / 2 ^ exponent) := by
  rw [shortest, value_trimFrom, ← holds_iff_near canonical.positive]
  exact holds_firstFrom canonical 16 1 rfl

end VectorSearch.Decimal

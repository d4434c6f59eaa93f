import VectorSearch.Count
import VectorSearch.Proofs.Double.Model
import VectorSearch.Proofs.Migration.Progress
/-!
Double-precision numbers that are not negative and the sizes that they stand for. Sizes order the
numbers, and each operation gives the size that it would give without rounding, rounded; a size that
is too large is infinite.
-/

namespace VectorSearch.Double

open Float.Model
open Float.Model.UnpackedFloat

/-! Sizes. -/

/-- The size of an unpacked number that is not negative, infinity being above all others. -/
inductive Measures : UnpackedFloat → WithTop ℚ → Prop
  | zero (sign : Sign) : Measures (.zero sign) ((0 : ℚ) : WithTop ℚ)
  | finite {mantissa : ℕ} {exponent : ℤ} (fits : Fits mantissa exponent) :
      Measures (.finite .positive mantissa exponent fits.positive)
        ((mantissa * 2 ^ exponent : ℚ) : WithTop ℚ)
  | infinity : Measures (.infinity .positive) ⊤

def Sized (value : Float) (size : WithTop ℚ) : Prop := Measures value.toModel.unpack size

theorem Measures.nonneg {unpacked : UnpackedFloat} {size : WithTop ℚ}
    (measured : Measures unpacked size) : 0 ≤ size := by
  cases measured with
  | zero => exact le_rfl
  | finite fits => exact WithTop.coe_le_coe.mpr fits.value_pos.le
  | infinity => exact le_top

theorem Measures.finite_cases {unpacked : UnpackedFloat} {size : ℚ}
    (measured : Measures unpacked size) :
    (∃ sign, unpacked = .zero sign ∧ size = 0) ∨
    ∃ mantissa exponent, ∃ fits : Fits mantissa exponent,
      unpacked = .finite .positive mantissa exponent fits.positive ∧
      size = mantissa * 2 ^ exponent := by
  generalize same : (size : WithTop ℚ) = whole at measured
  cases measured with
  | zero sign => exact Or.inl ⟨sign, rfl, WithTop.coe_injective same⟩
  | finite fits => exact Or.inr ⟨_, _, fits, rfl, WithTop.coe_injective same⟩
  | infinity => exact absurd same (WithTop.coe_ne_top)

theorem Measures.eq_infinity {unpacked : UnpackedFloat} (measured : Measures unpacked ⊤) :
    unpacked = .infinity .positive := by
  generalize same : (⊤ : WithTop ℚ) = whole at measured
  cases measured with
  | zero sign => exact absurd same.symm (WithTop.coe_ne_top)
  | finite fits => exact absurd same.symm (WithTop.coe_ne_top)
  | infinity => rfl

/-! Order. -/

theorem place_lt_of_band {band exponent mantissa otherBand otherExponent otherMantissa : ℤ}
    (below : band < otherBand) :
    Score.place band exponent mantissa < Score.place otherBand otherExponent otherMantissa :=
  Prod.Lex.toLex_lt_toLex.mpr (Or.inl below)

theorem Measures.grade_lt {unpacked other : UnpackedFloat} {size otherSize : WithTop ℚ}
    (measured : Measures unpacked size) (otherMeasured : Measures other otherSize)
    (less : size < otherSize) : Score.unpackedGrade unpacked < Score.unpackedGrade other := by
  cases measured with
  | zero sign =>
      cases otherMeasured with
      | zero otherSign => exact absurd less (lt_irrefl _)
      | finite fits => exact place_lt_of_band (by decide)
      | infinity => exact place_lt_of_band (by decide)
  | @finite mantissa exponent fits =>
      cases otherMeasured with
      | zero otherSign => exact absurd (WithTop.coe_lt_coe.mp less) fits.value_pos.not_gt
      | @finite otherMantissa otherExponent otherFits =>
          have sizes := WithTop.coe_lt_coe.mp less
          have exponents := lastPlace_mono fits.value_pos sizes.le
          rw [fits.lastPlace_eq, otherFits.lastPlace_eq] at exponents
          refine Prod.Lex.toLex_lt_toLex.mpr (Or.inr ⟨rfl, Prod.Lex.toLex_lt_toLex.mpr ?_⟩)
          rcases exponents.lt_or_eq with finer | same
          · exact Or.inl finer
          · subst same
            have mantissas := lt_of_mul_lt_mul_right sizes (unit_pos exponent).le
            exact Or.inr ⟨rfl, Int.ofNat_lt.mpr (by exact_mod_cast mantissas)⟩
      | infinity => exact place_lt_of_band (by decide)
  | infinity => exact absurd less not_top_lt

theorem Measures.grade_eq {unpacked other : UnpackedFloat} {size : WithTop ℚ}
    (measured : Measures unpacked size) (otherMeasured : Measures other size) :
    Score.unpackedGrade unpacked = Score.unpackedGrade other := by
  cases measured with
  | zero sign =>
      rcases otherMeasured.finite_cases with ⟨otherSign, rfl, _⟩ | ⟨_, _, fits, _, none⟩
      · rfl
      · exact absurd none fits.value_pos.ne
  | @finite mantissa exponent fits =>
      rcases otherMeasured.finite_cases with ⟨_, _, none⟩ | ⟨_, _, otherFits, rfl, same⟩
      · exact absurd none fits.value_pos.ne'
      · have exponents := congrArg lastPlace same
        rw [fits.lastPlace_eq, otherFits.lastPlace_eq] at exponents
        subst exponents
        have mantissas := mul_right_cancel₀ (unit_pos exponent).ne' same
        obtain rfl : mantissa = _ := by exact_mod_cast mantissas
        rfl
  | infinity => rw [otherMeasured.eq_infinity]

theorem Measures.isNaN_eq {unpacked : UnpackedFloat} {size : WithTop ℚ}
    (measured : Measures unpacked size) : unpacked.isNaN = false := by
  cases measured <;> rfl

theorem Sized.le_iff {value other : Float} {size otherSize : WithTop ℚ} (sized : Sized value size)
    (otherSized : Sized other otherSize) : value ≤ other ↔ size ≤ otherSize := by
  refine (Progress.le_iff value other).trans ?_
  rw [and_iff_right ⟨sized.isNaN_eq, otherSized.isNaN_eq⟩]
  rcases lt_trichotomy size otherSize with less | rfl | greater
  · exact iff_of_true (sized.grade_lt otherSized less).le less.le
  · exact iff_of_true (sized.grade_eq otherSized).le le_rfl
  · exact iff_of_false (otherSized.grade_lt sized greater).not_ge greater.not_ge

theorem Sized.lt_iff {value other : Float} {size otherSize : WithTop ℚ} (sized : Sized value size)
    (otherSized : Sized other otherSize) : value < other ↔ size < otherSize := by
  refine (Progress.lt_iff value other).trans ?_
  rw [and_iff_right ⟨sized.isNaN_eq, otherSized.isNaN_eq⟩]
  rcases lt_trichotomy size otherSize with less | rfl | greater
  · exact iff_of_true (sized.grade_lt otherSized less) less
  · exact iff_of_false (sized.grade_eq otherSized).not_lt (lt_irrefl _)
  · exact iff_of_false (otherSized.grade_lt sized greater).not_gt greater.not_gt

/-! Rounding. -/

/-- A size rounded to a number: infinite where it takes more than the greatest exponent. -/
def rounded (size : ℚ) : WithTop ℚ :=
  if nearest size < 2 ^ (1024 : ℤ) then (nearest size : ℚ) else ⊤

theorem rounded_mono {size other : ℚ} (least : 0 ≤ size) (order : size ≤ other) :
    rounded size ≤ rounded other := by
  have below := nearest_mono least order
  unfold rounded
  by_cases small : nearest other < 2 ^ (1024 : ℤ)
  · rw [if_pos small, if_pos (below.trans_lt small)]
    exact WithTop.coe_le_coe.mpr below
  · rw [if_neg small]
    exact le_top

theorem nearest_le_two_pow {size : ℚ} {exponent : ℤ} (least : 0 ≤ size) (low : -1022 ≤ exponent)
    (small : size ≤ 2 ^ exponent) : nearest size ≤ 2 ^ exponent :=
  (nearest_mono least small).trans_eq (nearest_two_pow low)

theorem rounded_of_le {size : ℚ} (least : 0 ≤ size) (small : size ≤ 2 ^ (1023 : ℤ)) :
    rounded size = (nearest size : ℚ) := by
  refine if_pos ((nearest_le_two_pow least (by decide) small).trans_lt ?_)
  exact zpow_lt_zpow_right₀ one_lt_two (by decide)

theorem le_rounded {bound size : ℚ} (below : bound ≤ nearest size) :
    (bound : WithTop ℚ) ≤ rounded size := by
  unfold rounded
  split
  · exact WithTop.coe_le_coe.mpr below
  · exact le_top

theorem rounded_zero : rounded 0 = ((0 : ℚ) : WithTop ℚ) := by
  rw [rounded_of_le le_rfl (unit_pos _).le, nearest_zero]

theorem Fits.lt_two_pow_iff {mantissa : ℕ} {exponent : ℤ} (fits : Fits mantissa exponent) :
    (mantissa * 2 ^ exponent : ℚ) < 2 ^ (1024 : ℤ) ↔ exponent ≤ 971 := by
  have unit := unit_pos exponent
  constructor
  · intro small
    by_contra high
    have full : (2 : ℚ) ^ (52 : ℤ) ≤ mantissa := by
      exact_mod_cast fits.full.resolve_right (by omega)
    have large : (2 : ℚ) ^ (1024 : ℤ) ≤ 2 ^ (52 + exponent) :=
      zpow_le_zpow_right₀ one_le_two (by omega)
    rw [zpow_add₀ two_ne_zero] at large
    exact (large.trans (mul_le_mul_of_nonneg_right full unit.le)).not_gt small
  · intro high
    have short : (mantissa : ℚ) < 2 ^ (53 : ℤ) := by exact_mod_cast fits.short
    calc (mantissa * 2 ^ exponent : ℚ)
        < 2 ^ (53 : ℤ) * 2 ^ exponent := mul_lt_mul_of_pos_right short unit
      _ = 2 ^ (53 + exponent) := (zpow_add₀ two_ne_zero _ _).symm
      _ ≤ 2 ^ (1024 : ℤ) := zpow_le_zpow_right₀ one_le_two (by omega)

theorem measures_pack_zero (sign : Sign) :
    Measures (Float.Model.pack (.zero sign)).unpack (rounded 0) := by
  rw [unpack_pack_zero, rounded_zero]
  exact .zero sign

theorem measures_pack_finite {mantissa : ℕ} {exponent : ℤ} (fits : Fits mantissa exponent) :
    Measures (Float.Model.pack (.finite .positive mantissa exponent fits.positive)).unpack
      (rounded (mantissa * 2 ^ exponent)) := by
  rw [unpack_pack _ fits, rounded, fits.nearest_eq]
  by_cases high : exponent ≤ 971
  · rw [if_pos high, if_pos (fits.lt_two_pow_iff.mpr high)]
    exact .finite fits
  · rw [if_neg high, if_neg (mt fits.lt_two_pow_iff.mp high)]
    exact .infinity

theorem rounded_nearest {size other : ℚ} (same : nearest size = nearest other) :
    rounded size = rounded other := by
  rw [rounded, rounded, same]

theorem measures_roundWithAccuracy {size : ℚ} {mantissa : ℕ} {exponent : ℤ} {accuracy : Accuracy}
    (positive : 0 < size) (fine : exponent ≤ lastPlace size)
    (located : Locates (.ofMantissaAndAccuracy mantissa accuracy) (size / 2 ^ exponent)) :
    Measures (Float.Model.pack
      (roundWithAccuracy .binary64 .positive mantissa exponent accuracy)).unpack
        (rounded size) := by
  rcases roundWithAccuracy_spec .positive positive fine located with
    ⟨same, none⟩ | ⟨cut, raised, fits, same, some⟩
  · rw [same, rounded_nearest (none.trans nearest_zero.symm)]
    exact measures_pack_zero .positive
  · rw [same, rounded_nearest (some.trans fits.nearest_eq.symm)]
    exact measures_pack_finite fits

theorem measures_round {mantissa : ℕ} (exponent : ℤ) (positive : 0 < mantissa) :
    Measures (Float.Model.pack (UnpackedFloat.round .binary64 .positive mantissa exponent)).unpack
      (rounded (mantissa * 2 ^ exponent)) := by
  have size : (0 : ℚ) < mantissa * 2 ^ exponent :=
    mul_pos (Nat.cast_pos.mpr positive) (unit_pos exponent)
  have floor : ⌊(mantissa * 2 ^ exponent : ℚ) / 2 ^ exponent⌋₊ = mantissa := by
    rw [mul_div_cancel_right₀ _ (unit_pos exponent).ne', Nat.floor_natCast]
  have target := targetExponent_of_pos positive floor
  generalize places : (exponent - lastPlace (mantissa * 2 ^ exponent)).toNat = shift
  have lengthened : (mantissa * 2 ^ exponent / 2 ^ (exponent - (shift : ℤ)) : ℚ) =
      (mantissa <<< shift : ℕ) := by
    rw [Nat.shiftLeft_eq, zpow_sub₀ two_ne_zero, zpow_natCast]
    field_simp
    push_cast
    ring
  simp only [UnpackedFloat.round, target, decreaseExponent, places]
  refine measures_roundWithAccuracy size (by omega) ?_
  rw [lengthened]
  exact locates_exact _

/-! Operations. -/

theorem measures_ofNat (number : ℕ) :
    Measures (Float.Model.pack (UnpackedFloat.ofNat .binary64 number)).unpack (rounded number) := by
  rcases Nat.eq_zero_or_pos number with rfl | positive
  · rw [Nat.cast_zero]
    exact measures_pack_zero .positive
  · have greater : compare (number : ℤ) 0 = .gt := Int.compare_eq_gt.mpr (by omega)
    have measured := measures_round 0 positive
    rw [zpow_zero, mul_one] at measured
    rw [UnpackedFloat.ofNat, UnpackedFloat.ofInt, UnpackedFloat.normalize, greater]
    exact measured

theorem toNat_toWord (count : ℕ) : (Count.toWord count).toNat = Count.saturate count := by
  rw [Count.toWord, UInt64.toNat_ofNat']
  exact Nat.mod_eq_of_lt (Nat.lt_succ_of_le (Nat.min_le_right _ _))

theorem saturate_lt (count : ℕ) : Count.saturate count < 2 ^ 64 :=
  toNat_toWord count ▸ (Count.toWord count).toNat_lt

theorem sized_toFloat (count : ℕ) :
    Sized (Count.toFloat count) (nearest (Count.saturate count) : ℚ) := by
  have small : ((Count.saturate count : ℕ) : ℚ) ≤ 2 ^ (1023 : ℤ) := by
    have few : ((Count.saturate count : ℕ) : ℚ) ≤ 2 ^ (64 : ℤ) := by
      exact_mod_cast (saturate_lt count).le
    exact few.trans (zpow_le_zpow_right₀ one_le_two (by decide))
  have number : (Count.toFloat count).toModel =
      Float.Model.pack (UnpackedFloat.ofNat .binary64 (Count.toWord count).toNat) := rfl
  rw [Sized, number, toNat_toWord, ← rounded_of_le (Nat.cast_nonneg _) small]
  exact measures_ofNat (Count.saturate count)

theorem log_of_pos {mantissa : ℕ} (positive : 0 < mantissa) (exponent : ℤ) :
    Int.log 2 ((mantissa : ℚ) * 2 ^ exponent) = mantissa.log2 + exponent :=
  log_mul_two_pow positive
    (by rw [mul_div_cancel_right₀ _ (unit_pos exponent).ne', Nat.floor_natCast])

theorem Fits.add_le_lastPlace {mantissa otherMantissa : ℕ} {exponent otherExponent : ℤ}
    (fits : Fits mantissa exponent) (otherFits : Fits otherMantissa otherExponent) :
    exponent + otherExponent ≤ lastPlace
      ((mantissa * otherMantissa : ℕ) * 2 ^ (exponent + otherExponent)) := by
  have positive := Nat.mul_pos fits.positive otherFits.positive
  have low := fits.low
  have otherLow := otherFits.low
  have long := log_of_pos positive (exponent + otherExponent)
  have bits : 52 ≤ (mantissa * otherMantissa).log2 ∨ exponent + otherExponent ≤ -1074 := by
    rcases fits.full with full | rfl
    · exact Or.inl ((Nat.le_log2 positive.ne').mpr
        (full.trans (Nat.le_mul_of_pos_right _ otherFits.positive)))
    rcases otherFits.full with full | rfl
    · exact Or.inl ((Nat.le_log2 positive.ne').mpr
        (full.trans (Nat.le_mul_of_pos_left _ fits.positive)))
    · exact Or.inr (by decide)
  unfold lastPlace
  omega

theorem Sized.mul {value other : Float} {size otherSize : ℚ} (sized : Sized value size)
    (otherSized : Sized other otherSize) : Sized (value * other) (rounded (size * otherSize)) := by
  have product : (value * other).toModel = Float.Model.pack
      (UnpackedFloat.mul .binary64 value.toModel.unpack other.toModel.unpack) := rfl
  rw [Sized, product]
  rcases sized.finite_cases with ⟨sign, one, none⟩ | ⟨mantissa, exponent, fits, one, some⟩ <;>
    rcases otherSized.finite_cases with
      ⟨otherSign, two, otherNone⟩ | ⟨otherMantissa, otherExponent, otherFits, two, otherSome⟩
  · rw [one, two, none, zero_mul]
    exact measures_pack_zero _
  · rw [one, two, none, zero_mul]
    exact measures_pack_zero _
  · rw [one, two, otherNone, mul_zero]
    exact measures_pack_zero _
  · have split : size * otherSize =
        (mantissa * otherMantissa : ℕ) * 2 ^ (exponent + otherExponent) := by
      rw [some, otherSome, zpow_add₀ two_ne_zero]
      push_cast
      ring
    have whole : size * otherSize / 2 ^ (exponent + otherExponent) =
        (mantissa * otherMantissa : ℕ) := by
      rw [split, mul_div_cancel_right₀ _ (unit_pos _).ne']
    have fine : exponent + otherExponent ≤ lastPlace (size * otherSize) :=
      split ▸ fits.add_le_lastPlace otherFits
    rw [one, two]
    refine measures_roundWithAccuracy (some ▸ otherSome ▸ mul_pos fits.value_pos
      otherFits.value_pos) fine ?_
    rw [whole]
    exact locates_exact _

theorem Sized.infinity_mul {value other : Float} {size : ℚ} (infinite : Sized value ⊤)
    (sized : Sized other size) (positive : 0 < size) : Sized (value * other) ⊤ := by
  have product : (value * other).toModel = Float.Model.pack
      (UnpackedFloat.mul .binary64 value.toModel.unpack other.toModel.unpack) := rfl
  rcases sized.finite_cases with ⟨_, _, none⟩ | ⟨mantissa, exponent, fits, same, _⟩
  · exact absurd none positive.ne'
  · rw [Sized, product, infinite.eq_infinity, same]
    change Measures (Float.Model.pack (.infinity .positive)).unpack ⊤
    rw [unpack_pack_infinity]
    exact .infinity

theorem decreaseExponent_size (mantissa : ℕ) {exponent least : ℤ} (order : least ≤ exponent) :
    ((decreaseExponent mantissa exponent least).1 : ℚ) * 2 ^ least = mantissa * 2 ^ exponent := by
  obtain ⟨places, shift⟩ := Int.eq_ofNat_of_zero_le (sub_nonneg.mpr order)
  rw [decreaseExponent]
  simp only [shift, Int.toNat_natCast, Nat.shiftLeft_eq]
  rw [show exponent = places + least by omega, zpow_add₀ two_ne_zero, zpow_natCast]
  push_cast
  ring

theorem Sized.add {value other : Float} {size otherSize : ℚ} (sized : Sized value size)
    (otherSized : Sized other otherSize) : Sized (value + other) (rounded (size + otherSize)) := by
  have sum : (value + other).toModel = Float.Model.pack
      (UnpackedFloat.add .binary64 value.toModel.unpack other.toModel.unpack) := rfl
  rw [Sized, sum]
  rcases sized.finite_cases with ⟨sign, one, none⟩ | ⟨mantissa, exponent, fits, one, some⟩ <;>
    rcases otherSized.finite_cases with
      ⟨otherSign, two, otherNone⟩ | ⟨otherMantissa, otherExponent, otherFits, two, otherSome⟩
  · rw [one, two, none, otherNone, add_zero]
    cases sign <;> cases otherSign <;> exact measures_pack_zero _
  · rw [one, two, none, otherSome, zero_add]
    exact measures_pack_finite otherFits
  · rw [one, two, some, otherNone, add_zero]
    exact measures_pack_finite fits
  · -- Both mantissas are brought to the smaller exponent.
    have first := decreaseExponent_size mantissa (min_le_left exponent otherExponent)
    have second := decreaseExponent_size otherMantissa (min_le_right exponent otherExponent)
    generalize leastEq : min exponent otherExponent = least at first second
    generalize firstEq : (decreaseExponent mantissa exponent least).1 = longer at first
    generalize secondEq : (decreaseExponent otherMantissa otherExponent least).1 = otherLonger
      at second
    have total : size + otherSize = (longer + otherLonger : ℕ) * 2 ^ least := by
      rw [some, otherSome, ← first, ← second]
      push_cast
      ring
    have above : 0 < longer := by
      by_contra zero
      rw [Nat.eq_zero_of_not_pos zero, Nat.cast_zero, zero_mul] at first
      exact fits.value_pos.ne first
    have greater : compare ((longer : ℤ) + otherLonger) 0 = .gt :=
      Int.compare_eq_gt.mpr (by omega)
    have measured := measures_round least (Nat.add_pos_left above otherLonger)
    rw [one, two, total]
    simp only [UnpackedFloat.add, leastEq, firstEq, secondEq, Sign.apply, UnpackedFloat.normalize,
      greater]
    exact measured

theorem locates_fraction (dividend : ℕ) {divisor : ℕ} (positive : 0 < divisor) :
    Locates (.ofMantissaAndAccuracy (dividend / divisor)
      (accuracyOfFraction (dividend % divisor) divisor)) ((dividend : ℚ) / divisor) := by
  have whole : (dividend : ℚ) = divisor * (dividend / divisor : ℕ) + (dividend % divisor : ℕ) := by
    exact_mod_cast (Nat.div_add_mod dividend divisor).symm
  have small : ((dividend % divisor : ℕ) : ℚ) < divisor := by
    exact_mod_cast Nat.mod_lt dividend positive
  have some : (0 : ℚ) < divisor := by exact_mod_cast positive
  generalize dividend / divisor = quotient at whole ⊢
  generalize dividend % divisor = remainder at whole small ⊢
  have value : (dividend : ℚ) / divisor = quotient + (remainder : ℚ) / divisor := by
    rw [whole]
    field_simp
  have least : (0 : ℚ) ≤ (remainder : ℚ) / divisor := by positivity
  have most : (remainder : ℚ) / divisor < 1 := (div_lt_one some).mpr small
  rw [value]
  unfold accuracyOfFraction
  split
  · rename_i none
    rw [none, Nat.cast_zero, zero_div, add_zero]
    exact locates_exact quotient
  · rename_i nonzero
    have above : (0 : ℚ) < (remainder : ℚ) / divisor :=
      div_pos (by exact_mod_cast Nat.pos_of_ne_zero nonzero) some
    cases order : compare (2 * remainder) divisor with
    | lt =>
        have less : (2 * remainder : ℚ) < divisor := by
          exact_mod_cast Nat.compare_eq_lt.mp order
        have half : (remainder : ℚ) / divisor < 1 / 2 := by
          rw [div_lt_iff₀ some]
          linarith
        refine ⟨?_, ?_, ?_⟩ <;> simp [ExtendedMantissa.ofMantissaAndAccuracy, floorOf]
        · exact least
        · simpa using half
        · exact ⟨nonzero, positive.ne'⟩
    | eq =>
        have same : (2 * remainder : ℚ) = divisor := by
          exact_mod_cast Nat.compare_eq_eq.mp order
        have half : (remainder : ℚ) / divisor = 1 / 2 := by
          rw [div_eq_iff some.ne']
          linarith
        rw [half]
        refine ⟨?_, ?_, ?_⟩ <;> simp [ExtendedMantissa.ofMantissaAndAccuracy, floorOf]
    | gt =>
        have more : (divisor : ℚ) < 2 * remainder := by
          exact_mod_cast Nat.compare_eq_gt.mp order
        have half : 1 / 2 < (remainder : ℚ) / divisor := by
          rw [lt_div_iff₀ some]
          linarith
        refine ⟨?_, ?_, ?_⟩ <;> simp [ExtendedMantissa.ofMantissaAndAccuracy, floorOf]
        · simpa using half.le
        · linarith
        · intro same
          rw [same] at half
          simp at half

theorem log_sub_le {size other : ℚ} (positive : 0 < size) (otherPositive : 0 < other) :
    Int.log 2 size - Int.log 2 other - 1 ≤ Int.log 2 (size / other) := by
  refine (Int.zpow_le_iff_le_log Nat.one_lt_two (div_pos positive otherPositive)).mp ?_
  have low := Int.zpow_log_le_self Nat.one_lt_two positive
  have high := (Int.lt_zpow_succ_log_self Nat.one_lt_two other).le
  rw [Nat.cast_ofNat] at low high ⊢
  rw [le_div_iff₀ otherPositive]
  calc (2 : ℚ) ^ (Int.log 2 size - Int.log 2 other - 1) * other
      ≤ 2 ^ (Int.log 2 size - Int.log 2 other - 1) * 2 ^ (Int.log 2 other + 1) :=
        mul_le_mul_of_nonneg_left high (unit_pos _).le
    _ = 2 ^ Int.log 2 size := by
        rw [← zpow_add₀ two_ne_zero]
        congr 1
        ring
    _ ≤ size := low

theorem Sized.div {value other : Float} {size otherSize : ℚ} (sized : Sized value size)
    (otherSized : Sized other otherSize) (positive : 0 < otherSize) :
    Sized (value / other) (rounded (size / otherSize)) := by
  have quotient : (value / other).toModel = Float.Model.pack
      (UnpackedFloat.div .binary64 value.toModel.unpack other.toModel.unpack) := rfl
  rw [Sized, quotient]
  rcases otherSized.finite_cases with
    ⟨_, _, none⟩ | ⟨otherMantissa, otherExponent, otherFits, two, otherSome⟩
  · exact absurd none positive.ne'
  rcases sized.finite_cases with ⟨sign, one, none⟩ | ⟨mantissa, exponent, fits, one, some⟩
  · rw [one, two, none, zero_div]
    exact measures_pack_zero _
  · have above : 0 < size := some ▸ fits.value_pos
    rw [one, two]
    simp only [UnpackedFloat.div, divCore]
    generalize targetEq : min (exponent - otherExponent) (Format.binary64.targetExponent
      (totalExponent mantissa exponent - totalExponent otherMantissa otherExponent)) = target
    have order : target ≤ exponent - otherExponent := targetEq ▸ min_le_left _ _
    have fine : target ≤ lastPlace (size / otherSize) := by
      have bits := log_sub_le above positive
      have places := targetEq ▸ min_le_right (exponent - otherExponent)
        (Format.binary64.targetExponent
          (totalExponent mantissa exponent - totalExponent otherMantissa otherExponent))
      rw [targetExponent_eq, totalExponent, totalExponent] at places
      rw [some, otherSome, log_of_pos fits.positive, log_of_pos otherFits.positive] at bits
      rw [some, otherSome]
      unfold lastPlace
      omega
    obtain ⟨shift, shiftEq⟩ := Int.eq_ofNat_of_zero_le (sub_nonneg.mpr order)
    have located := locates_fraction (mantissa <<< shift) otherFits.positive
    rw [shiftEq, Int.toNat_natCast]
    refine measures_roundWithAccuracy (div_pos above positive) fine ?_
    convert located using 1
    have divisor : (otherMantissa : ℚ) ≠ 0 := by exact_mod_cast otherFits.positive.ne'
    rw [some, otherSome, Nat.shiftLeft_eq,
      show exponent = shift + target + otherExponent by omega, zpow_add₀ two_ne_zero,
      zpow_add₀ two_ne_zero, zpow_natCast]
    push_cast
    field_simp

theorem Sized.ofFloat {value : Float} {size : ℚ} (sized : Sized value size) :
    Count.ofFloat value = Count.saturate ⌊size⌋₊ := by
  have clamped (number : ℕ) : (UInt64.ofNatClamp number).toNat = Count.saturate number := by
    unfold UInt64.ofNatClamp Count.saturate Count.limit
    split
    · rename_i inside
      rw [UInt64.toNat_ofNatLT]
      have bound : number < 2 ^ 64 := inside
      omega
    · rename_i outside
      have bound : ¬ number < 2 ^ 64 := outside
      change 2 ^ 64 - 1 = _
      omega
  have whole : Count.ofFloat value = value.toModel.unpack.toUInt64.toNat := rfl
  rw [whole, UnpackedFloat.toUInt64, clamped]
  congr 1
  rcases sized.finite_cases with ⟨sign, same, none⟩ | ⟨mantissa, exponent, fits, same, some⟩
  · rw [same, none]
    rfl
  · rw [same]
    generalize leftEq : (exponent - 0).toNat = left
    generalize rightEq : (0 - (exponent - (left : ℤ))).toNat = right
    have split : size = ((mantissa <<< left : ℕ) : ℚ) / 2 ^ right := by
      rw [some, Nat.shiftLeft_eq, show exponent = left - (right : ℤ) by omega,
        zpow_sub₀ two_ne_zero, zpow_natCast, zpow_natCast]
      push_cast
      ring
    have floor := ((locates_exact (mantissa <<< left)).shiftRight right).floor_eq
    simp only [UnpackedFloat.toInt, roundToInt, decreaseExponent, shiftToExponent, Sign.apply,
      leftEq, rightEq]
    rw [split, floor, Int.toNat_natCast]

theorem ofFloat_infinity {value : Float} (infinite : Sized value ⊤) :
    Count.ofFloat value = Count.limit := by
  have whole : Count.ofFloat value = value.toModel.unpack.toUInt64.toNat := rfl
  rw [whole, infinite.eq_infinity]
  rfl

end VectorSearch.Double

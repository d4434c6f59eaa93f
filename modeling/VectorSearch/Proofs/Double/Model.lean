import VectorSearch.Proofs.Double.Rounding
/-!
How double precision rounds. Shifting a mantissa to the right keeps what is needed to round it; the
rounded number has the exponent of its last place, and packing it changes nothing unless it is too
large for any exponent.
-/

namespace VectorSearch.Double

open Float.Model
open Float.Model.UnpackedFloat

/-! Mantissas with their discarded bits. -/

def floorOf (extended : ExtendedMantissa) : ℚ :=
  extended.mantissa + if extended.roundBit then 1 / 2 else 0

/-- A mantissa and its two discarded bits tell where a value lies. -/
structure Locates (extended : ExtendedMantissa) (value : ℚ) : Prop where
  low : floorOf extended ≤ value
  high : value < floorOf extended + 1 / 2
  sticky : extended.stickyBit = false ↔ value = floorOf extended

theorem locates_exact (mantissa : ℕ) :
    Locates (.ofMantissaAndAccuracy mantissa .exact) mantissa := by
  refine ⟨?_, ?_, ?_⟩ <;> simp [ExtendedMantissa.ofMantissaAndAccuracy, floorOf]

theorem floorOf_bounds (extended : ExtendedMantissa) :
    (extended.mantissa : ℚ) ≤ floorOf extended ∧ floorOf extended ≤ extended.mantissa + 1 / 2 := by
  unfold floorOf
  split <;> constructor <;> linarith

theorem floorOf_shiftRightOne (extended : ExtendedMantissa) :
    floorOf extended.shiftRightOne = extended.mantissa / 2 := by
  have halves : (extended.mantissa : ℚ) =
      2 * (extended.mantissa / 2 : ℕ) + (extended.mantissa % 2 : ℕ) := by
    exact_mod_cast (Nat.div_add_mod extended.mantissa 2).symm
  rcases Nat.mod_two_eq_zero_or_one extended.mantissa with even | odd
  · rw [even, Nat.cast_zero, add_zero] at halves
    simp only [floorOf, ExtendedMantissa.shiftRightOne, even, bne_self_eq_false, Bool.false_eq_true,
      if_false]
    linarith
  · rw [odd, Nat.cast_one] at halves
    simp only [floorOf, ExtendedMantissa.shiftRightOne, odd, bne_iff_ne, ne_eq, one_ne_zero,
      not_false_eq_true, if_true]
    linarith

theorem Locates.shiftRightOne {extended : ExtendedMantissa} {value : ℚ}
    (located : Locates extended value) : Locates extended.shiftRightOne (value / 2) := by
  obtain ⟨low, high, sticky⟩ := located
  obtain ⟨least, most⟩ := floorOf_bounds extended
  refine ⟨?_, ?_, ?_⟩
  · rw [floorOf_shiftRightOne]
    linarith
  · rw [floorOf_shiftRightOne]
    linarith
  · -- Nothing is below the mantissa just when both bits are clear.
    rw [floorOf_shiftRightOne, div_left_inj' two_ne_zero, ExtendedMantissa.shiftRightOne,
      Bool.or_eq_false_iff, sticky]
    cases round : extended.roundBit with
    | false => simp [floorOf, round]
    | true =>
        have above : (extended.mantissa : ℚ) < floorOf extended := by
          simp [floorOf, round]
        exact iff_of_false (fun both => Bool.noConfusion both.1) (above.trans_le low).ne'

theorem Locates.shiftRight {extended : ExtendedMantissa} {value : ℚ}
    (located : Locates extended value) (places : ℕ) :
    Locates (extended >>> places) (value / 2 ^ places) := by
  change Locates (places.repeat ExtendedMantissa.shiftRightOne extended) _
  induction places with
  | zero => simpa [Nat.repeat] using located
  | succ places ih =>
      rw [Nat.repeat, pow_succ, ← div_div]
      exact ih.shiftRightOne

theorem Locates.floor_eq {extended : ExtendedMantissa} {value : ℚ}
    (located : Locates extended value) : ⌊value⌋₊ = extended.mantissa := by
  obtain ⟨least, most⟩ := floorOf_bounds extended
  have positive : (0 : ℚ) ≤ extended.mantissa := Nat.cast_nonneg _
  rw [Nat.floor_eq_iff (by linarith [located.low])]
  exact ⟨least.trans located.low, by linarith [located.high]⟩

theorem Locates.roundedMantissa_eq {extended : ExtendedMantissa} {value : ℚ}
    (located : Locates extended value) : extended.roundedMantissa = toEven value := by
  have floor := located.floor_eq
  obtain ⟨mantissa, roundBit, stickyBit⟩ := extended
  obtain ⟨low, high, sticky⟩ := located
  unfold toEven
  rw [floor]
  simp only [floorOf] at low high sticky
  cases roundBit with
  | false =>
      simp only [Bool.false_eq_true, if_false, add_zero] at low high sticky
      have before : value - mantissa < 1 / 2 := by linarith
      cases stickyBit <;> exact (if_pos before).symm
  | true =>
      simp only [if_true] at low high sticky
      have reached : ¬ value - mantissa < 1 / 2 := by linarith
      dsimp only
      rw [if_neg reached]
      cases stickyBit with
      | false =>
          have middle : value = mantissa + 1 / 2 := sticky.mp rfl
          rw [if_neg (by linarith)]
          rfl
      | true =>
          have past : value ≠ mantissa + 1 / 2 := mt sticky.mpr Bool.noConfusion
          rw [if_pos (lt_of_le_of_ne (by linarith) fun same => past (by linarith))]
          rfl

/-! Rounding. -/

theorem log_mul_two_pow {value : ℚ} {mantissa : ℕ} {exponent : ℤ} (positive : 0 < mantissa)
    (floor : ⌊value / 2 ^ exponent⌋₊ = mantissa) :
    Int.log 2 value = mantissa.log2 + exponent := by
  have unit := unit_pos exponent
  obtain ⟨low, high⟩ := (Nat.floor_eq_iff' positive.ne').mp floor
  rw [le_div_iff₀ unit] at low
  rw [div_lt_iff₀ unit] at high
  have least : (2 : ℚ) ^ (mantissa.log2 : ℤ) ≤ mantissa := by
    exact_mod_cast (Nat.le_log2 positive.ne').mp le_rfl
  have most : (mantissa : ℚ) + 1 ≤ 2 ^ (mantissa.log2 + 1 : ℤ) := by
    exact_mod_cast (Nat.log2_lt positive.ne').mp (Nat.lt_succ_self mantissa.log2)
  refine le_antisymm (Int.lt_add_one_iff.mp ?_) ?_
  · refine (Int.lt_zpow_iff_log_lt Nat.one_lt_two
      ((mul_pos (Nat.cast_pos.mpr positive) unit).trans_le low)).mp ?_
    rw [Nat.cast_ofNat, add_right_comm, zpow_add₀ two_ne_zero]
    exact high.trans_le (mul_le_mul_of_nonneg_right most unit.le)
  · refine (Int.zpow_le_iff_le_log Nat.one_lt_two
      ((mul_pos (Nat.cast_pos.mpr positive) unit).trans_le low)).mp ?_
    rw [Nat.cast_ofNat, zpow_add₀ two_ne_zero]
    exact (mul_le_mul_of_nonneg_right least unit.le).trans low

theorem targetExponent_eq (total : ℤ) :
    Format.binary64.targetExponent total = max (total - 53) (-1074) := by
  have least : Format.binary64.minExponent = -1074 := by decide
  have bits : ((Format.binary64.mantissaBits : ℕ) : ℤ) = 53 := by decide
  rw [Format.targetExponent, least, bits]

theorem targetExponent_of_pos {value : ℚ} {mantissa : ℕ} {exponent : ℤ} (positive : 0 < mantissa)
    (floor : ⌊value / 2 ^ exponent⌋₊ = mantissa) :
    Format.binary64.targetExponent (totalExponent mantissa exponent) = lastPlace value := by
  rw [targetExponent_eq, totalExponent, lastPlace, log_mul_two_pow positive floor]
  congr 1
  ring

theorem targetExponent_totalExponent {value : ℚ} {mantissa : ℕ} {exponent : ℤ}
    (positive : 0 < value) (fine : exponent ≤ lastPlace value)
    (floor : ⌊value / 2 ^ exponent⌋₊ = mantissa) :
    Format.binary64.targetExponent (totalExponent mantissa exponent) = lastPlace value := by
  rcases Nat.eq_zero_or_pos mantissa with rfl | some
  · have less : value < 2 ^ exponent := by
      rwa [Nat.floor_eq_zero, div_lt_one (unit_pos exponent)] at floor
    have smaller : Int.log 2 value < exponent :=
      (Int.lt_zpow_iff_log_lt Nat.one_lt_two positive).mp (by exact_mod_cast less)
    rw [targetExponent_eq, totalExponent, Nat.log2_zero]
    unfold lastPlace at fine ⊢
    omega
  · exact targetExponent_of_pos some floor

theorem Locates.shiftToTargetExponent {value : ℚ} {mantissa : ℕ} {exponent : ℤ}
    {accuracy : Accuracy} (positive : 0 < value) (fine : exponent ≤ lastPlace value)
    (located : Locates (.ofMantissaAndAccuracy mantissa accuracy) (value / 2 ^ exponent)) :
    ∃ extended,
      UnpackedFloat.shiftToTargetExponent .binary64 mantissa exponent accuracy =
        (extended, lastPlace value) ∧
      Locates extended (value / 2 ^ lastPlace value) := by
  have whole : (ExtendedMantissa.ofMantissaAndAccuracy mantissa accuracy).mantissa = mantissa := by
    cases accuracy with
    | exact => rfl
    | inexact order => cases order <;> rfl
  have target := targetExponent_totalExponent positive fine (located.floor_eq.trans whole)
  obtain ⟨places, shift⟩ := Int.eq_ofNat_of_zero_le (sub_nonneg.mpr fine)
  have raised : exponent + places = lastPlace value := by omega
  refine ⟨ExtendedMantissa.ofMantissaAndAccuracy mantissa accuracy >>> places, ?_, ?_⟩
  · rw [UnpackedFloat.shiftToTargetExponent, target, shiftToExponent, shift, Int.toNat_natCast,
      raised]
  · rw [← raised, zpow_add₀ two_ne_zero, ← div_div, zpow_natCast]
    exact located.shiftRight places

/-- Rounding a mantissa and what is known of the bits below it gives the nearest number. -/
theorem roundWithAccuracy_spec (sign : Sign) {value : ℚ} {mantissa : ℕ} {exponent : ℤ}
    {accuracy : Accuracy} (positive : 0 < value) (fine : exponent ≤ lastPlace value)
    (located : Locates (.ofMantissaAndAccuracy mantissa accuracy) (value / 2 ^ exponent)) :
    (roundWithAccuracy .binary64 sign mantissa exponent accuracy = .zero sign ∧
      nearest value = 0) ∨
    ∃ cut raised, ∃ fits : Fits cut raised,
      roundWithAccuracy .binary64 sign mantissa exponent accuracy =
        .finite sign cut raised fits.positive ∧ nearest value = cut * 2 ^ raised := by
  obtain ⟨first, firstShift, firstLocated⟩ := located.shiftToTargetExponent positive fine
  have rounded : first.roundedMantissa = units value := firstLocated.roundedMantissa_eq
  by_cases none : units value = 0
  · refine Or.inl ⟨?_, by simp [nearest, none]⟩
    have clear : ((ExtendedMantissa.ofMantissaAndAccuracy 0 .exact) >>>
        (Format.binary64.targetExponent (totalExponent 0 (lastPlace value)) -
          lastPlace value).toNat).mantissa = 0 := by
      rw [← ((locates_exact 0).shiftRight _).floor_eq]
      simp
    simp only [roundWithAccuracy, firstShift, rounded, none]
    exact dif_pos clear
  · obtain ⟨cut, raised, fits, same, above⟩ := exists_fits positive none
    have scaled : nearest value / 2 ^ lastPlace value = units value :=
      mul_div_cancel_right₀ _ (unit_pos _).ne'
    have exponents : lastPlace (nearest value) = raised := by
      rw [same]
      exact fits.lastPlace_eq
    have wholeLocated : Locates (.ofMantissaAndAccuracy (units value) .exact)
        (nearest value / 2 ^ lastPlace value) := by
      rw [scaled]
      exact locates_exact (units value)
    obtain ⟨second, secondShift, secondLocated⟩ := wholeLocated.shiftToTargetExponent
      (by rw [same]; exact fits.value_pos) (by rw [exponents]; exact above)
    have left : second.mantissa = cut := by
      rw [← secondLocated.floor_eq, exponents, same, mul_div_cancel_right₀ _ (unit_pos _).ne',
        Nat.floor_natCast]
    refine Or.inr ⟨cut, raised, fits, ?_, same⟩
    simp only [roundWithAccuracy, firstShift, rounded, secondShift, left, exponents]
    exact dif_neg fits.positive.ne'

/-! Packing. -/

@[simp] theorem ofBitVec_toBitVec (sign : Sign) : Sign.ofBitVec sign.toBitVec = sign := by
  cases sign <;> rfl

theorem exponentBias_eq : ((Format.binary64.exponentBias : ℕ) : ℤ) = 1023 := by decide

theorem mantissaBits_eq : ((Format.binary64.mantissaBitsWithoutImplicit : ℕ) : ℤ) = 52 := by decide

theorem ofNat_ne_of_lt {stored : ℕ} {other : BitVec 11} (small : stored < 2 ^ 11)
    (different : stored ≠ other.toNat) : BitVec.ofNat 11 stored ≠ other := fun same => by
  have numbers := congrArg BitVec.toNat same
  rw [BitVec.toNat_ofNat, Nat.mod_eq_of_lt small] at numbers
  exact different numbers

theorem unpack_pack_normal (sign : Sign) {mantissa : ℕ} {exponent : ℤ}
    (fits : Fits mantissa exponent) (full : 2 ^ 52 ≤ mantissa) (high : exponent ≤ 971) :
    (Float.Model.pack (.finite sign mantissa exponent fits.positive)).unpack =
      .finite sign mantissa exponent fits.positive := by
  have low := fits.low
  have short := fits.short
  have length : mantissa.log2 = 52 := by
    have least := (Nat.le_log2 fits.positive.ne').mpr full
    have most := (Nat.log2_lt fits.positive.ne').mpr short
    omega
  have stored : (exponent + Format.binary64.exponentBias +
      Format.binary64.mantissaBitsWithoutImplicit).toNat = (exponent + 1075).toNat := by
    rw [exponentBias_eq, mantissaBits_eq, add_assoc]
    rfl
  have normal : (BitVec.ofNat 11 (exponent + 1075).toNat).toNat = (exponent + 1075).toNat := by
    rw [BitVec.toNat_ofNat]
    omega
  have notAll : BitVec.ofNat 11 (exponent + 1075).toNat ≠ -1#11 :=
    ofNat_ne_of_lt (by omega) (by simp; omega)
  have notNone : BitVec.ofNat 11 (exponent + 1075).toNat ≠ 0#11 :=
    ofNat_ne_of_lt (by omega) (by simp; omega)
  have hidden : (1#1 ++ BitVec.ofNat 52 mantissa).toNat = mantissa := by
    rw [BitVec.toNat_append, ← Nat.shiftLeft_add_eq_or_of_lt (BitVec.ofNat 52 mantissa).isLt,
      BitVec.toNat_ofNat, Nat.shiftLeft_eq]
    simp
    omega
  change UnpackedFloat.unpack .binary64 (UnpackedFloat.pack .binary64 _) = _
  rw [UnpackedFloat.pack]
  simp only [length, stored]
  rw [if_neg (by omega), if_pos (by decide), UnpackedFloat.unpack]
  simp only [unpackMantissa_packComponents, unpackExponent_packComponents,
    unpackSign_packComponents, ofBitVec_toBitVec]
  rw [if_neg notAll, if_neg notNone]
  simp only [hidden, normal, exponentBias_eq]
  congr 1
  omega

theorem unpack_pack_subnormal (sign : Sign) {mantissa : ℕ} (positive : 0 < mantissa)
    (short : mantissa < 2 ^ 52) :
    (Float.Model.pack (.finite sign mantissa (-1074) positive)).unpack =
      .finite sign mantissa (-1074) positive := by
  have length : mantissa.log2 < 52 := (Nat.log2_lt positive.ne').mpr short
  have stored : (-1074 + Format.binary64.exponentBias +
      Format.binary64.mantissaBitsWithoutImplicit : ℤ).toNat = 1 := by decide
  have bits : Format.binary64.mantissaBits = 53 := by decide
  have kept : (BitVec.ofNat 52 mantissa).toNat = mantissa := by
    rw [BitVec.toNat_ofNat, Nat.mod_eq_of_lt short]
  have some : BitVec.ofNat 52 mantissa ≠ 0#52 := fun same => by
    rw [same] at kept
    exact positive.ne kept
  change UnpackedFloat.unpack .binary64 (UnpackedFloat.pack .binary64 _) = _
  rw [UnpackedFloat.pack]
  simp only [stored]
  rw [if_neg (by decide), if_neg (by omega), UnpackedFloat.unpack]
  simp only [unpackMantissa_packComponents, unpackExponent_packComponents,
    unpackSign_packComponents, ofBitVec_toBitVec]
  rw [if_neg (by decide), if_pos trivial, dif_neg some]
  simp only [kept]
  rfl

theorem unpack_pack_infinity (sign : Sign) :
    (Float.Model.pack (.infinity sign)).unpack = .infinity sign := by
  cases sign <;> rfl

theorem unpack_pack_zero (sign : Sign) :
    (Float.Model.pack (.zero sign)).unpack = .zero sign := by
  cases sign <;> rfl

theorem unpack_pack (sign : Sign) {mantissa : ℕ} {exponent : ℤ} (fits : Fits mantissa exponent) :
    (Float.Model.pack (.finite sign mantissa exponent fits.positive)).unpack =
      if exponent ≤ 971 then .finite sign mantissa exponent fits.positive
      else .infinity sign := by
  by_cases high : exponent ≤ 971
  · rw [if_pos high]
    by_cases full : 2 ^ 52 ≤ mantissa
    · exact unpack_pack_normal sign fits full high
    · obtain rfl := fits.full.resolve_left full
      exact unpack_pack_subnormal sign fits.positive (not_le.mp full)
  · have large : 2 ^ Format.binary64.exponentBits ≤ (exponent + Format.binary64.exponentBias +
        Format.binary64.mantissaBitsWithoutImplicit).toNat + 1 := by
      rw [exponentBias_eq, mantissaBits_eq]
      change 2 ^ 11 ≤ _
      omega
    have packed : UnpackedFloat.pack .binary64 (.finite sign mantissa exponent fits.positive) =
        UnpackedFloat.pack .binary64 (.infinity sign) := by
      simp only [UnpackedFloat.pack, if_pos large]
    rw [if_neg high, ← unpack_pack_infinity, Float.Model.unpack, Float.Model.unpack]
    simp only [Float.Model.pack, packed]

end VectorSearch.Double

import VectorSearch.Proofs.Decimal.Shortest
/-!
Words of double-precision numbers. The reading of a word tells which word it is, apart from the
words of undefined numbers, of which there is but one number; and every decimal with the value of
the shortest one is read as the number again.
-/

namespace VectorSearch.Decimal

open Float.Model.UnpackedFloat

variable {bits mantissa : Nat} {exponent : Int} {negative : Bool}

def signOf (negative : Bool) : Nat := if negative then signBit else 0

theorem bits_split (fits : bits < 2 ^ 64) :
    bits = signOf (bits.testBit 63) + bits / hiddenBit % 2048 * hiddenBit + bits % hiddenBit := by
  have sign : signOf (bits.testBit 63) = bits / 2 ^ 63 * 2 ^ 63 := by
    rw [Nat.testBit_eq_decide_div_mod_eq, signOf]
    have two : bits / 2 ^ 63 = 0 ∨ bits / 2 ^ 63 = 1 := by omega
    rcases two with zero | one
    · rw [zero]
      rfl
    · rw [one]
      rfl
  rw [sign, hiddenBit]
  omega

theorem bits_of_finite (fits : bits < 2 ^ 64)
    (reading : Reading.ofBits bits = .finite negative mantissa exponent) :
    bits = signOf negative + wordOf mantissa exponent ∧
      (mantissa = 0 → wordOf mantissa exponent = 0) ∧
      (0 < mantissa → Canonical mantissa exponent) := by
  have split := bits_split fits
  have fraction := Nat.mod_lt bits (show 0 < hiddenBit by decide)
  have steps := Nat.mod_lt (bits / hiddenBit) (show 0 < 2048 by decide)
  unfold Reading.ofBits at reading
  dsimp only at reading
  split at reading
  · split at reading <;> exact Reading.noConfusion reading
  · rename_i notAll
    split at reading
    · rename_i none
      obtain ⟨rfl, rfl, rfl⟩ := Reading.finite.inj reading
      rw [none, Nat.zero_mul, Nat.add_zero] at split
      have word : wordOf (bits % hiddenBit) (-1074) = bits % hiddenBit := by
        rw [wordOf, neg_add_cancel, Int.toNat_zero, Nat.zero_mul, Nat.zero_add]
      exact ⟨by rw [word]; exact split, fun zero => word.trans zero,
        fun positive => ⟨positive, by omega, Or.inr rfl, le_refl _, by decide⟩⟩
    · rename_i some
      obtain ⟨rfl, rfl, rfl⟩ := Reading.finite.inj reading
      refine ⟨?_, fun impossible => ?_,
        fun positive => ⟨positive, by omega, Or.inl (by omega), by omega, by omega⟩⟩
      · have count : ((bits / hiddenBit % 2048 : Nat) - 1075 + 1074 : ℤ).toNat + 1 =
            bits / hiddenBit % 2048 := by omega
        have product := Nat.succ_mul
          ((bits / hiddenBit % 2048 : Nat) - 1075 + 1074 : ℤ).toNat hiddenBit
        rw [Nat.succ_eq_add_one, count] at product
        rw [wordOf]
        omega
      · have hidden : 0 < hiddenBit := by decide
        omega

/-! Numbers. -/

variable {value : Float}

theorem ofBits_eq (same : value.toBits.toNat = bits) :
    Float.ofBits (UInt64.ofNat bits) = value := by
  rw [← same, UInt64.ofNat_toNat, Float.ofBits_toBits]

theorem nearest_of_shortest (reading : Reading.ofFloat value = .finite negative mantissa exponent)
    (positive : 0 < mantissa) {digits : Digits}
    (same : digits.value = (shortest mantissa exponent).value) :
    nearest negative digits.coefficient digits.exponent = value := by
  obtain ⟨word, _, canonical⟩ := bits_of_finite value.toBits.toNat_lt reading
  have near := near_shortest (canonical positive)
  rw [← same] at near
  rw [nearest, nearestBits_eq (canonical positive) near]
  exact ofBits_eq word

theorem coefficient_shortest_pos
    (reading : Reading.ofFloat value = .finite negative mantissa exponent)
    (positive : 0 < mantissa) : 0 < (shortest mantissa exponent).coefficient := by
  have canonical := (bits_of_finite value.toBits.toNat_lt reading).2.2 positive
  exact (near_shortest canonical).coefficient_pos canonical

theorem nearest_zero (reading : Reading.ofFloat value = .finite negative 0 exponent)
    (place : Int) : nearest negative 0 place = value := by
  obtain ⟨word, zero, _⟩ := bits_of_finite value.toBits.toNat_lt reading
  rw [zero rfl] at word
  rw [nearest, nearestBits, if_pos rfl]
  exact ofBits_eq word

theorem reading_of_full (full : bits / hiddenBit % 2048 = 2047) : Reading.ofBits bits =
    if bits % hiddenBit = 0 then .infinite (bits.testBit 63) else .undefined := if_pos full

theorem full_of_not_finite (notFinite : ∀ negative mantissa exponent,
    Reading.ofBits bits ≠ .finite negative mantissa exponent) :
    bits / hiddenBit % 2048 = 2047 := by
  by_contra notFull
  unfold Reading.ofBits at notFinite
  simp only [if_neg notFull] at notFinite
  split at notFinite
  · exact notFinite _ _ _ rfl
  · exact notFinite _ _ _ rfl

theorem eq_of_undefined (reading : Reading.ofFloat value = .undefined) : value = 0 / 0 := by
  have full : value.toBits.toNat / hiddenBit % 2048 = 2047 := full_of_not_finite
    fun _ _ _ finite => Reading.noConfusion (reading.symm.trans finite)
  have fraction : value.toBits.toNat % hiddenBit ≠ 0 := by
    intro zero
    rw [Reading.ofFloat, reading_of_full full, if_pos zero] at reading
    exact Reading.noConfusion reading
  let word : BitVec Float.Model.Format.binary64.numBits := value.toModel.toBits.toBitVec
  have exponentBits : (unpackExponent word).toNat = 2047 := by
    rw [unpackExponent_def, BitVec.extractLsb'_toNat, Nat.shiftRight_eq_div_pow]
    exact full
  have fractionBits : (unpackMantissa word).toNat ≠ 0 := by
    rw [unpackMantissa_def, BitVec.extractLsb'_toNat, Nat.shiftRight_eq_div_pow, Nat.pow_zero,
      Nat.div_one]
    exact fraction
  have packed : word = packedNaN .binary64 := value.toModel.valid.eq_packedNaN
    (BitVec.eq_of_toNat_eq exponentBits) fun zero => fractionBits (by rw [zero]; rfl)
  rw [← Float.toBits_inj, ← UInt64.toBitVec_inj]
  exact packed

theorem eq_of_infinite (reading : Reading.ofFloat value = .infinite negative) :
    value = if negative then -1 / 0 else 1 / 0 := by
  have full : value.toBits.toNat / hiddenBit % 2048 = 2047 := full_of_not_finite
    fun _ _ _ finite => Reading.noConfusion (reading.symm.trans finite)
  have split := bits_split value.toBits.toNat_lt
  rw [Reading.ofFloat, reading_of_full full] at reading
  split at reading
  · rename_i zero
    obtain rfl := Reading.infinite.inj reading
    rw [full, zero] at split
    have same := ofBits_eq split
    cases negative : value.toBits.toNat.testBit 63 with
    | false =>
        rw [negative] at same
        exact same.symm
    | true =>
        rw [negative] at same
        exact same.symm
  · exact Reading.noConfusion reading

end VectorSearch.Decimal

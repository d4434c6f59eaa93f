import VectorSearch.Proofs.Decimal.Word
import VectorSearch.Proofs.Toml.Digits
/-!
Written numbers are read back. Whole numbers that fit into a word and real numbers, undefined and
infinite ones included, are read as what they are, and no real number as a whole one.
-/

namespace VectorSearch.Toml

open Decimal (Digits Reading digitsOf)

theorem splitSign_eq {chars : List Char} (plain : ∀ char ∈ chars.head?, char ≠ '+' ∧ char ≠ '-') :
    splitSign chars = (false, chars) := by
  unfold splitSign
  split
  · exact absurd rfl (plain '+' rfl).1
  · exact absurd rfl (plain '-' rfl).2
  · rfl

theorem AllDigits.splitSign_eq {digits : List Char} (all : AllDigits digits) (rest : List Char)
    (occupied : digits ≠ []) : splitSign (digits ++ rest) = (false, digits ++ rest) := by
  refine Toml.splitSign_eq fun char first => ?_
  obtain ⟨head, tail, rfl⟩ := List.exists_cons_of_ne_nil occupied
  obtain rfl := Option.some.inj first
  have digit := all head List.mem_cons_self
  constructor <;> rintro rfl <;> exact absurd digit (by decide)

/-! Whole numbers. -/

theorem unboundedWhole?_digitsOf (value : Nat) :
    unboundedWhole? (digitsOf value) = some (value : ℤ) := by
  have whole := wholePart_digitsOf value
  have second {char : Char} {rest : List Char} (notDigit : char.isDigit = false) :
      digitsOf value ≠ '0' :: char :: rest := fun same => by
    have digit := whole.all char (by simp [same])
    rw [notDigit] at digit
    exact Bool.noConfusion digit
  have sign := whole.all.splitSign_eq [] whole.occupied
  rw [List.append_nil] at sign
  unfold unboundedWhole?
  split
  · rename_i same
    exact absurd same (second (by decide))
  · rename_i same
    exact absurd same (second (by decide))
  · rename_i same
    exact absurd same (second (by decide))
  · simp only [sign, wholeDigits?_eq whole, Option.bind_eq_bind, Option.bind_some,
      digitsValue_digitsOf, Bool.false_eq_true, if_false, Option.pure_def]

theorem writeWhole_natCast (value : Nat) : writeWhole value = digitsOf value := by
  rw [writeWhole, if_neg (by omega), Int.natAbs_natCast]

theorem whole?_writeWhole {value : Nat} (fits : fitsWord value = true) :
    whole? (writeWhole value) = some (value : ℤ) := by
  rw [whole?, writeWhole_natCast, unboundedWhole?_digitsOf, Option.filter_some, if_pos fits]

/-! Real numbers. -/

structure Pointed (start fraction : List Char) (digits : Digits) : Prop where
  whole : WholePart start
  occupied : fraction ≠ []
  all : AllDigits fraction
  value : (Digits.mk (digitsValue 10 (start ++ fraction)) (-fraction.length)).value = digits.value

theorem splitExponent_eq {chars : List Char} (plain : ∀ char ∈ chars, char ≠ 'e' ∧ char ≠ 'E') :
    splitExponent chars = (chars, none) := by
  have all : chars.dropWhile (fun char => !(decide (char = 'e') || decide (char = 'E'))) = [] := by
    refine List.dropWhile_eq_nil_iff.mpr fun char member => ?_
    simp [plain char member]
  unfold splitExponent
  dsimp only
  rw [all]

theorem splitPoint_eq {start : List Char} (plain : '.' ∉ start) (fraction : List Char) :
    splitPoint (start ++ '.' :: fraction) = (start, some fraction) := by
  have other (char : Char) (member : char ∈ start) : decide (char ≠ '.') = true :=
    decide_eq_true fun same => plain (same ▸ member)
  unfold splitPoint
  rw [List.dropWhile_append_of_pos other, List.dropWhile_cons_of_neg (by simp)]
  dsimp only
  rw [List.takeWhile_append_of_pos other, List.takeWhile_cons_of_neg (by simp), List.append_nil]

theorem AllDigits.not_mem {digits : List Char} (all : AllDigits digits) {char : Char}
    (notDigit : char.isDigit = false) : char ∉ digits := fun member =>
  Bool.noConfusion ((all char member).symm.trans notDigit)

theorem Pointed.unsignedReal?_eq {start fraction : List Char} {digits : Digits}
    (pointed : Pointed start fraction digits) (negative : Bool) :
    unsignedReal? negative (start ++ '.' :: fraction) =
      some (Decimal.nearest negative (digitsValue 10 (start ++ fraction)) (-fraction.length)) := by
  have noLetter := @splitExponent_eq (start ++ '.' :: fraction) fun char member => by
    rcases List.mem_append.mp member with inStart | behind
    · constructor <;> rintro rfl
      · exact pointed.whole.all.not_mem (by decide) inStart
      · exact pointed.whole.all.not_mem (by decide) inStart
    · rcases List.mem_cons.mp behind with rfl | inFraction
      · decide
      · constructor <;> rintro rfl
        · exact pointed.all.not_mem (by decide) inFraction
        · exact pointed.all.not_mem (by decide) inFraction
  have point := splitPoint_eq (pointed.whole.all.not_mem (by decide)) fraction
  simp only [unsignedReal?, noLetter, point, wholeDigits?_eq pointed.whole, optionalPart,
    ungroup?_of_allDigits pointed.occupied pointed.all, Option.bind_eq_bind, Option.bind_some,
    Option.isNone_none, Option.isNone_some, Bool.and_false, Bool.false_eq_true, if_false,
    Option.pure_def, zero_sub]

def withPoint (chars : List Char) : List Char :=
  if chars.any fun char => char = '.' || char = 'i' then chars else chars ++ ['.', '0']

theorem withPoint_of_mem {chars : List Char} (point : '.' ∈ chars) : withPoint chars = chars :=
  if_pos (List.any_eq_true.mpr ⟨'.', point, by decide⟩)

theorem withPoint_of_allDigits {chars : List Char} (all : AllDigits chars) :
    withPoint chars = chars ++ ['.', '0'] := by
  refine if_neg fun found => ?_
  obtain ⟨char, member, mark⟩ := List.any_eq_true.mp found
  rcases Bool.or_eq_true_iff.mp mark with point | letter
  · exact all.not_mem (by decide) (of_decide_eq_true point ▸ member)
  · exact all.not_mem (by decide) (of_decide_eq_true letter ▸ member)

theorem head?_append_digitsOf {value : Nat} (positive : 0 < value) (rest : List Char) :
    (digitsOf value ++ rest).head? ≠ some '0' := by
  rw [List.head?_append_of_ne_nil _ (wholePart_digitsOf value).occupied]
  exact head?_digitsOf positive

theorem WholePart.of_head? {digits : List Char} (all : AllDigits digits) (occupied : digits ≠ [])
    (lead : digits.head? ≠ some '0') : WholePart digits :=
  ⟨all, occupied, fun zero => absurd zero lead⟩

theorem pointed_of_whole {digits : Digits} (positive : 0 < digits.coefficient)
    (whole : 0 ≤ digits.exponent) :
    Pointed (digitsOf digits.coefficient ++ List.replicate digits.exponent.toNat '0') ['0']
      digits where
  whole := .of_head? (allDigits_append.mpr ⟨allDigits_digitsOf _, allDigits_zeros _⟩)
    (by simp [(wholePart_digitsOf digits.coefficient).occupied])
    (head?_append_digitsOf positive _)
  occupied := List.cons_ne_nil _ _
  all := allDigits_zeros 1
  value := by
    have zeros : digitsOf digits.coefficient ++ List.replicate digits.exponent.toNat '0' ++ ['0'] =
        digitsOf digits.coefficient ++ List.replicate (digits.exponent.toNat + 1) '0' := by
      rw [List.append_assoc, List.replicate_succ']
    rw [zeros, digitsValue_append_zeros (allDigits_digitsOf _), digitsValue_digitsOf, Digits.value,
      Digits.value]
    have power : ((10 : ℚ) ^ digits.exponent.toNat) = 10 ^ digits.exponent := by
      rw [← zpow_natCast, Int.toNat_of_nonneg whole]
    push_cast
    rw [pow_succ, power, List.length_singleton, Nat.cast_one, zpow_neg_one]
    ring

theorem pointed_of_small {digits : Digits}
    (small : (digitsOf digits.coefficient).length ≤ (-digits.exponent).toNat) :
    Pointed ['0'] (List.replicate ((-digits.exponent).toNat - (digitsOf digits.coefficient).length)
      '0' ++ digitsOf digits.coefficient) digits where
  whole := ⟨allDigits_zeros 1, List.cons_ne_nil _ _, fun _ => rfl⟩
  occupied := by simp [(wholePart_digitsOf digits.coefficient).occupied]
  all := allDigits_append.mpr ⟨allDigits_zeros _, allDigits_digitsOf _⟩
  value := by
    have written := List.length_pos_of_ne_nil (wholePart_digitsOf digits.coefficient).occupied
    have zeros := digitsValue_zeros_append (allDigits_digitsOf digits.coefficient)
      ((-digits.exponent).toNat - (digitsOf digits.coefficient).length + 1)
    rw [List.replicate_succ, List.cons_append, digitsValue_digitsOf] at zeros
    rw [List.singleton_append, zeros, List.length_append, List.length_replicate,
      Nat.sub_add_cancel small, Digits.value, Digits.value]
    congr 2
    dsimp only
    omega

theorem pointed_of_split {digits : Digits} (positive : 0 < digits.coefficient)
    (behind : 0 < (-digits.exponent).toNat)
    (inside : (-digits.exponent).toNat < (digitsOf digits.coefficient).length) :
    let front := (digitsOf digits.coefficient).length - (-digits.exponent).toNat
    Pointed ((digitsOf digits.coefficient).take front) ((digitsOf digits.coefficient).drop front)
      digits := by
  intro front
  have all := allDigits_digitsOf digits.coefficient
  have occupied : (digitsOf digits.coefficient).take front ≠ [] := by
    rw [Ne, List.take_eq_nil_iff]
    rintro (none | none)
    · omega
    · exact (wholePart_digitsOf digits.coefficient).occupied none
  refine ⟨.of_head? (fun char member => all char (List.mem_of_mem_take member)) occupied ?_, ?_,
    fun char member => all char (List.mem_of_mem_drop member), ?_⟩
  · rw [← List.head?_append_of_ne_nil _ occupied, List.take_append_drop]
    exact head?_digitsOf positive
  · rw [Ne, List.drop_eq_nil_iff]
    omega
  · rw [List.take_append_drop, digitsValue_digitsOf, List.length_drop, Digits.value, Digits.value]
    congr 2
    dsimp only
    omega

theorem exists_pointed {digits : Digits} (positive : 0 < digits.coefficient) :
    ∃ start fraction, Pointed start fraction digits ∧
      withPoint digits.positional = start ++ '.' :: fraction := by
  unfold Digits.positional
  dsimp only
  split
  · rename_i none
    refine ⟨_, _, pointed_of_whole positive (by omega), ?_⟩
    exact withPoint_of_allDigits (allDigits_append.mpr ⟨allDigits_digitsOf _, allDigits_zeros _⟩)
  · split
    · rename_i behind inside
      exact ⟨_, _, pointed_of_split positive (by omega) inside, withPoint_of_mem (by simp)⟩
    · rename_i behind outside
      exact ⟨_, _, pointed_of_small (by omega), withPoint_of_mem (by simp)⟩

/-! Texts of real numbers. -/

def withSign (negative : Bool) (chars : List Char) : List Char :=
  if negative then '-' :: chars else chars

/-- How a real number is written: by name, or with digits on both sides of a point. -/
inductive RealText (value : Float) : List Char → Prop where
  | undefined (same : value = 0 / 0) : RealText value ['n', 'a', 'n']
  | infinite (negative : Bool) (same : value = if negative then -1 / 0 else 1 / 0) :
      RealText value (withSign negative ['i', 'n', 'f'])
  | pointed (negative : Bool) (start fraction : List Char) (digits : Digits)
      (pointed : Pointed start fraction digits)
      (nearest : Decimal.nearest negative (digitsValue 10 (start ++ fraction)) (-fraction.length) =
        value)
      (bounded : value ≠ 1 / 0) : RealText value (withSign negative (start ++ '.' :: fraction))

theorem writeReal_eq {value : Float} (defined : (Decimal.plain value).toList ≠ ['N', 'a', 'N']) :
    writeReal value = withPoint (Decimal.plain value).toList := if_neg defined

theorem withPoint_withSign (negative : Bool) (chars : List Char) :
    withPoint (withSign negative chars) = withSign negative (withPoint chars) := by
  cases negative with
  | false => rfl
  | true =>
      unfold withPoint withSign
      simp only [if_true, List.any_cons]
      split <;> rename_i mark <;> simp_all

theorem toList_signed (negative : Bool) (chars : List Char) :
    (Decimal.signed negative chars).toList = withSign negative chars := by
  rw [Decimal.signed, String.toList_ofList, withSign]

theorem realText_of_digits {value : Float} {negative : Bool} {chars : List Char}
    (plain : Decimal.plain value = Decimal.signed negative chars) {start fraction : List Char}
    {digits : Digits} (pointed : Pointed start fraction digits)
    (text : withPoint chars = start ++ '.' :: fraction)
    (nearest : Decimal.nearest negative (digitsValue 10 (start ++ fraction)) (-fraction.length) =
      value)
    (bounded : value ≠ 1 / 0) : RealText value (writeReal value) := by
  have defined : (Decimal.plain value).toList ≠ ['N', 'a', 'N'] := by
    rw [plain, toList_signed]
    intro same
    cases negative with
    | true => exact absurd (List.cons.inj same).1 (by decide)
    | false =>
        obtain rfl : chars = ['N', 'a', 'N'] := same
        obtain ⟨first, rest, rfl⟩ := List.exists_cons_of_ne_nil pointed.whole.occupied
        obtain rfl : 'N' = first := (List.cons.inj text).1
        exact absurd (pointed.whole.all 'N' List.mem_cons_self) (by decide)
  rw [writeReal_eq defined, plain, toList_signed, withPoint_withSign, text]
  exact .pointed negative start fraction digits pointed nearest bounded

section Finite

variable {value : Float} {negative : Bool} {exponent : Int}

theorem ne_infinity_of_finite {mantissa : Nat}
    (reading : Reading.ofFloat value = .finite negative mantissa exponent) : value ≠ 1 / 0 := by
  rintro rfl
  have infinite : Reading.ofFloat (1 / 0) = .infinite false := by rfl
  exact Reading.noConfusion (infinite.symm.trans reading)

theorem realText_of_zero (reading : Reading.ofFloat value = .finite negative 0 exponent) :
    RealText value (writeReal value) := by
  have plain : Decimal.plain value = Decimal.signed negative ['0'] := by
    rw [Decimal.plain, reading]
    rfl
  have pointed : Pointed ['0'] ['0'] ⟨0, 0⟩ := {
    whole := ⟨allDigits_zeros 1, List.cons_ne_nil _ _, fun _ => rfl⟩
    occupied := List.cons_ne_nil _ _
    all := allDigits_zeros 1
    value := by
      have zeros : digitsValue 10 (['0'] ++ ['0']) = 0 := by decide
      rw [zeros, Digits.value, Digits.value, Nat.cast_zero, zero_mul, zero_mul] }
  exact realText_of_digits plain pointed rfl (Decimal.nearest_zero reading _)
    (ne_infinity_of_finite reading)

theorem realText_of_nonzero {mantissa : Nat}
    (reading : Reading.ofFloat value = .finite negative (mantissa + 1) exponent) :
    RealText value (writeReal value) := by
  have plain : Decimal.plain value = Decimal.signed negative
      (Decimal.shortest (mantissa + 1) exponent).positional := by
    rw [Decimal.plain, reading]
    rfl
  obtain ⟨start, fraction, pointed, text⟩ :=
    exists_pointed (Decimal.coefficient_shortest_pos reading (Nat.succ_pos mantissa))
  have nearest := Decimal.nearest_of_shortest reading (Nat.succ_pos mantissa) pointed.value
  exact realText_of_digits plain pointed text nearest (ne_infinity_of_finite reading)

end Finite

theorem realText_writeReal (value : Float) : RealText value (writeReal value) := by
  cases reading : Reading.ofFloat value with
  | undefined =>
      have text : writeReal value = ['n', 'a', 'n'] := by
        rw [writeReal, Decimal.plain, reading]
        rfl
      rw [text]
      exact .undefined (Decimal.eq_of_undefined reading)
  | infinite negative =>
      have text : writeReal value = withSign negative ['i', 'n', 'f'] := by
        rw [writeReal, Decimal.plain, reading]
        cases negative <;> rfl
      rw [text]
      exact .infinite negative (Decimal.eq_of_infinite reading)
  | finite negative mantissa exponent =>
      cases mantissa with
      | zero => exact realText_of_zero reading
      | succ mantissa => exact realText_of_nonzero reading

/-! Reading the texts again. -/

theorem beq_infinity_eq_false {value : Float} (bounded : value ≠ 1 / 0) :
    (value == 1 / 0) = false := by
  rw [← Bool.not_eq_true, Float.beq_iff_ne_nan_and_eq]
  rintro ⟨_, _, same | ⟨_, impossible⟩ | ⟨_, impossible⟩⟩
  · exact bounded same
  · exact absurd impossible (by decide)
  · exact absurd impossible (by decide)

theorem Pointed.splitSign_withSign {start fraction : List Char} {digits : Digits}
    (pointed : Pointed start fraction digits) (negative : Bool) :
    splitSign (withSign negative (start ++ '.' :: fraction)) =
      (negative, start ++ '.' :: fraction) := by
  cases negative with
  | true => rfl
  | false => exact pointed.whole.all.splitSign_eq ('.' :: fraction) pointed.whole.occupied

theorem Pointed.mem_body {start fraction : List Char} {digits : Digits}
    (pointed : Pointed start fraction digits) {char : Char}
    (member : char ∈ start ++ '.' :: fraction) : char.isDigit = true ∨ char = '.' := by
  rcases List.mem_append.mp member with inStart | behind
  · exact Or.inl (pointed.whole.all char inStart)
  · exact (List.mem_cons.mp behind).symm.imp_left (pointed.all char)

theorem Pointed.mem_withSign {start fraction : List Char} {digits : Digits}
    (pointed : Pointed start fraction digits) {negative : Bool} {char : Char}
    (member : char ∈ withSign negative (start ++ '.' :: fraction)) :
    char.isDigit = true ∨ char = '.' ∨ char = '-' := by
  cases negative with
  | false => exact (pointed.mem_body member).imp_right Or.inl
  | true =>
      rcases List.mem_cons.mp member with sign | inBody
      · exact Or.inr (Or.inr sign)
      · exact (pointed.mem_body inBody).imp_right Or.inl

theorem RealText.real?_eq {value : Float} {chars : List Char} (text : RealText value chars) :
    real? chars = some value := by
  cases text with
  | undefined same =>
      rw [same]
      rfl
  | infinite negative same =>
      rw [same]
      cases negative <;> rfl
  | pointed negative start fraction digits pointed nearest bounded =>
      have sign := pointed.splitSign_withSign negative
      have read := pointed.unsignedReal?_eq negative
      rw [nearest] at read
      have named {char : Char} {rest : List Char} (notDigit : char.isDigit = false) :
          start ++ '.' :: fraction ≠ char :: rest := fun same => by
        obtain ⟨first, others, rfl⟩ := List.exists_cons_of_ne_nil pointed.whole.occupied
        obtain rfl := (List.cons.inj same).1
        exact pointed.whole.all.not_mem notDigit List.mem_cons_self
      simp only [real?, sign]
      split
      · rename_i same
        exact absurd same (named (by decide))
      · rename_i same
        exact absurd same (named (by decide))
      · rw [read]
        simp only [Option.bind_eq_bind, Option.bind_some, beq_infinity_eq_false bounded,
          Bool.false_eq_true, if_false, Option.pure_def]

theorem unboundedWhole?_eq_none {chars : List Char} (odd : Char)
    (member : odd ∈ (splitSign chars).2) (notDigit : isDigitIn 10 odd = false)
    (notGroup : odd ≠ '_') (noMark : ∀ char ∈ chars, char ≠ 'x' ∧ char ≠ 'o' ∧ char ≠ 'b') :
    unboundedWhole? chars = none := by
  unfold unboundedWhole?
  split
  · exact absurd rfl (noMark 'x' (by simp)).1
  · exact absurd rfl (noMark 'o' (by simp)).2.1
  · exact absurd rfl (noMark 'b' (by simp)).2.2
  · simp only [wholeDigits?, ungroup?_eq_none member notDigit notGroup, Option.bind_eq_bind,
      Option.bind_none]

theorem RealText.whole?_eq_none {value : Float} {chars : List Char} (text : RealText value chars) :
    whole? chars = none := by
  cases text with
  | undefined same => rfl
  | infinite negative same => cases negative <;> rfl
  | pointed negative start fraction digits pointed nearest bounded =>
      rw [whole?, unboundedWhole?_eq_none '.' _ rfl (by decide) fun char member => ?_]
      · rfl
      · rw [pointed.splitSign_withSign]
        exact List.mem_append_right _ List.mem_cons_self
      · rcases pointed.mem_withSign member with digit | rfl | rfl
        · refine ⟨?_, ?_, ?_⟩ <;> rintro rfl <;> exact absurd digit (by decide)
        · decide
        · decide

end VectorSearch.Toml

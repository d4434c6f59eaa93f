import Mathlib
import VectorSearch.Toml.Number
/-!
Digits in base ten. The digits of a whole number are read as that number, zeros around them change
it as they do on paper, and digits without a zero in front are the whole part of a number.
-/

namespace VectorSearch.Toml

open Decimal (digitsOf)

def AllDigits (chars : List Char) : Prop := ∀ char ∈ chars, char.isDigit = true

theorem hexValue?_of_isDigit {char : Char} (digit : char.isDigit = true) :
    hexValue? char = some (char.toNat - '0'.toNat) := by
  obtain ⟨low, high⟩ := Char.isDigit_iff_toNat.mp digit
  exact if_pos ⟨low, high⟩

theorem isDigitIn_of_isDigit {char : Char} (digit : char.isDigit = true) :
    isDigitIn 10 char = true := by
  have high := (Char.isDigit_iff_toNat.mp digit).2
  have nine : '9'.toNat = 57 := rfl
  have zero : '0'.toNat = 48 := rfl
  rw [isDigitIn, hexValue?_of_isDigit digit]
  simp only [decide_eq_true_eq]
  omega

theorem digitsValue_eq {digits : List Char} (all : AllDigits digits) :
    digitsValue 10 digits = Nat.ofDigitChars 10 digits 0 := by
  rw [digitsValue, Nat.ofDigitChars_eq_foldl]
  refine List.foldl_ext _ _ _ fun value char member => ?_
  rw [hexValue?_of_isDigit (all char member), Option.getD_some]

theorem allDigits_append {front back : List Char} :
    AllDigits (front ++ back) ↔ AllDigits front ∧ AllDigits back := by
  simp only [AllDigits, List.mem_append, or_imp, forall_and]

theorem allDigits_zeros (count : Nat) : AllDigits (List.replicate count '0') := by
  intro char member
  rw [List.eq_of_mem_replicate member]
  rfl

theorem allDigits_digitsOf (value : Nat) : AllDigits (digitsOf value) := fun _ member =>
  Nat.isDigit_of_mem_toDigits (by decide) (by decide) member

theorem digitsValue_digitsOf (value : Nat) : digitsValue 10 (digitsOf value) = value := by
  rw [digitsValue_eq (allDigits_digitsOf value)]
  exact Nat.ofDigitChars_ten_toDigits

theorem digitsValue_append_zeros {digits : List Char} (all : AllDigits digits) (count : Nat) :
    digitsValue 10 (digits ++ List.replicate count '0') = 10 ^ count * digitsValue 10 digits := by
  rw [digitsValue_eq (allDigits_append.mpr ⟨all, allDigits_zeros count⟩), digitsValue_eq all,
    Nat.ofDigitChars_append, Nat.ofDigitChars_replicate_zero]

theorem digitsValue_zeros_append {digits : List Char} (all : AllDigits digits) (count : Nat) :
    digitsValue 10 (List.replicate count '0' ++ digits) = digitsValue 10 digits := by
  rw [digitsValue_eq (allDigits_append.mpr ⟨allDigits_zeros count, all⟩), digitsValue_eq all,
    Nat.ofDigitChars_append, Nat.ofDigitChars_replicate_zero, Nat.mul_zero]

/-! Digits as parts of a number. -/

theorem ungroup?_of_allDigits {digits : List Char} (occupied : digits ≠ [])
    (all : AllDigits digits) : ungroup? (isDigitIn 10) digits = some digits := by
  induction digits with
  | nil => contradiction
  | cons first rest ih =>
      have firstDigit := isDigitIn_of_isDigit (all first List.mem_cons_self)
      cases rest with
      | nil => exact if_pos firstDigit
      | cons second rest =>
          have digit := all second (by simp)
          have read := ih (List.cons_ne_nil _ _) fun char member => all char (by simp [member])
          have plain : second ≠ '_' := by
            rintro rfl
            exact absurd digit (by decide)
          rw [ungroup?, if_pos firstDigit, read]
          · rfl
          · exact List.cons_ne_nil second rest
          · exact fun others same => plain (List.cons.inj same).1

theorem ungroup?_eq_none {digit : Char → Bool} {chars : List Char} {odd : Char}
    (member : odd ∈ chars) (notDigit : digit odd = false) (notGroup : odd ≠ '_') :
    ungroup? digit chars = none := by
  have not {char : Char} (isDigit : digit char = true) : odd ≠ char := fun same =>
    Bool.noConfusion (isDigit.symm.trans (same ▸ notDigit))
  fun_induction ungroup? digit chars with
  | case1 | case3 | case5 | case7 => rfl
  | case2 char isDigit => exact absurd (List.mem_singleton.mp member) (not isDigit)
  | case4 char rest isDigit ih =>
      have later := List.mem_of_ne_of_mem (not isDigit) member
      rw [ih (List.mem_of_ne_of_mem notGroup later)]
      rfl
  | case6 char rest _ _ isDigit ih =>
      rw [ih (List.mem_of_ne_of_mem (not isDigit) member)]
      rfl

/-- Whether digits may be the whole part of a number: no zero in front of other digits. -/
structure WholePart (digits : List Char) : Prop where
  all : AllDigits digits
  occupied : digits ≠ []
  lead : digits.head? = some '0' → digits = ['0']

theorem wholeDigits?_eq {digits : List Char} (whole : WholePart digits) :
    wholeDigits? digits = some digits := by
  rw [wholeDigits?, ungroup?_of_allDigits whole.occupied whole.all]
  split
  · rename_i second rest same
    obtain rfl := Option.some.inj same
    exact absurd (whole.lead rfl) (by simp)
  · rfl

theorem head?_digitsOf {value : Nat} (positive : 0 < value) :
    (digitsOf value).head? ≠ some '0' := by
  induction value using Nat.strongRecOn with
  | ind value ih =>
      rw [digitsOf]
      by_cases single : value < 10
      · rw [Nat.toDigits_of_lt_base single]
        interval_cases value <;> decide
      · rw [Nat.toDigits_of_base_le (by decide) (by omega), List.head?_append_of_ne_nil _
          Nat.toDigits_ne_nil]
        exact ih (value / 10) (by omega) (by omega)

theorem wholePart_digitsOf (value : Nat) : WholePart (digitsOf value) := by
  refine ⟨allDigits_digitsOf value, Nat.toDigits_ne_nil, fun lead => ?_⟩
  rcases Nat.eq_zero_or_pos value with rfl | positive
  · exact Nat.toDigits_zero 10
  · exact absurd lead (head?_digitsOf positive)

end VectorSearch.Toml

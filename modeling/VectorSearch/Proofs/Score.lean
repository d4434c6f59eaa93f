import Mathlib.Data.Int.Order.Basic
import Mathlib.Data.Prod.Lex
import VectorSearch.Ranking
/-!
The order of scores. Leaving undefined scores aside, scores compare like their places on a scale
on which both zeros share one place, so the comparison is a linear one.
-/

namespace VectorSearch.Score

open Float.Model (UnpackedFloat)

/-- A place on the scale of scores: a band, from the negative infinity up to the positive one, and
within the finite bands the exponent and then the mantissa. -/
abbrev Place := ℤ ×ₗ ℤ ×ₗ ℤ

def place (band exponent mantissa : ℤ) : Place := toLex (band, toLex (exponent, mantissa))

theorem compare_place (band exponent mantissa otherBand otherExponent otherMantissa : ℤ) :
    compare (place band exponent mantissa) (place otherBand otherExponent otherMantissa) =
      (compare band otherBand).then
        ((compare exponent otherExponent).then (compare mantissa otherMantissa)) := rfl

def unpackedGrade : UnpackedFloat → Place
  | .infinity .positive => place 2 0 0
  | .finite .positive mantissa exponent _ => place 1 exponent mantissa
  | .zero _ => place 0 0 0
  | .notANumber => place 0 0 0
  | .finite .negative mantissa exponent _ => place (-1) (-exponent) (-mantissa)
  | .infinity .negative => place (-2) 0 0

def grade (score : Float32) : Place := unpackedGrade score.toModel.unpack

theorem compare_neg (first second : ℤ) :
    compare (-first) (-second) = (compare first second).swap := by
  rw [Int.compare_swap, Int.compare_eq_ite_lt, Int.compare_eq_ite_lt]
  simp only [Int.neg_lt_neg_iff]

theorem compare_natCast (first second : ℕ) :
    compare (first : ℤ) (second : ℤ) = compare first second := by
  rw [Int.compare_eq_ite_lt, Nat.compare_eq_ite_lt]
  simp only [Int.ofNat_lt]

theorem compare_unpacked {first second : UnpackedFloat} (firstDefined : first.isNaN = false)
    (secondDefined : second.isNaN = false) :
    first.compare second = some (compare (unpackedGrade first) (unpackedGrade second)) := by
  rcases first with (_ | _) | _ | _ | ⟨_ | _, mantissa, exponent, _⟩ <;>
    rcases second with (_ | _) | _ | _ | ⟨_ | _, otherMantissa, otherExponent, _⟩ <;>
    first
      | exact absurd firstDefined Bool.noConfusion
      | exact absurd secondDefined Bool.noConfusion
      | dsimp only [UnpackedFloat.compare, unpackedGrade]; rw [compare_place]
  all_goals first | rfl | skip
  · simp only [compare_neg, compare_natCast, Ordering.swap_then]
    rfl
  · rw [compare_natCast]
    rfl

theorem compare_undefined {first second : UnpackedFloat}
    (undefined : first.isNaN = true ∨ second.isNaN = true) : first.compare second = none := by
  rcases undefined with one | two
  · cases first <;> first | rfl | exact Bool.noConfusion one
  · cases second <;> first | exact Bool.noConfusion two | cases first <;> rfl

theorem lt_iff {first second : Float32} (firstDefined : first.isNaN = false)
    (secondDefined : second.isNaN = false) : first < second ↔ grade first < grade second := by
  have model : first < second ↔ first.toModel.unpack.lt second.toModel.unpack = true :=
    decide_eq_true_iff
  rw [model, UnpackedFloat.lt, compare_unpacked firstDefined secondDefined, beq_iff_eq,
    Option.some.injEq, compare_lt_iff_lt]
  rfl

theorem le_iff {first second : Float32} (firstDefined : first.isNaN = false)
    (secondDefined : second.isNaN = false) : first ≤ second ↔ grade first ≤ grade second := by
  have model : first ≤ second ↔ first.toModel.unpack.le second.toModel.unpack = true :=
    decide_eq_true_iff
  rw [model, UnpackedFloat.le, compare_unpacked firstDefined secondDefined, Option.any_some,
    ← Ordering.ne_gt_iff_isLE]
  exact compare_le_iff_le

theorem beq_iff {first second : Float32} (firstDefined : first.isNaN = false)
    (secondDefined : second.isNaN = false) :
    (first == second) = true ↔ grade first = grade second := by
  have model : (first == second) =
      (first.toModel.unpack.compare second.toModel.unpack == some .eq) := rfl
  rw [model, compare_unpacked firstDefined secondDefined, beq_iff_eq,
    Option.some.injEq, compare_eq_iff_eq]
  rfl

/-! Undefined scores. -/

theorem grade_of_isNaN {score : Float32} (undefined : score.isNaN = true) :
    grade score = place 0 0 0 := by
  have model : score.toModel.unpack.isNaN = true := undefined
  unfold grade
  cases unpacked : score.toModel.unpack <;> rw [unpacked] at model <;>
    first | rfl | exact Bool.noConfusion model

theorem not_lt_of_isNaN {first second : Float32}
    (undefined : first.isNaN = true ∨ second.isNaN = true) : ¬ first < second := by
  have model : first < second ↔ first.toModel.unpack.lt second.toModel.unpack = true :=
    decide_eq_true_iff
  rw [model, UnpackedFloat.lt, compare_undefined undefined]
  exact Bool.noConfusion

theorem beq_of_isNaN {first second : Float32}
    (undefined : first.isNaN = true ∨ second.isNaN = true) : (first == second) = false := by
  have model : (first == second) =
      (first.toModel.unpack.compare second.toModel.unpack == some .eq) := rfl
  rw [model, compare_undefined undefined]
  rfl

theorem grade_le_infinity (score : Float32) : grade score ≤ grade (1 / 0) := by
  have top : grade (1 / 0) = place 2 0 0 := by decide +kernel
  rw [top, grade]
  rcases score.toModel.unpack with (_ | _) | _ | _ | ⟨_ | _, mantissa, exponent, _⟩
  all_goals first
    | exact le_refl (place 2 0 0)
    | exact Prod.Lex.toLex_le_toLex.mpr (Or.inl (by dsimp only; decide))

end VectorSearch.Score

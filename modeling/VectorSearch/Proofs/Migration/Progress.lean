import VectorSearch.Migration.Record
import VectorSearch.Proofs.Score
/-!
The progress of a migration. A report never lowers it and keeps it below what only completion
shows, whatever the share of the rows is computed to be.
-/

namespace VectorSearch

namespace Progress

open Float.Model (UnpackedFloat)

def grade (value : Float) : Score.Place := Score.unpackedGrade value.toModel.unpack

theorem compare_of_undefined {first second : Float}
    (undefined : ¬ (first.isNaN = false ∧ second.isNaN = false)) :
    first.toModel.unpack.compare second.toModel.unpack = none := by
  rw [← Bool.not_eq_true, ← Bool.not_eq_true, ← not_or, not_not] at undefined
  exact Score.compare_undefined undefined

theorem lt_iff (first second : Float) :
    first < second ↔
      (first.isNaN = false ∧ second.isNaN = false) ∧ grade first < grade second := by
  have model : first < second ↔ first.toModel.unpack.lt second.toModel.unpack = true :=
    decide_eq_true_iff
  rw [model, UnpackedFloat.lt]
  by_cases defined : first.isNaN = false ∧ second.isNaN = false
  · rw [Score.compare_unpacked defined.1 defined.2, beq_iff_eq, Option.some.injEq,
      compare_lt_iff_lt, and_iff_right defined]
    exact Iff.rfl
  · rw [compare_of_undefined defined]
    exact iff_of_false Bool.noConfusion fun less => defined less.1

theorem le_iff (first second : Float) :
    first ≤ second ↔
      (first.isNaN = false ∧ second.isNaN = false) ∧ grade first ≤ grade second := by
  have model : first ≤ second ↔ first.toModel.unpack.le second.toModel.unpack = true :=
    decide_eq_true_iff
  rw [model, UnpackedFloat.le]
  by_cases defined : first.isNaN = false ∧ second.isNaN = false
  · rw [Score.compare_unpacked defined.1 defined.2, Option.any_some, Ordering.isLE_iff_ne_gt,
      ← ne_eq, compare_le_iff_le, and_iff_right defined]
    exact Iff.rfl
  · rw [compare_of_undefined defined]
    exact iff_of_false Bool.noConfusion fun less => defined less.1

theorem le_of_lt {first second : Float} (less : first < second) : first ≤ second := by
  rw [lt_iff] at less
  exact (le_iff _ _).mpr ⟨less.1, less.2.le⟩

theorem le_trans {first second third : Float} (low : first ≤ second) (high : second ≤ third) :
    first ≤ third := by
  rw [le_iff] at low high ⊢
  exact ⟨⟨low.1.1, high.1.2⟩, low.2.trans high.2⟩

theorem le_self {first second : Float} (above : first ≤ second) : second ≤ second := by
  rw [le_iff] at above ⊢
  exact ⟨⟨above.1.2, above.1.2⟩, le_rfl⟩

end Progress

namespace MigrationRecord

theorem shareOf_le (migrated total : Nat) : shareOf migrated total ≤ runningCap := by
  unfold shareOf
  dsimp only
  split
  · exact Progress.le_of_lt ‹_›
  · decide

variable {record : MigrationRecord} {bound : Float}

theorem le_progress_report (least : bound ≤ record.progress) (migrated elapsed : Nat) :
    record.progress ≤ (record.report migrated elapsed).progress := by
  unfold report
  dsimp only
  split
  · exact Progress.le_of_lt ‹_›
  · exact Progress.le_self least

theorem progress_report_le (most : record.progress ≤ runningCap) (migrated elapsed : Nat) :
    (record.report migrated elapsed).progress ≤ runningCap := by
  unfold report
  dsimp only
  split
  · exact shareOf_le migrated record.total
  · exact most

end MigrationRecord

end VectorSearch
